import PocketCalculator.Proofs.Number.Shortest
import PocketCalculator.Proofs.Number.Shown
import PocketCalculator.Proofs.Typed.Notation

/-!
# Shown decimals are numerals

A decimal that is shown without an exponent is a numeral of the calculator notation, and the
numeral stands for the decimal (`exists_positional`).  A decimal that is shown with an exponent
is a numeral with a letter, a sign and further digits behind it, and these say with which power of
ten the numeral is the decimal (`exists_scientific`).
-/

namespace PocketCalculator.Decimal

open Magnitude
open Notation (DigitRun Figures)

/-! ## Digits -/

/-- A text of digits as a run of digits. -/
def digitRun (s : Text) (hne : s ≠ []) (h : ∀ c ∈ s, c.isDigit = true) : DigitRun :=
  ⟨s, hne, List.all_eq_true.mpr h⟩

theorem isDigit_zeros {n : Nat} : ∀ c ∈ List.replicate n '0', c.isDigit = true := by
  intro c h
  rw [List.eq_of_mem_replicate h]
  rfl

theorem value_figures (d : Decimal) : Numeral.value d.figures = d.digits :=
  Nat.ofDigitChars_ten_toDigits

theorem value_append_zeros (s : Text) (n : Nat) :
    Numeral.value (s ++ List.replicate n '0') = Numeral.value s * 10 ^ n := by
  unfold Numeral.value
  rw [Nat.ofDigitChars_append, Nat.ofDigitChars_replicate_zero, Nat.mul_comm]

theorem value_zeros_append (n : Nat) (s : Text) :
    Numeral.value (List.replicate n '0' ++ s) = Numeral.value s := by
  unfold Numeral.value
  rw [Nat.ofDigitChars_append, Nat.ofDigitChars_replicate_zero, Nat.mul_zero]

/-! ## Without an exponent -/

/-- The same number with no positive exponent. -/
def aligned (d : Decimal) : Decimal := ⟨d.digits * 10 ^ d.exponent.toNat, min d.exponent 0⟩

theorem num_aligned (d : Decimal) : d.aligned.num = d.num := by
  have hexponent : (min d.exponent 0).toNat = 0 := by omega
  simp only [num, aligned, hexponent, Nat.pow_zero, Nat.mul_one]

theorem den_aligned (d : Decimal) : d.aligned.den = d.den := by
  have hexponent : (-min d.exponent 0).toNat = (-d.exponent).toNat := by omega
  simp only [den, aligned, hexponent]

theorem digits_aligned {d : Decimal} (h : d.exponent < 0) : d.aligned.digits = d.digits := by
  rw [aligned, show d.exponent.toNat = 0 by omega, Nat.pow_zero, Nat.mul_one]

theorem value_eq_aligned {n : Figures} {d : Decimal}
    (hdigits : Numeral.value (n.whole.text ++ n.decimals) = d.aligned.digits)
    (hplaces : -(n.decimals.length : Int) = d.aligned.exponent) : n.value = d.aligned.toFloat := by
  unfold Figures.value
  rw [hdigits, hplaces]

/-- The digits of a whole number, and zeros behind them. -/
theorem exists_whole {d : Decimal} (h : 0 ≤ d.exponent) :
    ∃ n : Figures, n.text = d.positional ∧ n.value = d.aligned.toFloat := by
  have hdigit : ∀ c ∈ d.figures ++ List.replicate d.exponent.toNat '0', c.isDigit = true := by
    intro c hc
    exact (List.mem_append.mp hc).elim isDigit_of_mem_figures (isDigit_zeros c)
  have hne : d.figures ++ List.replicate d.exponent.toNat '0' ≠ [] := by
    simp [figures, Nat.toDigits_ne_nil]
  refine ⟨⟨digitRun _ hne hdigit, none⟩, ?_, value_eq_aligned ?_ ?_⟩
  · rw [positional, if_pos h]
    rfl
  · simp only [Figures.decimals, digitRun, List.append_nil]
    rw [value_append_zeros, value_figures]
    rfl
  · exact (min_eq_right h).symm

/-- A point among the digits. -/
theorem exists_point {d : Decimal} (h : d.exponent < 0)
    (hpoint : (-d.exponent).toNat < d.figures.length) :
    ∃ n : Figures, n.text = d.positional ∧ n.value = d.aligned.toFloat := by
  let place := d.figures.length - (-d.exponent).toNat
  have hwhole : d.figures.take place ≠ [] := by
    rw [← List.length_pos_iff, List.length_take]
    omega
  have hpart : d.figures.drop place ≠ [] := by
    rw [← List.length_pos_iff, List.length_drop]
    omega
  refine ⟨⟨digitRun _ hwhole fun c hc => isDigit_of_mem_figures (List.mem_of_mem_take hc),
    some (digitRun _ hpart fun c hc => isDigit_of_mem_figures (List.mem_of_mem_drop hc))⟩,
    ?_, value_eq_aligned ?_ ?_⟩
  · rw [positional, if_neg (by omega), if_pos hpoint]
    rfl
  · simp only [Figures.decimals, digitRun, List.take_append_drop]
    rw [value_figures, digits_aligned h]
  · simp only [Figures.decimals, digitRun, List.length_drop, aligned]
    omega

/-- A point in front of the digits, and zeros between. -/
theorem exists_zeros {d : Decimal} (h : d.exponent < 0)
    (hpoint : d.figures.length ≤ (-d.exponent).toNat) :
    ∃ n : Figures, n.text = d.positional ∧ n.value = d.aligned.toFloat := by
  let zeros := List.replicate ((-d.exponent).toNat - d.figures.length) '0'
  have hdigit : ∀ c ∈ zeros ++ d.figures, c.isDigit = true := by
    intro c hc
    exact (List.mem_append.mp hc).elim (isDigit_zeros c) isDigit_of_mem_figures
  have hne : zeros ++ d.figures ≠ [] := by simp [figures, Nat.toDigits_ne_nil]
  refine ⟨⟨digitRun ['0'] (by decide) (by simp), some (digitRun _ hne hdigit)⟩, ?_,
    value_eq_aligned ?_ ?_⟩
  · rw [positional, if_neg (by omega), if_neg (by omega), List.append_assoc]
    rfl
  · have hzero : ['0'] ++ (zeros ++ d.figures) =
        List.replicate ((-d.exponent).toNat - d.figures.length + 1) '0' ++ d.figures := by
      rw [List.replicate_succ]
      rfl
    simp only [Figures.decimals, digitRun]
    rw [hzero, value_zeros_append, value_figures, digits_aligned h]
  · simp only [Figures.decimals, digitRun, zeros, List.length_append, List.length_replicate,
      aligned]
    omega

/-- A decimal that is shown without an exponent is a numeral that stands for it. -/
theorem exists_positional (d : Decimal) :
    ∃ n : Figures, n.text = d.positional ∧ n.value = d.aligned.toFloat := by
  obtain h | h := le_or_gt 0 d.exponent
  · exact exists_whole h
  · obtain hpoint | hpoint := lt_or_ge (-d.exponent).toNat d.figures.length
    · exact exists_point h hpoint
    · exact exists_zeros h hpoint

/-- The double that a shortest decimal stands for is the one that it was asked for. -/
theorem toFloat_aligned_shortest {k : Nat} (hpos : 0 < k) (hk : k < overflow) :
    (shortest k).aligned.toFloat = Magnitude.toFloat k := by
  have hrounds : Rounds (shortest k).aligned.num (shortest k).aligned.den k := by
    rw [num_aligned, den_aligned]
    exact rounds_shortest hpos
  rw [toFloat, rank_of_rounds hpos hk hrounds]

/-! ## With an exponent -/

/-- The power of ten that a sign and a run of digits stand for. -/
def signedPower (sign : Char) (power : DigitRun) : Int :=
  if sign = '-' then -(Numeral.value power.text : Int) else Numeral.value power.text

theorem exists_signedPower (p : Int) : ∃ power : DigitRun, power.text = Nat.toDigits 10 p.natAbs ∧
    signedPower (if p < 0 then '-' else '+') power = p := by
  have hpower : ∀ c ∈ Nat.toDigits 10 p.natAbs, c.isDigit = true := fun c hc =>
    Nat.isDigit_of_mem_toDigits (by decide) (by decide) hc
  have hvalue : Numeral.value (Nat.toDigits 10 p.natAbs) = p.natAbs :=
    Nat.ofDigitChars_ten_toDigits
  refine ⟨digitRun _ Nat.toDigits_ne_nil hpower, rfl, ?_⟩
  unfold signedPower digitRun
  rw [hvalue]
  by_cases hp : p < 0
  · rw [if_pos hp, if_pos rfl]
    omega
  · rw [if_neg hp, if_neg (by decide)]
    omega

/-- A decimal that is shown with an exponent is a numeral, a letter, a sign and digits, and this
numeral with its power of ten is the decimal. -/
theorem exists_scientific (d : Decimal) :
    ∃ (n : Figures) (sign : Char) (power : DigitRun), (sign = '-' ∨ sign = '+') ∧
      d.scientific = n.text ++ 'e' :: sign :: power.text ∧
      n.scaled (signedPower sign power) = d := by
  have hfigures : d.figures ≠ [] := Nat.toDigits_ne_nil
  have hlength : 0 < d.figures.length := List.length_pos_iff.mpr hfigures
  have hfirst : d.figures.take 1 ≠ [] := by simpa using hfigures
  have hdigit : ∀ c ∈ d.figures.take 1, c.isDigit = true := fun c hc =>
    isDigit_of_mem_figures (List.mem_of_mem_take hc)
  let p := d.exponent + (d.figures.length - 1 : Nat)
  obtain ⟨power, hpower, hvalue⟩ := exists_signedPower p
  have hsign : (if p < 0 then '-' else '+') = '-' ∨ (if p < 0 then '-' else '+') = '+' := by
    split <;> simp
  obtain hone | hmore := le_or_gt d.figures.length 1
  · have hall : d.figures.take 1 = d.figures := List.take_of_length_le hone
    refine ⟨⟨digitRun _ hfirst hdigit, none⟩, _, power, hsign, ?_, ?_⟩
    · rw [scientific, if_pos hone, List.append_nil, hpower]
      rfl
    · rw [hvalue]
      show (⟨Numeral.value (d.figures.take 1 ++ []), p - (0 : Nat)⟩ : Decimal) = d
      rw [List.append_nil, hall, value_figures]
      refine congrArg (Decimal.mk d.digits) ?_
      omega
  · have hrest : d.figures.drop 1 ≠ [] := by
      rw [← List.length_pos_iff, List.length_drop]
      omega
    refine ⟨⟨digitRun _ hfirst hdigit,
      some (digitRun _ hrest fun c hc => isDigit_of_mem_figures (List.mem_of_mem_drop hc))⟩, _,
      power, hsign, ?_, ?_⟩
    · rw [scientific, if_neg (by omega), hpower]
      rfl
    · rw [hvalue]
      show (⟨Numeral.value (d.figures.take 1 ++ d.figures.drop 1),
        p - (d.figures.drop 1).length⟩ : Decimal) = d
      rw [List.take_append_drop, value_figures, List.length_drop]
      refine congrArg (Decimal.mk d.digits) ?_
      omega

end PocketCalculator.Decimal
