import PocketCalculator.Number.Decimal
import PocketCalculator.Proofs.Number.Rounding

/-!
# Shortest decimals read back

A decimal is a quotient of grains (`Decimal.num` and `Decimal.den`), and `Decimal.rank` is the
rank of what it rounds to (`rank_of_rounds`): the cases that `rank` settles without computing a
power of ten are no cases of a finite magnitude.  `Decimal.shortest` takes a decimal that rounds
to the magnitude it is asked for, so its rank is that of the magnitude (`rank_shortest`).
-/

namespace PocketCalculator.Decimal

open Magnitude

/-- The numerator of a decimal, in grains. -/
def num (d : Decimal) : Nat := d.digits * 10 ^ d.exponent.toNat * one

/-- The denominator of a decimal. -/
def den (d : Decimal) : Nat := 10 ^ (-d.exponent).toNat

theorem den_pos (d : Decimal) : 0 < d.den := Nat.pow_pos (by decide)

/-! ## The rank of a decimal -/

variable {d : Decimal} {k : Nat}

/-- At least half a grain is needed to round to a magnitude that is not zero. -/
theorem den_le_of_rounds (hk : 0 < k) (h : Rounds d.num d.den k) : d.den ≤ 2 * d.num := by
  have hgrains : 0 < grains k := grains_pos hk
  calc d.den = 1 * d.den := (Nat.one_mul _).symm
    _ ≤ (grains (k - 1) + grains k) * d.den := Nat.mul_le_mul_right _ (by omega)
    _ ≤ 2 * d.num := h.low

theorem num_le_of_rounds (hk : k < overflow) (h : Rounds d.num d.den k) :
    d.num ≤ grains overflow * d.den := by
  have hhere : grains k ≤ grains overflow := grains_strictMono.monotone hk.le
  have hbehind : grains (k + 1) ≤ grains overflow := grains_strictMono.monotone hk
  have hsum : (grains k + grains (k + 1)) * d.den ≤ 2 * grains overflow * d.den :=
    Nat.mul_le_mul_right _ (by omega)
  have := h.high
  have hdouble : 2 * grains overflow * d.den = 2 * (grains overflow * d.den) := Nat.mul_assoc _ _ _
  omega

theorem le_num {power : Nat} (hdigits : d.digits ≠ 0) (hpower : power ≤ d.exponent.toNat) :
    10 ^ power * one ≤ d.num :=
  Nat.mul_le_mul_right _ (Nat.le_trans (Nat.pow_le_pow_right (by decide) hpower)
    (Nat.le_mul_of_pos_left _ (Nat.pos_of_ne_zero hdigits)))

/-- A decimal that rounds to a finite magnitude is not too large to compute. -/
theorem exponent_lt_of_rounds (hdigits : d.digits ≠ 0) (hk : k < overflow)
    (h : Rounds d.num d.den k) : d.exponent < 310 := by
  by_contra hlarge
  have hexponent : 310 ≤ d.exponent.toNat := by omega
  have hden : d.den = 1 := by
    rw [den, show (-d.exponent).toNat = 0 by omega]
    rfl
  have hnum := le_num hdigits hexponent
  have hbound := num_le_of_rounds hk h
  rw [hden, Nat.mul_one] at hbound
  have hgap : grains overflow < 10 ^ 310 * one := by decide +kernel
  exact Nat.lt_irrefl _ (Nat.lt_of_lt_of_le hgap (Nat.le_trans hnum hbound))

/-- A decimal that rounds to a magnitude above zero is not too small to compute. -/
theorem lt_log2_of_rounds (hk : 0 < k) (h : Rounds d.num d.den k) (hsmall : d.exponent < 0) :
    3 * -d.exponent < (d.digits.log2 : Int) + 1077 := by
  by_contra htiny
  have hexponent : d.exponent.toNat = 0 := by omega
  have hden : 2 ^ (d.digits.log2 + 1077) ≤ d.den := by
    calc 2 ^ (d.digits.log2 + 1077) ≤ 2 ^ (3 * (-d.exponent).toNat) :=
          Nat.pow_le_pow_right (by decide) (by omega)
      _ = 8 ^ (-d.exponent).toNat := Nat.pow_mul 2 3 _
      _ ≤ 10 ^ (-d.exponent).toNat := Nat.pow_le_pow_left (by decide) _
  have hdigits : d.digits < 2 ^ (d.digits.log2 + 1) := Nat.lt_log2_self
  have hnum : 2 * d.num < d.den := by
    have hone : 2 * one ≤ 2 ^ 1076 := by decide +kernel
    rw [num, hexponent, Nat.pow_zero, Nat.mul_one, Nat.mul_left_comm]
    calc d.digits * (2 * one) < 2 ^ (d.digits.log2 + 1) * (2 * one) :=
          Nat.mul_lt_mul_of_pos_right hdigits (by decide +kernel)
      _ ≤ 2 ^ (d.digits.log2 + 1) * 2 ^ 1076 := Nat.mul_le_mul_left _ hone
      _ = 2 ^ (d.digits.log2 + 1077) := by rw [← Nat.pow_add]
      _ ≤ d.den := hden
  exact Nat.lt_irrefl _ (Nat.lt_of_lt_of_le hnum (den_le_of_rounds hk h))

/-- A decimal has the rank of the magnitude that it rounds to. -/
theorem rank_of_rounds (hpos : 0 < k) (hk : k < overflow) (h : Rounds d.num d.den k) :
    d.rank = k := by
  have hdigits : d.digits ≠ 0 := by
    intro hzero
    have hnum : d.num = 0 := by rw [num, hzero, Nat.zero_mul, Nat.zero_mul]
    have := den_le_of_rounds hpos h
    have := d.den_pos
    omega
  have hnearest : nearest d.num d.den = k := nearest_of_rounds d.den_pos h hk
  have hlarge : d.exponent < 310 := exponent_lt_of_rounds hdigits hk h
  unfold rank
  rw [if_neg hdigits, if_neg (by omega)]
  split
  case isTrue hwhole =>
    rw [← hnearest, den, show (-d.exponent).toNat = 0 by omega]
    rfl
  case isFalse hpart =>
    have hsmall := lt_log2_of_rounds hpos h (by omega)
    rw [if_neg (by omega), ← hnearest, num, show d.exponent.toNat = 0 by omega, Nat.pow_zero,
      Nat.mul_one]
    rfl

/-! ## Shortest decimals -/

/-- Digits that are found on a grid are inside the interval that rounds to the magnitude. -/
theorem rounds_onGrid {e : Int} {digits : Nat} (h : onGrid k e = some digits) :
    Rounds (num ⟨digits, e⟩) (den ⟨digits, e⟩) k := by
  let step := 2 * one * 10 ^ e.toNat
  let low := (grains (k - 1) + grains k) * 10 ^ (-e).toNat
  let high := (grains k + grains (k + 1)) * 10 ^ (-e).toNat
  let inside (point : Nat) : Bool :=
    if k % 2 = 0 then low ≤ point && point ≤ high else low < point && point < high
  have hinside : inside (digits * step) = true := by
    let value := 2 * grains k * 10 ^ (-e).toNat
    let below := value / step
    let above := below + 1
    have h : (if inside (above * step) && (!inside (below * step) ||
        above * step - value ≤ value - below * step) then some above
      else if inside (below * step) then some below else none) = some digits := h
    split at h
    case isTrue habove =>
      obtain rfl : above = digits := Option.some.inj h
      exact (Bool.and_eq_true_iff.mp habove).1
    case isFalse =>
      split at h
      case isTrue hbelow =>
        obtain rfl : below = digits := Option.some.inj h
        exact hbelow
      case isFalse => cases h
  have hpoint : digits * step = 2 * num ⟨digits, e⟩ := by
    unfold num step
    generalize one = o
    ring
  rw [hpoint] at hinside
  simp only [inside] at hinside
  split at hinside <;> simp only [Bool.and_eq_true, decide_eq_true_eq] at hinside
  case isTrue heven => exact ⟨hinside.1, hinside.2, fun _ => heven⟩
  case isFalse hodd =>
    refine ⟨hinside.1.le, hinside.2.le, ?_⟩
    rintro (heq | heq)
    · exact absurd heq hinside.1.ne
    · exact absurd heq hinside.2.ne

/-- The exact value of a magnitude rounds to it. -/
theorem rounds_of_exact (hk : 0 < k) (h : d.num = grains k * d.den) : Rounds d.num d.den k := by
  have hbefore : grains (k - 1) * d.den < grains k * d.den :=
    Nat.mul_lt_mul_of_pos_right (grains_strictMono (by omega)) d.den_pos
  have hbehind : grains k * d.den < grains (k + 1) * d.den :=
    Nat.mul_lt_mul_of_pos_right (grains_strictMono (by omega)) d.den_pos
  refine ⟨?_, ?_, ?_⟩ <;> simp only [h, Nat.add_mul] <;> omega

theorem num_of_negative {e : Int} (he : e.toNat = 0) {power : Nat}
    (hpower : power * one = 10 ^ (-e).toNat) (digits : Nat) :
    num ⟨digits * power, e⟩ = digits * den ⟨digits * power, e⟩ := by
  unfold num den
  rw [he, ← hpower, Nat.pow_zero, Nat.mul_one, Nat.mul_assoc]

theorem rounds_shortest (hk : 0 < k) : Rounds (shortest k).num (shortest k).den k := by
  unfold shortest
  simp only
  cases hfound : (List.range 22).findSome? fun (finer : Nat) =>
    (onGrid k (coarsest k - finer)).map fun digits => (⟨digits, coarsest k - finer⟩ : Decimal) with
  | none => exact rounds_of_exact hk (num_of_negative rfl (by decide +kernel) _)
  | some d =>
    obtain ⟨finer, -, hgrid⟩ := List.exists_of_findSome?_eq_some hfound
    obtain ⟨digits, hdigits, rfl⟩ := Option.map_eq_some_iff.mp hgrid
    exact rounds_onGrid hdigits

/-- A shortest decimal reads back as the magnitude that it was asked for. -/
theorem rank_shortest (hpos : 0 < k) (hk : k < overflow) : (shortest k).rank = k :=
  rank_of_rounds hpos hk (rounds_shortest hpos)

end PocketCalculator.Decimal
