import PocketCalculator.Proofs.Rereading
import PocketCalculator.Proofs.Trimming

/-!
# Shown numbers read back

The calculator reads its entry line as a number where the register is concerned.  This is not the
notation of what is typed (`Numeral.read?` takes an exponent, and nothing but a number), and it
gives every finite number back from the text that is shown for it, with an exponent or without.

* `Numeral.read?_figures`: a numeral, perhaps behind a minus, with what may follow it.
* `Display.read?_positional` and `Display.read?_scientific`: the two ways to write a number.
* `Display.read?_result` puts these together, and `Display.trim_result` says that there is nothing
  to be trimmed.
-/

namespace PocketCalculator

open Notation (DigitRun Figures minusText)

namespace Numeral

/-! ## Numerals -/

theorem toLower_of_isDigit {c : Char} (h : c.isDigit = true) : c.toLower = c := by
  simp only [Char.toLower, Char.isDigit, Bool.and_eq_true, decide_eq_true_eq] at *
  grind

/-- What begins with a digit is none of the names. -/
theorem unsigned?_of_isDigit {c : Char} {s : Text} (h : c.isDigit = true) :
    unsigned? (c :: s) = (decimal? (c :: s)).map Decimal.toFloat := by
  have hnoName {d : Char} {name : Text} (hd : d.isDigit = false) :
      (c :: s).map Char.toLower ≠ d :: name := by
    intro hsame
    obtain ⟨hfirst, -⟩ := List.cons.inj hsame
    rw [toLower_of_isDigit h] at hfirst
    rw [hfirst, hd] at h
    cases h
  have hnoInfinity : ¬((c :: s).map Char.toLower = "inf".toList ∨
      (c :: s).map Char.toLower = "infinity".toList) := by
    rintro (hsame | hsame)
    · exact hnoName (by decide) hsame
    · exact hnoName (by decide) hsame
  have hnoNumber : (c :: s).map Char.toLower ≠ "nan".toList := hnoName (by decide)
  rw [unsigned?, if_neg hnoInfinity, if_neg hnoNumber]

/-- A minus turns the sign of the number behind it. -/
theorem read?_minusText {negative : Bool} {c : Char} {s : Text} (h : c.isDigit = true) :
    read? (minusText negative ++ c :: s) =
      (decimal? (c :: s)).map fun d => if negative then -d.toFloat else d.toFloat := by
  cases negative with
  | true =>
    show (unsigned? (c :: s)).map (- ·) = _
    rw [unsigned?_of_isDigit h, Option.map_map]
    rfl
  | false =>
    have hunsigned : read? (c :: s) = unsigned? (c :: s) := by
      unfold read?
      split
      case h_1 hsame =>
        obtain ⟨rfl, -⟩ := List.cons.inj hsame
        cases h
      case h_2 hsame =>
        obtain ⟨rfl, -⟩ := List.cons.inj hsame
        cases h
      case h_3 => rfl
    exact hunsigned.trans (unsigned?_of_isDigit h)

/-- A numeral is read with the exponent behind it. -/
theorem read?_figures (negative : Bool) (n : Figures) {rest : Text}
    (h : ∀ c ∈ rest.head?, c.isDigit = false ∧ c ≠ '.') :
    read? (minusText negative ++ (n.text ++ rest)) =
      (exponent? rest).map fun power =>
        if negative then -(n.scaled power).toFloat else (n.scaled power).toFloat := by
  obtain ⟨c, hfirst, hdigit⟩ := n.head?_text
  obtain ⟨s, htext⟩ : ∃ s, n.text = c :: s := List.head?_eq_some_iff.mp hfirst
  have hcut : n.text ++ rest = c :: (s ++ rest) := by rw [htext, List.cons_append]
  rw [hcut, read?_minusText hdigit, ← hcut, Notation.decimal?_append n h, Option.map_map]
  rfl

/-- A sign and digits behind the letter are an exponent. -/
theorem exponent?_signed {sign : Char} (h : sign = '-' ∨ sign = '+') (power : DigitRun) :
    exponent? ('e' :: sign :: power.text) = some (Decimal.signedPower sign power) := by
  obtain rfl | rfl := h <;>
    simp [exponent?, power.ne_nil, power.all_isDigit, Decimal.signedPower]

end Numeral

namespace Display

open Magnitude

variable {v : Float}

/-! ## Shown numbers -/

theorem read?_positional (hfinite : v.isFinite = true) (hzero : ofFloat v ≠ 0) :
    Numeral.read? (positional v) = some v := by
  have hk : ofFloat v < overflow := isFinite_iff.mp hfinite
  obtain ⟨n, htext, hvalue⟩ := Decimal.exists_positional (Decimal.shortest (ofFloat v))
  rw [Decimal.toFloat_aligned_shortest (Nat.pos_of_ne_zero hzero) hk] at hvalue
  have hread : Numeral.read? (minusText (isNegative v) ++ (n.text ++ [])) = _ :=
    Numeral.read?_figures (isNegative v) n (by simp)
  rw [List.append_nil, Numeral.exponent?, Option.map_some, n.toFloat_scaled_zero, hvalue,
    signed_toFloat hfinite] at hread
  rw [positional, write_of_isFinite hfinite hzero, ← htext, hread]

theorem read?_scientific (hfinite : v.isFinite = true) (hzero : ofFloat v ≠ 0) :
    Numeral.read? (write ['0'] Decimal.scientific v) = some v := by
  have hk : ofFloat v < overflow := isFinite_iff.mp hfinite
  obtain ⟨n, sign, power, hsign, htext, hvalue⟩ :=
    Decimal.exists_scientific (Decimal.shortest (ofFloat v))
  have hrank : (Decimal.shortest (ofFloat v)).toFloat = toFloat (ofFloat v) :=
    congrArg toFloat (Decimal.rank_shortest (Nat.pos_of_ne_zero hzero) hk)
  rw [write_of_isFinite hfinite hzero, htext, Numeral.read?_figures _ n (by simp),
    Numeral.exponent?_signed hsign, Option.map_some, hvalue, hrank, signed_toFloat hfinite]

theorem read?_zero : Numeral.read? ['0'] = some 0 := by decide +kernel

/-- A finite number is read back from the text that is shown for it; of the two zeros only one
is shown. -/
theorem read?_result (hfinite : v.isFinite = true) :
    Numeral.read? (result v) = some (reread v) := by
  unfold result reread
  cases hzero : v == 0 with
  | true => exact read?_zero
  | false =>
    have hmagnitude : ofFloat v ≠ 0 := ofFloat_ne_zero hzero
    cases hplain : smallest ≤ v.abs && v.abs < largest with
    | true => exact read?_positional hfinite hmagnitude
    | false => exact read?_scientific hfinite hmagnitude

theorem not_isBlank_of_inNumber {c : Char} (h : InNumber c) : isBlank c = false := by
  obtain hdigit | hsign := h
  · exact Lexeme.isBlank_eq_false (.inr hdigit)
  · have hall : numberSigns.all (fun c => !isBlank c) = true := by decide
    simpa using List.all_eq_true.mp hall c hsign

/-- A shown number has no blanks to be trimmed. -/
theorem trim_result (v : Float) : trim (result v) = result v :=
  trim_of_not_isBlank fun c hc => not_isBlank_of_inNumber (inNumber_result v c hc)

end Display

end PocketCalculator
