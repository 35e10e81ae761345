import PocketCalculator.Engine
import PocketCalculator.Proofs.Factorial.Factors
import PocketCalculator.Proofs.Number.Sums
import PocketCalculator.Proofs.Results
import PocketCalculator.Proofs.StackEvaluation
import PocketCalculator.Proofs.Typed.Meaning

/-!
# Where factorials overflow

From zero on a factorial always has a value, and there are two ways to it.  A whole number up to
170 has the product, rounded once.  Everything else has Lanczos' product, and its factors leave
the doubles one after the other: the growing one is infinite from between 141 and 142 on, where
the factorial itself is still far from it, and the vanishing one is zero from between 736 and 738
on, which turns the infinite product into no number.

* `Gamma.ValueOf` and `Gamma.exists_valueOf`: the value of a factorial.
* `Notation.compute_factorial`: a numeral with a factorial sign behind it is computed as the
  factorial of the numeral, judged.
* `Gamma.AnswerTo` and `Gamma.answerTo`: what is answered to the digits of a natural number with a
  factorial sign.
-/

namespace PocketCalculator

open Magnitude

/-! ## Natural numbers as doubles -/

theorem product_eq_factorial (n : Nat) : product n = n.factorial := by
  induction n with
  | zero => rfl
  | succ n ih => rw [product, ih, Nat.factorial_succ]

theorem ofFloat_nearest (num den : Nat) :
    ofFloat (toFloat (nearest num den)) = nearest num den := by
  have hmost : nearest num den ≤ overflow := Nat.min_le_left _ _
  obtain hbelow | htop := Nat.lt_or_eq_of_le hmost
  · exact ofFloat_toFloat hbelow
  · rw [htop]
    rfl

/-- The decimal of a natural number. -/
theorem toFloat_natural (n : Nat) :
    Decimal.toFloat ⟨n, 0⟩ = toFloat (nearest (n * one) 1) := by
  rw [Decimal.toFloat, Decimal.rank]
  obtain rfl | hn := Nat.eq_zero_or_pos n
  · rw [if_pos rfl, Nat.zero_mul, nearest_zero Nat.one_pos]
  · have hpower : n * Nat.pow 10 (0 : Int).toNat = n := Nat.mul_one n
    have hsmall : ¬(310 : Int) ≤ 0 := by decide
    rw [if_neg hn.ne', if_neg hsmall, if_pos le_rfl, hpower]

/-- A natural number is read as the double that it is rounded to. -/
theorem rounded_natural (n : Nat) : Rounded (Decimal.toFloat ⟨n, 0⟩) n := by
  have hmost : nearest (n * one) 1 ≤ overflow := Nat.min_le_left _ _
  rw [toFloat_natural]
  refine ⟨(n * one : Nat), 1, Nat.one_pos, ?_, ?_, ?_⟩
  · rw [Int.cast_natCast, Nat.cast_mul, Nat.cast_one, one_mul, scale]
  · rw [ofFloat_nearest, Int.natAbs_natCast]
  · intro _
    rw [(toFloat_spec hmost).2]
    exact iff_of_false Bool.false_ne_true (Int.natCast_nonneg _).not_gt

section

variable {m n : Nat}

/-- Rounding stays on the same side of a natural number that is no longer than a mantissa. -/
theorem le_real_natural (hm : m < perBinade) (h : m ≤ n) :
    m ≤ real (Decimal.toFloat ⟨n, 0⟩) :=
  (rounded_natural n).natural_le hm (Nat.cast_le.mpr h)

theorem real_natural_le (hm : m < perBinade) (h : n ≤ m) :
    real (Decimal.toFloat ⟨n, 0⟩) ≤ m :=
  (rounded_natural n).le_natural hm (Nat.cast_le.mpr h)

theorem real_natural (hn : n < perBinade) : real (Decimal.toFloat ⟨n, 0⟩) = n :=
  (rounded_natural n).eq_natural hn rfl

end

/-- Where natural numbers become infinite. -/
theorem isFinite_natural (n : Nat) :
    (Decimal.toFloat ⟨n, 0⟩).isFinite = true ↔ n < 2 ^ 1024 - 2 ^ 970 := by
  have hborder : beyond = 2 * ((2 ^ 1024 - 2 ^ 970) * one) := by decide +kernel
  rw [isFinite_iff, toFloat_natural, ofFloat_nearest, nearest_lt_overflow_iff, hborder,
    Nat.mul_lt_mul_left two_pos, Nat.mul_lt_mul_right pos_one]

/-- The factorials that are products are doubles, once rounded. -/
theorem isFinite_product {n : Nat} (hn : n ≤ largestExact) :
    (Decimal.toFloat ⟨product n, 0⟩).isFinite = true := by
  rw [isFinite_natural, product_eq_factorial]
  calc n.factorial ≤ largestExact.factorial := Nat.factorial_le hn
    _ < 2 ^ 1024 - 2 ^ 970 := by decide +kernel

namespace Gamma

variable {lib : Elementary} {x : Float}

/-! ## The two ways to a value -/

/-- Whether a number is a natural one whose factorial is the product. -/
def HasProduct (x : Float) : Prop := ∃ n ≤ largestExact, real x = n

theorem real_zero : real 0 = 0 := by
  have := real_of_grains (x := 0) (a := 0) (b := 1) Nat.one_pos (by decide +kernel)
  simpa using this

theorem grains_of_natural {n : Nat} (h : real x = n) : grains (ofFloat x) = n * one := by
  have hgrained := abs_real x
  rw [h, Nat.abs_cast, eq_div_iff scale_pos.ne', scale] at hgrained
  exact_mod_cast hgrained.symm

theorem natural_of_isWhole (hx0 : 0 ≤ real x) (hwhole : isWhole x = true) :
    real x = (grains (ofFloat x) / one : Nat) := by
  have hmultiple : grains (ofFloat x) / one * one = grains (ofFloat x) :=
    Nat.div_mul_cancel (Nat.dvd_of_mod_eq_zero (of_decide_eq_true hwhole))
  have hgrained := abs_real x
  rw [abs_of_nonneg hx0] at hgrained
  rw [hgrained, div_eq_iff scale_pos.ne', scale, ← Nat.cast_mul, hmultiple]

/-- From zero on a factorial is the product or Lanczos' product. -/
theorem factorial_of_nonneg (hx : x.isFinite = true) (hx0 : 0 ≤ real x) :
    factorial lib x =
      if isWhole x && grains (ofFloat x) / one ≤ largestExact then
        .ok (Decimal.toFloat ⟨product (grains (ofFloat x) / one), 0⟩)
      else .ok (lanczos lib (x + 1)) := by
  have habove : ¬x < 0 := by
    rw [lt_iff hx rfl, real_zero]
    exact hx0.not_gt
  have hsum := rounded_add hx (y := 1) rfl
  have hfinite : (x + 1).isFinite = true :=
    isFinite_add_of_small hx rfl (by rw [real_one]; norm_num)
  have hbeyond : ¬x + 1 < 0.5 := by
    have hleast := hsum.natural_le (h := 1) (by decide) (by rw [real_one]; push_cast; linarith)
    push_cast at hleast
    rw [lt_iff hfinite rfl, real_half]
    linarith
  rw [factorial, hx, gamma, if_neg hbeyond]
  simp only [Bool.not_true, Bool.false_eq_true, if_false, habove, decide_false, Bool.and_false]

theorem factorial_of_natural (hx : x.isFinite = true) {n : Nat} (hn : n ≤ largestExact)
    (h : real x = n) : factorial lib x = .ok (Decimal.toFloat ⟨product n, 0⟩) := by
  have hgrained := grains_of_natural h
  have hwhole : isWhole x = true := by
    rw [isWhole, hgrained, Nat.mul_mod_left]
    rfl
  have hquotient : grains (ofFloat x) / one = n := by
    rw [hgrained, Nat.mul_div_cancel _ pos_one]
  rw [factorial_of_nonneg hx (h ▸ n.cast_nonneg), hwhole, hquotient, Bool.true_and,
    if_pos (decide_eq_true hn)]

theorem factorial_of_lanczos (hx : x.isFinite = true) (hx0 : 0 ≤ real x) (h : ¬HasProduct x) :
    factorial lib x = .ok (lanczos lib (x + 1)) := by
  rw [factorial_of_nonneg hx hx0]
  refine if_neg fun htaken => h ?_
  rw [Bool.and_eq_true, decide_eq_true_eq] at htaken
  exact ⟨_, htaken.2, natural_of_isWhole hx0 htaken.1⟩

/-! ## The value -/

/-- The value of the factorial from zero on. -/
structure ValueOf (lib : Elementary) (x v : Float) : Prop where
  product : ∀ n ≤ largestExact, real x = n → Rounded v n.factorial
  /-- Which of the three kinds the value is of, by the two factors that leave the doubles. -/
  finite : v.isFinite = true ↔ HasProduct x ∨ (growth lib (x + 1 - 1)).isFinite = true
  infinite : v = Float.inf ↔ ¬HasProduct x ∧ growth lib (x + 1 - 1) = Float.inf ∧
    (decay lib (x + 1 - 1) == 0) = false
  undefined : v.isNaN = true ↔ ¬HasProduct x ∧ growth lib (x + 1 - 1) = Float.inf ∧
    (decay lib (x + 1 - 1) == 0) = true
  /-- Where this happens. -/
  finite_of_le : real x ≤ 141 → v.isFinite = true
  not_finite_of_le : 142 ≤ real x → ¬HasProduct x → v = Float.inf ∨ v.isNaN = true
  number_of_le : real x ≤ 736 → v.isNaN = false
  undefined_of_le : 738 ≤ real x → v.isNaN = true

theorem HasProduct.le (h : HasProduct x) : real x ≤ 170 := by
  obtain ⟨n, hn, hsame⟩ := h
  rw [hsame]
  exact_mod_cast hn

theorem isFinite_inf : Float.inf.isFinite = false := rfl

theorem isNaN_inf : Float.inf.isNaN = false := rfl

theorem isNaN_of_isFinite {v : Float} (hv : v.isFinite = true) : v.isNaN = false :=
  (rounded_itself hv).isNaN

theorem valueOf_product {n : Nat} (hn : n ≤ largestExact) (h : real x = n) :
    ValueOf lib x (Decimal.toFloat ⟨product n, 0⟩) := by
  have htaken : HasProduct x := ⟨n, hn, h⟩
  have hfinite := isFinite_product hn
  have hnumber := isNaN_of_isFinite hfinite
  have hbounded := htaken.le
  refine ⟨?_, ?_, ?_, ?_, fun _ => hfinite, fun _ hnot => absurd htaken hnot, fun _ => hnumber,
    fun _ => by linarith⟩
  · intro m _ hm
    obtain rfl : n = m := Nat.cast_injective (h.symm.trans hm)
    rw [← product_eq_factorial]
    exact rounded_natural _
  · exact iff_of_true hfinite (.inl htaken)
  · refine iff_of_false ?_ fun h => h.1 htaken
    intro hinfinite
    rw [hinfinite, isFinite_inf] at hfinite
    cases hfinite
  · exact iff_of_false (by rw [hnumber]; decide) fun h => h.1 htaken

/-- Lanczos' product is finite, infinite or no number, and its factors say which. -/
theorem lanczos_kinds (hlib : lib.Accurate) (hx : x.isFinite = true) (hx0 : 0 ≤ real x) :
    ((lanczos lib (x + 1)).isFinite = true ↔ (growth lib (x + 1 - 1)).isFinite = true) ∧
      (lanczos lib (x + 1) = Float.inf ↔
        growth lib (x + 1 - 1) = Float.inf ∧ (decay lib (x + 1 - 1) == 0) = false) ∧
      ((lanczos lib (x + 1)).isNaN = true ↔
        growth lib (x + 1 - 1) = Float.inf ∧ (decay lib (x + 1 - 1) == 0) = true) := by
  have hfiniteNe {v : Float} (hv : v.isFinite = true) : v ≠ Float.inf := by
    rintro rfl
    exact absurd hv (by rw [isFinite_inf]; decide)
  obtain ⟨hgrown, hfinite⟩ | ⟨hgrown, hdecayed, hinfinite⟩ | ⟨hgrown, hdecayed, hundefined⟩ :=
    lanczos_cases hlib hx hx0
  · refine ⟨iff_of_true hfinite hgrown,
      iff_of_false (hfiniteNe hfinite) fun h => hfiniteNe hgrown h.1,
      iff_of_false ?_ fun h => hfiniteNe hgrown h.1⟩
    rw [isNaN_of_isFinite hfinite]
    decide
  · rw [hgrown, hdecayed, hinfinite, isFinite_inf, isNaN_inf]
    simp
  · have hdistinct : Float.nan ≠ Float.inf := by decide
    rw [hgrown, hdecayed, hundefined, isFinite_inf, isFinite_nan, isNaN_iff_eq_nan]
    simp [hdistinct]

theorem beq_zero_of_pos (hx : 0 < real x) : (x == 0) = false := by
  rw [← Bool.not_eq_true]
  intro hzero
  obtain rfl | rfl := eq_zero_or_neg_zero hzero
  · exact hx.ne' real_zero
  · have hopposite := (real_neg (x := 0) rfl).2
    rw [hopposite, real_zero, neg_zero] at hx
    exact hx.false

theorem valueOf_lanczos (hlib : lib.Accurate) (hx : x.isFinite = true) (hx0 : 0 ≤ real x)
    (h : ¬HasProduct x) : ValueOf lib x (lanczos lib (x + 1)) := by
  obtain ⟨hfinite, hinfinite, hundefined⟩ := lanczos_kinds hlib hx hx0
  obtain ⟨hz, hplace⟩ := shifted_spec hx hx0
  have hz0 : 0 ≤ real (x + 1 - 1) := by simpa using (hplace 0 (by decide)).1 (by simpa using hx0)
  have hdecayed (hle : real x ≤ 736) : (decay lib (x + 1 - 1) == 0) = false :=
    beq_zero_of_pos (decay_pos hlib hz hz0 ((hplace 736 (by decide)).2 hle))
  have hgrown (hle : 142 ≤ real x) : growth lib (x + 1 - 1) = Float.inf :=
    growth_infinite hlib hz ((hplace 142 (by decide)).1 hle)
  refine ⟨fun n hn hsame => absurd ⟨n, hn, hsame⟩ h, ?_, ?_, ?_, ?_, ?_, ?_, ?_⟩
  · rw [hfinite, or_iff_right h]
  · rw [hinfinite, and_iff_right h]
  · rw [hundefined, and_iff_right h]
  · intro hle
    exact hfinite.mpr (growth_finite hlib hz hz0 ((hplace 141 (by decide)).2 hle))
  · intro hle _
    rw [hinfinite, hundefined, hgrown hle]
    cases decay lib (x + 1 - 1) == 0 with
    | true => exact .inr ⟨rfl, rfl⟩
    | false => exact .inl ⟨rfl, rfl⟩
  · intro hle
    rw [← Bool.not_eq_true, hundefined, hdecayed hle]
    exact fun h => Bool.false_ne_true h.2
  · intro hle
    refine hundefined.mpr ⟨hgrown (by linarith), ?_⟩
    have hzero := decay_zero hlib hz ((hplace 738 (by decide)).1 hle)
    rw [hzero]
    rfl

/-- From zero on every finite number has a factorial, of one of three kinds. -/
theorem exists_valueOf (hlib : lib.Accurate) (hx : x.isFinite = true) (hx0 : 0 ≤ real x) :
    ∃ v, factorial lib x = .ok v ∧ ValueOf lib x v := by
  by_cases h : HasProduct x
  · obtain ⟨n, hn, hsame⟩ := h
    exact ⟨_, factorial_of_natural hx hn hsame, valueOf_product hn hsame⟩
  · exact ⟨_, factorial_of_lanczos hx hx0 h, valueOf_lanczos hlib hx hx0 h⟩

end Gamma

/-! ## Numerals with a factorial sign -/

namespace Notation

open Lexeme

/-- A numeral with a factorial sign is the factorial of the numeral. -/
theorem postfix_factorial (n : Figures) :
    ∃ s, normalize (n.text ++ ['!']) = .ok s ∧
      Postfix.ofText s = .ok (Expression.call .factorial (.number n.value)).items := by
  have hflows : Flows .nothing [.factorial n] := ⟨.operand, rfl, .inr rfl⟩
  have hrooted : render (rowLexemes .rooted [.factorial n]) = n.text ++ ['!'] :=
    (Typed.factorial n).render_pieces
  have hroot : rootSign ∉ n.text ++ ['!'] := by
    simpa [rootSign] using (plain_figures n).root
  have hnormal : normalize (n.text ++ ['!']) =
      .ok (render (rowLexemes .canonical [.factorial n])) := by
    refine normalize_eq_ok_iff.mpr
      ⟨(Typed.factorial n).not_blank, _, expandRoots_of_notMem hroot, ?_⟩
    have hcut : Cut Char.isDigit (rowLexemes .rooted [.factorial n]) :=
      cut_rowLexemes .rooted hflows
    rw [← hrooted, split_render hcut, canonical_lexemes hflows]
  refine ⟨_, hnormal, ?_⟩
  rw [Postfix.ofText, read_pieces hflows]
  rfl

theorem compute_factorial (lib : Elementary) (n : Figures) :
    compute lib (n.text ++ ['!']) = factorial lib n.value >>= judge := by
  obtain ⟨s, hnormal, hitems⟩ := postfix_factorial n
  rw [compute_eq_evaluate lib hnormal, evaluate_eq_judge lib _ hitems]
  rfl

/-- A run of digits as a numeral. -/
def DigitRun.figures (d : DigitRun) : Figures := ⟨d, none⟩

theorem DigitRun.value_figures (d : DigitRun) :
    d.figures.value = Decimal.toFloat ⟨Numeral.value d.text, 0⟩ := by
  show Decimal.toFloat ⟨Numeral.value (d.text ++ []), 0⟩ = _
  rw [List.append_nil]

end Notation

namespace Gamma

open Notation

variable {lib : Elementary}

/-- What is answered to the digits of a natural number and a factorial sign. -/
structure AnswerTo (n : Nat) (answer : Except Error Float) : Prop where
  product : n ≤ largestExact → ∃ v, answer = .ok v ∧ Rounded v n.factorial
  overflow : largestExact < n → n ≤ 736 → answer = .error .divisionByZero
  between : n = 737 → answer = .error .divisionByZero ∨ answer = .error .invalidExpression
  undefined : 738 ≤ n → n < 2 ^ 1024 - 2 ^ 970 → answer = .error .invalidExpression
  /-- The number itself is infinite. -/
  refused : 2 ^ 1024 - 2 ^ 970 ≤ n → answer = .error .invalidOperand

theorem judge_inf : judge Float.inf = .error .divisionByZero := rfl

theorem judge_of_isNaN {v : Float} (hv : v.isNaN = true) : judge v = .error .invalidExpression := by
  rw [isNaN_iff_eq_nan.mp hv]
  rfl

/-- Beyond the products, natural numbers have Lanczos' product, and it is not finite. -/
theorem not_finite_natural {n : Nat} {v : Float} (hn : largestExact < n)
    (hvalue : ValueOf lib (Decimal.toFloat ⟨n, 0⟩) v) : v = Float.inf ∨ v.isNaN = true := by
  have hleast := le_real_natural (by decide) (show 171 ≤ n from hn)
  push_cast at hleast
  refine hvalue.not_finite_of_le (by linarith) fun htaken => ?_
  have := htaken.le
  linarith

theorem exists_valueOf_natural (hlib : lib.Accurate) {n : Nat} (hn : n < 2 ^ 1024 - 2 ^ 970) :
    ∃ v, (factorial lib (Decimal.toFloat ⟨n, 0⟩) >>= judge) = judge v ∧
      ValueOf lib (Decimal.toFloat ⟨n, 0⟩) v := by
  have hnonneg : 0 ≤ real (Decimal.toFloat ⟨n, 0⟩) := by
    simpa using le_real_natural (m := 0) (by decide) n.zero_le
  obtain ⟨v, hv, hvalue⟩ := exists_valueOf hlib ((isFinite_natural n).mpr hn) hnonneg
  exact ⟨v, by rw [hv]; rfl, hvalue⟩

/-- The factorials of natural numbers, judged. -/
theorem answerTo_natural (hlib : lib.Accurate) (n : Nat) :
    AnswerTo n (factorial lib (Decimal.toFloat ⟨n, 0⟩) >>= judge) := by
  have hcommon {m : Nat} (hm : m ≤ 737) : m < 2 ^ 1024 - 2 ^ 970 :=
    hm.trans_lt (by decide +kernel)
  refine ⟨?_, ?_, ?_, ?_, ?_⟩
  · intro hn
    have hwhole := real_natural (hn.trans_lt (by decide))
    have hfinite := (isFinite_natural n).mpr (hcommon (hn.trans (by decide)))
    rw [factorial_of_natural hfinite hn hwhole]
    refine ⟨_, judge_of_isFinite (isFinite_product hn), ?_⟩
    rw [product_eq_factorial]
    exact rounded_natural _
  · intro hn hle
    obtain ⟨v, hjudged, hvalue⟩ := exists_valueOf_natural hlib (hcommon (hle.trans (by decide)))
    have hnumber := hvalue.number_of_le (by simpa using real_natural_le (by decide) hle)
    obtain rfl | hundefined := not_finite_natural hn hvalue
    · rw [hjudged, judge_inf]
    · rw [hnumber] at hundefined
      cases hundefined
  · rintro rfl
    obtain ⟨v, hjudged, hvalue⟩ := exists_valueOf_natural hlib (hcommon le_rfl)
    rw [hjudged]
    obtain rfl | hundefined := not_finite_natural (by decide) hvalue
    · exact .inl judge_inf
    · exact .inr (judge_of_isNaN hundefined)
  · intro hle hn
    obtain ⟨v, hjudged, hvalue⟩ := exists_valueOf_natural hlib hn
    have hleast := le_real_natural (by decide) hle
    rw [hjudged, judge_of_isNaN (hvalue.undefined_of_le (by simpa using hleast))]
  · intro hle
    have hinfinite : (Decimal.toFloat ⟨n, 0⟩).isFinite = false := by
      rw [← Bool.not_eq_true, isFinite_natural]
      exact hle.not_gt
    rw [factorial, hinfinite]
    rfl

theorem answerTo (hlib : lib.Accurate) (d : DigitRun) :
    AnswerTo (Numeral.value d.text) (compute lib (d.text ++ ['!'])) := by
  have hcomputed : compute lib (d.text ++ ['!']) = factorial lib d.figures.value >>= judge :=
    compute_factorial lib d.figures
  rw [hcomputed, d.value_figures]
  exact answerTo_natural hlib _

/-- From zero on a factorial always has a value.  It is finite up to 141, infinite or no number from
142 on unless it is a product, never no number up to 736, and no number from 738 on.  So a
natural number with a factorial sign is answered with its factorial up to 170, with the error of
an infinite value up to 736, and with the error of an invalid expression from 738 on. -/
theorem factorial_overflows (hlib : lib.Accurate) :
    (∀ x : Float, x.isFinite = true → 0 ≤ x →
      ∃ v, factorial lib x = .ok v ∧ ValueOf lib x v) ∧
    ∀ d : DigitRun, AnswerTo (Numeral.value d.text) (compute lib (d.text ++ ['!'])) := by
  refine ⟨fun x hx hx0 => exists_valueOf hlib hx ?_, answerTo hlib⟩
  rwa [le_iff rfl hx, real_zero] at hx0

/-- At 171 there is a value, and the text of its factorial has the error of an infinite one. -/
theorem factorial_overflows_at_171 :
    (∃ v, factorial Elementary.rounded 171 = .ok v ∧ v.isNaN = false) ∧
      compute Elementary.rounded "171!".toList = .error .divisionByZero := by
  let digits : DigitRun := ⟨"171".toList, by decide, by decide⟩
  have hsame : real 171 = 171 := by
    have := real_of_grains (x := 171) (a := 171) (b := 1) Nat.one_pos (by decide +kernel)
    simpa using this
  obtain ⟨hvalues, hanswers⟩ := factorial_overflows Elementary.accurate_rounded
  obtain ⟨v, hv, hvalue⟩ := hvalues 171 rfl (by decide)
  refine ⟨⟨v, hv, hvalue.number_of_le (by rw [hsame]; norm_num)⟩, ?_⟩
  exact (hanswers digits).overflow (by decide) (by decide)

/-- The factorial of 142.5 is far from the largest double, and its value is infinite.  The factorial
of 1000 is far beyond, and its value is no number. -/
theorem factorial_out_of_place :
    (142.5 : Float) ≤ 170 ∧ factorial Elementary.rounded 142.5 = .ok Float.inf ∧
      (171 : Float) ≤ 1000 ∧ factorial Elementary.rounded 1000 = .ok Float.nan ∧
      compute Elementary.rounded "1000!".toList = .error .invalidExpression := by
  let digits : DigitRun := ⟨"1000".toList, by decide, by decide⟩
  have hlib := Elementary.accurate_rounded
  have hsame : real 1000 = 1000 := by
    have := real_of_grains (x := 1000) (a := 1000) (b := 1) Nat.one_pos (by decide +kernel)
    simpa using this
  have hhalf : real 142.5 = 285 / 2 := by
    have := real_of_grains (x := 142.5) (a := 285) (b := 2) Nat.two_pos (by decide +kernel)
    simpa using this
  have hbroken : ¬HasProduct 142.5 := by
    rintro ⟨n, -, hsame⟩
    rw [hhalf, div_eq_iff two_ne_zero] at hsame
    have hodd : 285 = n * 2 := by exact_mod_cast hsame
    omega
  obtain ⟨v, hv, hvalue⟩ := exists_valueOf hlib (x := 142.5) rfl
    (by rw [hhalf]; norm_num)
  obtain ⟨w, hw, hundefined⟩ := exists_valueOf hlib (x := 1000) rfl
    (by rw [hsame]; norm_num)
  refine ⟨by decide, ?_, by decide, ?_, ?_⟩
  · obtain rfl | hnumber := hvalue.not_finite_of_le (by rw [hhalf]; norm_num) hbroken
    · exact hv
    · rw [hvalue.number_of_le (by rw [hhalf]; norm_num)] at hnumber
      cases hnumber
  · rw [hw, isNaN_iff_eq_nan.mp (hundefined.undefined_of_le (by rw [hsame]; norm_num))]
  · exact (answerTo hlib digits).undefined (by decide) (by decide +kernel)

end Gamma

end PocketCalculator
