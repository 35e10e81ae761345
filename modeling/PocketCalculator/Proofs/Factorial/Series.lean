import PocketCalculator.Factorial
import PocketCalculator.Proofs.Number.Reals

/-!
# Lanczos' series

The series is summed in doubles, and the sum is near the sum of the exact terms (`terms`), because
each term and each addition is rounded by little: `term_error` is the error of a term, `step_error`
that of an addition, and `series_error` follows by induction on the coefficients.

The exact sum is a quotient of two polynomials in which all coefficients are positive, and so are
those of the differences that bound it (`exact_bounds`).  The series is therefore finite and
positive for all arguments that are not negative (`series_bounds`).
-/

namespace PocketCalculator.Gamma

open Magnitude

/-! ## Rounding errors -/

variable {z i p sum : Float} {k : Nat}

theorem abs_div_le {a d : ℝ} (hd : 1 ≤ d) : |a / d| ≤ |a| := by
  rw [abs_div, abs_of_pos (zero_lt_one.trans_le hd)]
  exact div_le_self (abs_nonneg _) hd

theorem div_close {a w d : ℝ} (ha : |a| ≤ 2 ^ 11) (hw : 1 ≤ w) (hd : 0 < d)
    (h : |w - d| ≤ d / 2 ^ 52) : |a / w - a / d| ≤ 1 / 2 ^ 41 := by
  have hw0 : 0 < w := by linarith
  have hdifference : a / w - a / d = a * (d - w) / (w * d) := by field_simp
  rw [hdifference, abs_div, abs_mul, abs_of_pos (mul_pos hw0 hd), div_le_iff₀ (mul_pos hw0 hd),
    abs_sub_comm]
  calc |a| * |w - d| ≤ 2 ^ 11 * (d / 2 ^ 52) := by gcongr
    _ = 1 / 2 ^ 41 * (1 * d) := by ring
    _ ≤ 1 / 2 ^ 41 * (w * d) := by gcongr

/-- One term of the series is rounded twice, the sum in the denominator and the quotient. -/
theorem term_error (hz : z.isFinite = true) (hz0 : 0 ≤ real z) (hi : i.isFinite = true)
    (hk : real i = k) (hk1 : 1 ≤ k) (hk16 : k ≤ 16) (hp : p.isFinite = true)
    (hp11 : |real p| ≤ 2 ^ 11) :
    (p / (z + i)).isFinite = true ∧
      |real (p / (z + i)) - real p / (real z + k)| ≤ 1 / 2 ^ 39 := by
  have hone : (1 : ℝ) ≤ k := by exact_mod_cast hk1
  have hdenominator := rounded_add hz hi
  rw [hk] at hdenominator
  have hfinite : (z + i).isFinite = true := by
    refine isFinite_add_of_small hz hi ?_
    rw [hk, Nat.abs_cast]
    exact_mod_cast hk16
  have hleast : 1 ≤ real (z + i) := by
    have := hdenominator.half_le (h := 2) (by decide) (by push_cast; linarith)
    push_cast at this
    linarith
  have hquotient := rounded_div hp hfinite (by linarith)
  have hsize : |real p / real (z + i)| ≤ 2 ^ 11 := (abs_div_le hleast).trans hp11
  obtain ⟨hquotientFinite, hsecond⟩ := hquotient.error_le (hsize.trans (by norm_num))
  have hfirst : |real p / real (z + i) - real p / (real z + k)| ≤ 1 / 2 ^ 41 :=
    div_close hp11 hleast (by linarith) (hdenominator.error_of_one_le hfinite (by linarith))
  refine ⟨hquotientFinite, (abs_sub_le _ _ _).trans ((add_le_add hsecond hfirst).trans ?_)⟩
  norm_num

/-- Adding a term to the sum so far. -/
theorem step_error (hz : z.isFinite = true) (hz0 : 0 ≤ real z) (hi : i.isFinite = true)
    (hk : real i = k) (hk1 : 1 ≤ k) (hk16 : k ≤ 16) (hp : p.isFinite = true)
    (hp11 : |real p| ≤ 2 ^ 11) (hsum : sum.isFinite = true)
    (hsize : |real sum| + |real p| ≤ 2 ^ 12 - 1) :
    (sum + p / (z + i)).isFinite = true ∧
      |real (sum + p / (z + i)) - (real sum + real p / (real z + k))| ≤ 1 / 2 ^ 38 := by
  obtain ⟨htermFinite, hterm⟩ := term_error hz hz0 hi hk hk1 hk16 hp hp11
  have hone : (1 : ℝ) ≤ k := by exact_mod_cast hk1
  have hexactTerm : |real p / (real z + k)| ≤ |real p| := abs_div_le (by linarith)
  have hroundedTerm : |real (p / (z + i))| ≤ |real p| + 1 := by
    have := abs_sub_abs_le_abs_sub (real (p / (z + i))) (real p / (real z + k))
    have : (1 : ℝ) / 2 ^ 39 ≤ 1 := by norm_num
    linarith
  have htotal := (abs_add_le (real sum) (real (p / (z + i))))
  obtain ⟨hfinite, hrounding⟩ := (rounded_add hsum htermFinite).error_le (by linarith)
  refine ⟨hfinite, ?_⟩
  have hsplit : real (sum + p / (z + i)) - (real sum + real p / (real z + k)) =
      real (sum + p / (z + i)) - (real sum + real (p / (z + i))) +
        (real (p / (z + i)) - real p / (real z + k)) := by ring
  rw [hsplit]
  refine (abs_add_le _ _).trans ((add_le_add hrounding hterm).trans ?_)
  norm_num

/-- The exact terms of the series at `z`, the denominators counted on from `z + k`. -/
noncomputable def terms (z : ℝ) : List ℝ → Nat → ℝ
  | [], _ => 0
  | p :: ps, k => p / (z + k) + terms z ps (k + 1)

/-- The numbers that are added to an argument. -/
theorem summands_grained : signedGrains 1 * (1 : Nat) = 1 * one ∧
    signedGrains 7 * (1 : Nat) = 7 * one ∧ signedGrains 0.5 * (2 : Nat) = 1 * one := by
  decide +kernel

theorem real_one : real 1 = 1 := by
  simpa using real_of_grains Nat.one_pos summands_grained.1

/-- The running index is exact. -/
theorem index_succ (hi : i.isFinite = true) (hk : real i = k) (hk16 : k ≤ 16) :
    (i + 1).isFinite = true ∧ real (i + 1) = (k + 1 : Nat) := by
  have hrounded := rounded_add hi (y := 1) rfl
  rw [hk, real_one] at hrounded
  have hsmall : k + 1 < perBinade := by
    have : 17 < perBinade := by decide
    omega
  have hsize : |(k : ℝ) + 1| ≤ 2 ^ 12 := by
    have : (k : ℝ) ≤ 16 := by exact_mod_cast hk16
    rw [abs_of_nonneg (by positivity)]
    linarith
  exact ⟨(hrounded.error_le hsize).1, hrounded.eq_natural hsmall (Nat.cast_succ k).symm⟩

/-- The error of the series: what each step adds. -/
theorem series_error (hz : z.isFinite = true) (hz0 : 0 ≤ real z) {ps : List Float}
    (hps : ∀ p ∈ ps, p.isFinite = true ∧ |real p| ≤ 2 ^ 11) :
    ∀ {i sum : Float} {k : Nat}, i.isFinite = true → real i = k → 1 ≤ k → k + ps.length ≤ 17 →
      sum.isFinite = true →
      |real sum| + (ps.map fun p => |real p|).sum + ps.length ≤ 2 ^ 12 - 1 →
      (series z ps i sum).isFinite = true ∧
        |real (series z ps i sum) - (real sum + terms (real z) (ps.map real) k)| ≤
          ps.length / 2 ^ 38 := by
  induction ps with
  | nil =>
    intro i sum k _ _ _ _ hsum _
    refine ⟨hsum, ?_⟩
    simp [series, terms]
  | cons p ps ih =>
    intro i sum k hi hk hk1 hk16 hsum hsize
    rw [List.map_cons, List.sum_cons, List.length_cons] at hsize
    rw [List.length_cons] at hk16
    push_cast at hsize
    obtain ⟨hp, hp11⟩ := hps p (List.mem_cons_self ..)
    have hrest : 0 ≤ (ps.map fun p => |real p|).sum := by
      refine List.sum_nonneg fun a ha => ?_
      obtain ⟨q, -, rfl⟩ := List.mem_map.mp ha
      exact abs_nonneg _
    have hlength : (0 : ℝ) ≤ ps.length := Nat.cast_nonneg _
    obtain ⟨hfinite, hstep⟩ := step_error hz hz0 hi hk hk1 (by omega) hp hp11 hsum (by linarith)
    obtain ⟨hindexFinite, hindex⟩ := index_succ hi hk (by omega)
    have hnextSize : |real (sum + p / (z + i))| ≤ |real sum| + |real p| + 1 := by
      have hone : (1 : ℝ) ≤ k := by exact_mod_cast hk1
      have := abs_add_le (real sum) (real p / (real z + k))
      have := abs_div_le (a := real p) (by linarith : 1 ≤ real z + k)
      have := abs_sub_abs_le_abs_sub (real (sum + p / (z + i)))
        (real sum + real p / (real z + k))
      have : (1 : ℝ) / 2 ^ 38 ≤ 1 := by norm_num
      linarith
    obtain ⟨hseriesFinite, htail⟩ := ih (fun q hq => hps q (List.mem_cons_of_mem p hq))
      hindexFinite hindex (by omega) (by omega) hfinite (by linarith)
    refine ⟨hseriesFinite, ?_⟩
    rw [List.map_cons, List.length_cons, series, terms]
    have hsplit : real (series z ps (i + 1) (sum + p / (z + i))) - (real sum +
        (real p / (real z + k) + terms (real z) (ps.map real) (k + 1))) =
        real (series z ps (i + 1) (sum + p / (z + i))) - (real (sum + p / (z + i)) +
          terms (real z) (ps.map real) (k + 1)) +
        (real (sum + p / (z + i)) - (real sum + real p / (real z + k))) := by ring
    rw [hsplit]
    refine (abs_add_le _ _).trans ((add_le_add htail hstep).trans (le_of_eq ?_))
    push_cast
    ring

/-! ## The exact series -/

/-- Coefficients that are near give terms that are near. -/
theorem terms_close {a e : ℝ} (ha : 0 ≤ a) {ps qs : List ℝ}
    (h : List.Forall₂ (fun p q => |p - q| ≤ e) ps qs) :
    ∀ {k : Nat}, 1 ≤ k → |terms a ps k - terms a qs k| ≤ ps.length * e := by
  induction h with
  | nil => simp [terms]
  | @cons p q ps qs hnear _ ih =>
    intro k hk
    have hone : (1 : ℝ) ≤ a + k := by
      have : (1 : ℝ) ≤ k := by exact_mod_cast hk
      linarith
    have hhead := (abs_div_le (a := p - q) hone).trans hnear
    have hsplit : terms a (p :: ps) k - terms a (q :: qs) k =
        (p - q) / (a + k) + (terms a ps (k + 1) - terms a qs (k + 1)) := by
      rw [terms, terms, sub_div]
      ring
    rw [hsplit, List.length_cons]
    refine (abs_add_le _ _).trans ((add_le_add hhead (ih (by omega))).trans (le_of_eq ?_))
    push_cast
    ring

/-- The coefficients, in tenths. -/
def tenths : List Int := [6765, -12591, 7713, -1766, 125, -1, 0, 0]

/-- The size of the coefficients, and how near they are to tenths. -/
theorem coefficients_grained :
    (∀ p ∈ coefficients, p.isFinite = true ∧ grains (ofFloat p) ≤ 2 ^ 11 * one) ∧
      (coefficients.map fun p => grains (ofFloat p)).sum ≤ 3000 * one ∧
      List.Forall₂ (fun p q => 5 * |10 * signedGrains p - q * one| ≤ 2 * one)
        (constant :: coefficients) (10 :: tenths) := by
  decide +kernel

/-- The rational function that the exact series is near to, in its lowest terms. -/
theorem terms_tenths {a : ℝ} (ha : 0 ≤ a) :
    1 ≤ 1 + terms a (tenths.map fun q : Int => (q : ℝ) / 10) 1 ∧
      1 + terms a (tenths.map fun q : Int => (q : ℝ) / 10) 1 ≤ 300 := by
  have hexpanded : 1 + terms a (tenths.map fun q : Int => (q : ℝ) / 10) 1 =
      (189636 + 1500512 / 10 * a + 494838 / 10 * a ^ 2 + 87059 / 10 * a ^ 3 + 8618 / 10 * a ^ 4 +
        455 / 10 * a ^ 5 + a ^ 6) /
      ((a + 1) * (a + 2) * (a + 3) * (a + 4) * (a + 5) * (a + 6)) := by
    simp only [tenths, List.map_cons, List.map_nil, terms]
    push_cast
    have (k : ℝ) (hk : 0 < k) : a + k ≠ 0 := by positivity
    field_simp
    ring
  have hpositive : 0 < (a + 1) * (a + 2) * (a + 3) * (a + 4) * (a + 5) * (a + 6) := by positivity
  rw [hexpanded, le_div_iff₀ hpositive, div_le_iff₀ hpositive]
  constructor
  · have hdifference : 0 ≤ 188916 + 1482872 / 10 * a + 478598 / 10 * a ^ 2 + 79709 / 10 * a ^ 3 +
        6868 / 10 * a ^ 4 + 245 / 10 * a ^ 5 := by positivity
    linarith only [hdifference]
  · have hdifference : 0 ≤ 26364 + 3791488 / 10 * a + 4377162 / 10 * a ^ 2 +
        2117941 / 10 * a ^ 3 + 516382 / 10 * a ^ 4 + 62545 / 10 * a ^ 5 + 299 * a ^ 6 := by
      positivity
    linarith only [hdifference]

/-- A list of doubles near a list of tenths is near it as a list of real numbers. -/
theorem near_of_grains {ps : List Float} {qs : List Int}
    (h : List.Forall₂ (fun p q => 5 * |10 * signedGrains p - q * one| ≤ 2 * one) ps qs) :
    List.Forall₂ (fun p q => |p - q| ≤ 1 / 25) (ps.map real)
      (qs.map fun q : Int => (q : ℝ) / 10) := by
  rw [List.forall₂_map_left_iff, List.forall₂_map_right_iff]
  refine h.imp fun p q hnear => ?_
  have hnear : 5 * |10 * (signedGrains p : ℝ) - q * scale| ≤ 2 * scale := by
    rw [scale]
    exact_mod_cast hnear
  have hscale := scale_pos
  have hdifference : real p - q / 10 = (10 * signedGrains p - q * scale) / (10 * scale) := by
    rw [real]
    field_simp
  rw [hdifference]
  generalize scale = o at *
  have hpositive : 0 < 10 * o := by positivity
  rw [abs_div, abs_of_pos hpositive, div_le_iff₀ hpositive]
  linarith

theorem sum_abs_real (ps : List Float) : (ps.map fun p => |real p|).sum =
    (ps.map fun p => grains (ofFloat p)).sum / scale := by
  induction ps with
  | nil => simp
  | cons p ps ih =>
    rw [List.map_cons, List.sum_cons, List.map_cons, List.sum_cons, ih, abs_real, Nat.cast_add,
      add_div]

theorem sum_coefficients : (coefficients.map fun p => |real p|).sum ≤ 3000 := by
  rw [sum_abs_real, div_le_iff₀ scale_pos, scale]
  exact_mod_cast coefficients_grained.2.1

theorem coefficients_spec : ∀ p ∈ coefficients, p.isFinite = true ∧ |real p| ≤ 2 ^ 11 := by
  intro p hp
  obtain ⟨hfinite, hsize⟩ := coefficients_grained.1 p hp
  refine ⟨hfinite, ?_⟩
  rw [abs_real, div_le_iff₀ scale_pos, scale]
  exact_mod_cast hsize

/-- The constant is near to one, and the coefficients are near to their tenths. -/
theorem near_tenths : |real constant - 1| ≤ 1 / 25 ∧
    List.Forall₂ (fun p q => |p - q| ≤ 1 / 25) (coefficients.map real)
      (tenths.map fun q : Int => (q : ℝ) / 10) := by
  obtain ⟨hhead, htail⟩ := List.forall₂_cons.mp (near_of_grains coefficients_grained.2.2)
  have hten : ((10 : Int) : ℝ) / 10 = 1 := by norm_num
  exact ⟨hten ▸ hhead, htail⟩

/-- The series is finite and above zero for all arguments that are not negative. -/
theorem series_bounds (hz : z.isFinite = true) (hz0 : 0 ≤ real z) :
    (series z coefficients 1 constant).isFinite = true ∧
      1 / 2 ≤ real (series z coefficients 1 constant) ∧
      real (series z coefficients 1 constant) ≤ 301 := by
  obtain ⟨hconstantNear, hcoefficientsNear⟩ := near_tenths
  have hconstant := abs_le.mp hconstantNear
  have htotal := sum_coefficients
  have hlength : (coefficients.length : ℝ) = 8 := by
    rw [show coefficients.length = 8 from rfl, Nat.cast_ofNat]
  have hsize : |real constant| + (coefficients.map fun p => |real p|).sum + coefficients.length ≤
      2 ^ 12 - 1 := by
    have : |real constant| ≤ 2 := abs_le.mpr ⟨by linarith, by linarith⟩
    linarith
  have hone : real 1 = (1 : Nat) := by rw [real_one, Nat.cast_one]
  obtain ⟨hfinite, hrounding⟩ := series_error hz hz0 coefficients_spec rfl hone le_rfl (by decide)
    rfl hsize
  have hnear := terms_close hz0 hcoefficientsNear le_rfl (k := 1)
  rw [List.length_map] at hnear
  rw [hlength] at hnear hrounding
  have hrounding := abs_le.mp hrounding
  have hnear := abs_le.mp hnear
  obtain ⟨hlow, hhigh⟩ := terms_tenths hz0
  exact ⟨hfinite, by linarith, by linarith⟩

end PocketCalculator.Gamma
