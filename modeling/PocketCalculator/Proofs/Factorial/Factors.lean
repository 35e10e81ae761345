import PocketCalculator.Proofs.Factorial.Series
import PocketCalculator.Proofs.Number.RealFunctions

/-!
# The factors of Lanczos' product

Of the three factors one grows with the argument (`growth`) and one vanishes (`decay`), and the
series is between one half and about three hundred.  The first one is infinite from an argument
between 141 and 142 on, although the product would not be, and the second one is zero from an
argument between 736 and 738 on.

* `growth_finite`, `growth_infinite`, `decay_pos`, `decay_zero`: where this happens.
* `lanczos_cases`: what becomes of the product.
-/

namespace PocketCalculator.Gamma

open Magnitude

/-- The first two factors of Lanczos' product. -/
def growth (lib : Elementary) (z : Float) : Float :=
  Float.sqrt (2 * pi) * lib.pow (z + 7 + 0.5) (z + 0.5)

/-- The third factor of Lanczos' product. -/
def decay (lib : Elementary) (z : Float) : Float := lib.exp (-(z + 7 + 0.5))

theorem lanczos_eq (lib : Elementary) (w : Float) :
    lanczos lib w =
      growth lib (w - 1) * decay lib (w - 1) * series (w - 1) coefficients 1 constant := rfl

/-! ## Real bounds -/

/-- The largest power that is taken up to 141. -/
theorem power_le {t b : ℝ} (ht : 1 ≤ t) (ht' : t ≤ 297 / 2) (hb : 0 ≤ b) (hb' : b ≤ 283 / 2) :
    t ^ b ≤ 2 ^ 1021 := by
  have hroot : (297 / 2 : ℝ) ^ (1 / 2 : ℝ) ≤ 49 / 4 := by
    rw [← Real.sqrt_eq_rpow]
    exact Real.sqrt_le_iff.mpr ⟨by norm_num, by norm_num⟩
  have hwhole : (297 : ℝ) ^ 141 * 49 ≤ 2 ^ 1021 * (2 ^ 141 * 4) := by
    have hcount : 297 ^ 141 * 49 ≤ 2 ^ 1021 * (2 ^ 141 * 4) := by decide +kernel
    exact_mod_cast hcount
  calc t ^ b ≤ (297 / 2) ^ b := Real.rpow_le_rpow (by linarith) ht' hb
    _ ≤ (297 / 2) ^ (283 / 2 : ℝ) := Real.rpow_le_rpow_of_exponent_le (by norm_num) hb'
    _ = (297 / 2) ^ 141 * (297 / 2) ^ (1 / 2 : ℝ) := by
      rw [← Real.rpow_natCast, ← Real.rpow_add (by norm_num)]
      norm_num
    _ ≤ (297 / 2) ^ 141 * (49 / 4) := by gcongr
    _ = 297 ^ 141 * 49 / (2 ^ 141 * 4) := by rw [div_pow, div_mul_div_comm]
    _ ≤ 2 ^ 1021 := (div_le_iff₀ (by positivity)).mpr hwhole

/-- The smallest power that is taken from 142 on. -/
theorem le_power {t b : ℝ} (ht : 299 / 2 ≤ t) (hb : 285 / 2 ≤ b) : 2 ^ 1024 ≤ t ^ b := by
  have hwhole : (2 : ℝ) ^ 1024 * 2 ^ 142 ≤ 299 ^ 142 := by
    have hcount : 2 ^ 1024 * 2 ^ 142 ≤ 299 ^ 142 := by decide +kernel
    exact_mod_cast hcount
  calc (2 : ℝ) ^ 1024 ≤ 299 ^ 142 / 2 ^ 142 := (le_div_iff₀ (by positivity)).mpr hwhole
    _ = (299 / 2) ^ (142 : ℝ) := by
      rw [← div_pow, ← Real.rpow_natCast]
      norm_num
    _ ≤ (299 / 2) ^ b := Real.rpow_le_rpow_of_exponent_le (by norm_num) (by linarith)
    _ ≤ t ^ b := Real.rpow_le_rpow (by norm_num) ht (by linarith)

theorem exp_neg_le {t : ℝ} (ht : 15 / 2 ≤ t) : Real.exp (-t) ≤ 1 / 2 ^ 10 := by
  have hlarge : 2 ^ 10 ≤ Real.exp t := by
    have hbase : 27 / 10 ≤ Real.exp 1 := by linarith [Real.exp_one_gt_d9]
    calc (2 : ℝ) ^ 10 ≤ (27 / 10) ^ 7 := by norm_num
      _ ≤ Real.exp 1 ^ 7 := by gcongr
      _ = Real.exp 7 := by rw [← Real.exp_nat_mul]; norm_num
      _ ≤ Real.exp t := Real.exp_le_exp.mpr (by linarith)
  rw [Real.exp_neg, ← one_div]
  exact one_div_le_one_div_of_le (by positivity) hlarge

theorem exp_neg_lt_large {t : ℝ} (ht : 0 ≤ t) : Real.exp (-t) < 2 ^ 1023 := by
  calc Real.exp (-t) ≤ 1 := Real.exp_le_one_iff.mpr (by linarith)
    _ < 2 ^ 1023 := one_lt_pow₀ one_lt_two (by decide)

/-- Up to 736 the exponential is not below the smallest double. -/
theorem le_exp_neg {t : ℝ} (ht : t ≤ 1487 / 2) : 1 / 2 ^ 1074 ≤ Real.exp (-t) := by
  have hpower : (2 : ℝ) ^ 1074 = Real.exp (1074 * Real.log 2) := by
    rw [mul_comm, Real.exp_mul, Real.exp_log two_pos, ← Real.rpow_natCast]
    norm_num
  rw [one_div, hpower, ← Real.exp_neg, Real.exp_le_exp]
  linarith [Real.log_two_gt_d9]

/-- From 738 on it is below half of the smallest double. -/
theorem exp_neg_lt {t : ℝ} (ht : 1491 / 2 ≤ t) : Real.exp (-t) < 1 / 2 ^ 1075 := by
  have hpower : (2 : ℝ) ^ 1075 = Real.exp (1075 * Real.log 2) := by
    rw [mul_comm, Real.exp_mul, Real.exp_log two_pos, ← Real.rpow_natCast]
    norm_num
  rw [one_div, hpower, ← Real.exp_neg, Real.exp_lt_exp]
  linarith [Real.log_two_lt_d9]

/-! ## The arguments of the factors -/

section

variable {x : Float} {h : Nat}

theorem real_seven : real 7 = 7 := by
  simpa using real_of_grains Nat.one_pos summands_grained.2.1

theorem real_half : real 0.5 = 1 / 2 := by
  simpa using real_of_grains Nat.two_pos summands_grained.2.2

/-- A sum with a number of halves has its place among the halves, although it is rounded. -/
theorem add_halves {c : Float} {m : Nat} (hx : x.isFinite = true) (hc : c.isFinite = true)
    (hm : real c = m / 2) (hm32 : m ≤ 32) :
    (x + c).isFinite = true ∧ ∀ h : Nat, h ≤ 2 ^ 12 →
      (h / 2 ≤ real x → (h + m) / 2 ≤ real (x + c)) ∧
      (real x ≤ h / 2 → real (x + c) ≤ (h + m) / 2) := by
  have hsmall : |real c| ≤ 16 := by
    have : (m : ℝ) ≤ 32 := by exact_mod_cast hm32
    rw [hm, abs_of_nonneg (by positivity)]
    linarith
  refine ⟨isFinite_add_of_small hx hc hsmall, fun h hh => ?_⟩
  have hplace : h + m < 2 * perBinade := by
    rw [perBinade_eq]
    omega
  have hsum := rounded_add hx hc
  rw [hm] at hsum
  have hcast : ((h + m : Nat) : ℝ) = h + m := Nat.cast_add h m
  rw [← hcast]
  exact ⟨fun hlow => hsum.half_le hplace (by rw [hcast]; linarith),
    fun hhigh => hsum.le_half hplace (by rw [hcast]; linarith)⟩

/-- The argument of the product is the one of the factorial, after one was added and taken away. -/
theorem shifted_spec (hx : x.isFinite = true) (hx0 : 0 ≤ real x) :
    (x + 1 - 1).isFinite = true ∧ ∀ n : Nat, n ≤ 2 ^ 11 →
      (n ≤ real x → n ≤ real (x + 1 - 1)) ∧ (real x ≤ n → real (x + 1 - 1) ≤ n) := by
  have hsum := rounded_add hx (y := 1) rfl
  have hfinite : (x + 1).isFinite = true :=
    isFinite_add_of_small hx rfl (by rw [real_one]; norm_num)
  rw [real_one] at hsum
  have hleast : 1 ≤ real (x + 1) := by
    simpa using hsum.natural_le (h := 1) (by decide) (by push_cast; linarith)
  have hdifference := rounded_sub hfinite (y := 1) rfl
  rw [real_one] at hdifference
  refine ⟨hdifference.isFinite hfinite ?_, fun n hn => ?_⟩
  · rw [abs_of_nonneg (by linarith), abs_of_nonneg (by linarith)]
    linarith
  · have hinside : n + 1 < perBinade := by
      rw [perBinade_eq]
      omega
    constructor
    · intro hlow
      have := hsum.natural_le hinside (by push_cast; linarith)
      push_cast at this
      exact hdifference.natural_le (by omega) (by linarith)
    · intro hhigh
      have := hsum.le_natural hinside (by push_cast; linarith)
      push_cast at this
      exact hdifference.le_natural (by omega) (by linarith)

/-- The base and the exponent of the power. -/
theorem arguments_spec {z : Float} (hz : z.isFinite = true) :
    (z + 7 + 0.5).isFinite = true ∧ (z + 0.5).isFinite = true ∧ ∀ h : Nat, h ≤ 2 ^ 11 →
      (h / 2 ≤ real z → (h + 15) / 2 ≤ real (z + 7 + 0.5) ∧ (h + 1) / 2 ≤ real (z + 0.5)) ∧
      (real z ≤ h / 2 → real (z + 7 + 0.5) ≤ (h + 15) / 2 ∧ real (z + 0.5) ≤ (h + 1) / 2) := by
  have hseven : real 7 = (14 : Nat) / 2 := by rw [real_seven]; norm_num
  have hhalf : real 0.5 = (1 : Nat) / 2 := by rw [real_half]; norm_num
  obtain ⟨hmiddleFinite, hmiddleOf⟩ := add_halves hz rfl hseven (by decide)
  obtain ⟨hbaseFinite, hbaseOf⟩ := add_halves hmiddleFinite rfl hhalf (by decide)
  obtain ⟨hexponentFinite, hexponentOf⟩ := add_halves hz rfl hhalf (by decide)
  refine ⟨hbaseFinite, hexponentFinite, fun h hh => ?_⟩
  have hbase := hbaseOf (h + 14) (by omega)
  have hmiddle := hmiddleOf h (by omega)
  have hexponent := hexponentOf h (by omega)
  push_cast at hbase hmiddle hexponent
  refine ⟨fun hlow => ⟨?_, hexponent.1 hlow⟩, fun hhigh => ⟨?_, hexponent.2 hhigh⟩⟩
  · linarith [hbase.1 (hmiddle.1 hlow)]
  · linarith [hbase.2 (hmiddle.2 hhigh)]

end

/-! ## The factors -/

section

variable {lib : Elementary} {z : Float}

theorem root_spec : (Float.sqrt (2 * pi)).isFinite = true ∧ 1 ≤ real (Float.sqrt (2 * pi)) ∧
    real (Float.sqrt (2 * pi)) ≤ 3 := by
  have hgrained : one ≤ signedGrains (Float.sqrt (2 * pi)) ∧
      signedGrains (Float.sqrt (2 * pi)) ≤ 3 * one := by
    decide +kernel
  have hlow : scale ≤ signedGrains (Float.sqrt (2 * pi)) := by
    rw [scale]
    exact_mod_cast hgrained.1
  have hhigh : signedGrains (Float.sqrt (2 * pi)) ≤ 3 * scale := by
    rw [scale]
    exact_mod_cast hgrained.2
  refine ⟨by decide +kernel, ?_, ?_⟩
  · rwa [real, one_le_div scale_pos]
  · rwa [real, div_le_iff₀ scale_pos]

/-- The arguments of a factor that the machine is asked for. -/
theorem approximates_pow (hlib : lib.Accurate) (hz : z.isFinite = true) (hz0 : 0 ≤ real z) :
    Approximates (lib.pow (z + 7 + 0.5) (z + 0.5)) (real (z + 7 + 0.5) ^ real (z + 0.5)) := by
  obtain ⟨hbase, hexponent, hplace⟩ := arguments_spec hz
  have hleast := ((hplace 0 (by decide)).1 (by simpa using hz0)).1
  exact hlib.pow _ _ hbase hexponent (by push_cast at hleast; linarith)

theorem approximates_decay (hlib : lib.Accurate) (hz : z.isFinite = true) :
    Approximates (decay lib z) (Real.exp (-real (z + 7 + 0.5))) := by
  obtain ⟨hbase, -, -⟩ := arguments_spec hz
  obtain ⟨hfinite, hopposite⟩ := real_neg hbase
  rw [← hopposite]
  exact hlib.exp _ hfinite

/-- The growing factor is a number without a minus. -/
theorem growth_cases (hlib : lib.Accurate) (hz : z.isFinite = true) (hz0 : 0 ≤ real z) :
    (growth lib z).isFinite = true ∧ 0 ≤ real (growth lib z) ∨ growth lib z = Float.inf := by
  obtain ⟨hroot, hleast, -⟩ := root_spec
  have hpower := approximates_pow hlib hz hz0
  rw [growth]
  generalize lib.pow (z + 7 + 0.5) (z + 0.5) = v at *
  cases hv : v.isFinite with
  | false =>
    obtain rfl := eq_inf hv hpower.number hpower.positive
    exact .inr (inf_mul hroot (signedGrains_pos (by linarith))).2
  | true =>
    have hrounded := rounded_mul hroot hv
    have hnonneg : 0 ≤ real (Float.sqrt (2 * pi)) * real v :=
      mul_nonneg (by linarith) (real_nonneg hpower.positive)
    cases hproduct : (Float.sqrt (2 * pi) * v).isFinite with
    | true => exact .inl ⟨rfl, hrounded.real_nonneg hnonneg⟩
    | false =>
      right
      obtain hzero | hpositive := hnonneg.eq_or_lt
      · have hfinite := hrounded.isFinite_of_abs_le (by rw [← hzero, abs_zero]; positivity)
        rw [hfinite] at hproduct
        cases hproduct
      · exact eq_inf hproduct hrounded.isNaN (hrounded.isNegative_of_pos hpositive)

/-- The vanishing factor is small from the first argument on. -/
theorem decay_bounds (hlib : lib.Accurate) (hz : z.isFinite = true) (hz0 : 0 ≤ real z) :
    (decay lib z).isFinite = true ∧ 0 ≤ real (decay lib z) ∧ real (decay lib z) ≤ 1 / 2 ^ 9 := by
  obtain ⟨-, -, hplace⟩ := arguments_spec hz
  obtain ⟨hleast, -⟩ := (hplace 0 (by decide)).1 (by simpa using hz0)
  push_cast at hleast
  have hsmall := exp_neg_le (by linarith : 15 / 2 ≤ real (z + 7 + 0.5))
  have hexponential := approximates_decay hlib hz
  obtain ⟨hfinite, habove⟩ := hexponential.above (exp_neg_lt_large (by linarith))
  refine ⟨hfinite, real_nonneg hexponential.positive, habove.trans ?_⟩
  calc 2 * Real.exp (-real (z + 7 + 0.5)) ≤ 2 * (1 / 2 ^ 10) := by gcongr
    _ = 1 / 2 ^ 9 := by norm_num

/-! ## Where the factors leave the doubles -/

theorem growth_finite (hlib : lib.Accurate) (hz : z.isFinite = true) (hz0 : 0 ≤ real z)
    (h : real z ≤ 141) : (growth lib z).isFinite = true := by
  obtain ⟨hroot, hleast, hmost⟩ := root_spec
  obtain ⟨-, -, hplace⟩ := arguments_spec hz
  obtain ⟨hbaseLeast, hexponentLeast⟩ := (hplace 0 (by decide)).1 (by simpa using hz0)
  obtain ⟨hbaseMost, hexponentMost⟩ := (hplace 282 (by decide)).2 (by push_cast; linarith)
  push_cast at hbaseLeast hexponentLeast hbaseMost hexponentMost
  have hpower := approximates_pow hlib hz hz0
  have hsize : real (z + 7 + 0.5) ^ real (z + 0.5) ≤ 2 ^ 1021 :=
    power_le (by linarith) (by linarith) (by linarith) (by linarith)
  have hsmall : (2 : ℝ) ^ 1021 < 2 ^ 1023 := pow_lt_pow_right₀ one_lt_two (by decide)
  obtain ⟨hfinite, habove⟩ := hpower.above (hsize.trans_lt hsmall)
  have hnonneg := real_nonneg hpower.positive
  refine (rounded_mul hroot hfinite).isFinite_of_abs_le ?_
  rw [abs_of_nonneg (mul_nonneg (by linarith) hnonneg)]
  calc real (Float.sqrt (2 * pi)) * real (lib.pow (z + 7 + 0.5) (z + 0.5))
      ≤ 3 * (2 * 2 ^ 1021) := by gcongr; linarith
    _ = 3 * 2 ^ 1022 := congrArg (3 * ·) (pow_succ' (2 : ℝ) 1021).symm

theorem growth_infinite (hlib : lib.Accurate) (hz : z.isFinite = true) (h : 142 ≤ real z) :
    growth lib z = Float.inf := by
  obtain ⟨hroot, hleast, -⟩ := root_spec
  obtain ⟨-, -, hplace⟩ := arguments_spec hz
  obtain ⟨hbase, hexponent⟩ := (hplace 284 (by decide)).1 (by push_cast; linarith)
  push_cast at hbase hexponent
  have hpower := approximates_pow hlib hz (by linarith)
  have hinfinite := hpower.overflows (le_power (by linarith) (by linarith))
  rw [growth, hinfinite]
  exact (inf_mul hroot (signedGrains_pos (by linarith))).2

theorem decay_pos (hlib : lib.Accurate) (hz : z.isFinite = true) (hz0 : 0 ≤ real z)
    (h : real z ≤ 736) : 0 < real (decay lib z) := by
  obtain ⟨-, -, hplace⟩ := arguments_spec hz
  obtain ⟨hleast, -⟩ := (hplace 0 (by decide)).1 (by simpa using hz0)
  obtain ⟨hmost, -⟩ := (hplace 1472 (by decide)).2 (by push_cast; linarith)
  push_cast at hleast hmost
  have hbelow := (approximates_decay hlib hz).below (le_exp_neg (by linarith))
    (exp_neg_lt_large (by linarith))
  linarith [Real.exp_pos (-real (z + 7 + 0.5))]

theorem decay_zero (hlib : lib.Accurate) (hz : z.isFinite = true) (h : 738 ≤ real z) :
    decay lib z = 0 := by
  obtain ⟨-, -, hplace⟩ := arguments_spec hz
  obtain ⟨hbase, -⟩ := (hplace 1476 (by decide)).1 (by push_cast; linarith)
  push_cast at hbase
  exact (approximates_decay hlib hz).underflows (exp_neg_lt (by linarith))

/-! ## The product -/

theorem product_finite {g d s : Float} (hg : g.isFinite = true) (hg0 : 0 ≤ real g)
    (hd : d.isFinite = true) (hd0 : 0 ≤ real d) (hd9 : real d ≤ 1 / 2 ^ 9)
    (hs : s.isFinite = true) (hs0 : 0 ≤ real s) (hs301 : real s ≤ 301) :
    (g * d * s).isFinite = true := by
  have hfirst := rounded_mul hg hd
  have hfirstNonneg : 0 ≤ real g * real d := mul_nonneg hg0 hd0
  obtain ⟨bound, hboundFinite, hbound⟩ := exists_double (h := 1 * 2 ^ 44) (c := 2045) (by decide)
    (by decide) (by decide)
  have hpower : real bound = 2 ^ 1015 := by
    have hsplit : (2 : ℝ) ^ 44 * 2 ^ 2045 = 2 ^ 1015 * 2 ^ 1074 := by rw [← pow_add, ← pow_add]
    rw [hbound, Nat.one_mul, Nat.cast_pow, Nat.cast_ofNat, hsplit,
      mul_div_cancel_right₀ _ (by positivity)]
  have hsize : real g * real d ≤ real bound := by
    have hlargest := (abs_real_lt hg).le
    rw [abs_of_nonneg hg0] at hlargest
    rw [hpower]
    calc real g * real d ≤ 2 ^ 1024 * (1 / 2 ^ 9) := by gcongr
      _ = 2 ^ 1015 := by
        rw [mul_one_div, div_eq_iff (by positivity), ← pow_add]
  have hfirstFinite := hfirst.isFinite hboundFinite (abs_le_abs_of_nonneg hfirstNonneg hsize)
  have hfirstLe := hfirst.le (rounded_itself hboundFinite) hsize
  have hfirstNonneg := hfirst.real_nonneg hfirstNonneg
  refine (rounded_mul hfirstFinite hs).isFinite_of_abs_le ?_
  rw [abs_of_nonneg (mul_nonneg hfirstNonneg hs0)]
  rw [hpower] at hfirstLe
  calc real (g * d) * real s ≤ 2 ^ 1015 * 301 := by gcongr
    _ ≤ 2 ^ 1015 * (3 * 2 ^ 7) := by gcongr; norm_num
    _ = 3 * 2 ^ 1022 := by rw [mul_left_comm, ← pow_add]

/-- What becomes of Lanczos' product: it is infinite if the growing factor is, and no number if
the vanishing factor is zero beside it. -/
theorem lanczos_cases (hlib : lib.Accurate) {x : Float} (hx : x.isFinite = true)
    (hx0 : 0 ≤ real x) :
    let z := x + 1 - 1
    ((growth lib z).isFinite = true ∧ (lanczos lib (x + 1)).isFinite = true) ∨
    (growth lib z = Float.inf ∧ (decay lib z == 0) = false ∧
      lanczos lib (x + 1) = Float.inf) ∨
    (growth lib z = Float.inf ∧ (decay lib z == 0) = true ∧
      lanczos lib (x + 1) = Float.nan) := by
  intro z
  obtain ⟨hz, hplace⟩ := shifted_spec hx hx0
  have hz0 : 0 ≤ real z := by simpa using (hplace 0 (by decide)).1 (by simpa using hx0)
  obtain ⟨hseriesFinite, hseriesLeast, hseriesMost⟩ := series_bounds hz hz0
  obtain ⟨hdecayFinite, hdecayNonneg, hdecayMost⟩ := decay_bounds hlib hz hz0
  rw [lanczos_eq]
  obtain ⟨hfinite, hnonneg⟩ | hinfinite := growth_cases hlib hz hz0
  · left
    exact ⟨hfinite, product_finite hfinite hnonneg hdecayFinite hdecayNonneg hdecayMost
      hseriesFinite (by linarith) hseriesMost⟩
  · right
    have hpositive := signedGrains_pos (by linarith : 0 < real (series z coefficients 1 constant))
    rw [hinfinite]
    cases hzero : decay lib z == 0 with
    | true =>
      right
      rw [inf_mul_zero hzero]
      exact ⟨rfl, rfl, (mul_nan _).1⟩
    | false =>
      left
      have hdecayPositive := hdecayNonneg.lt_of_ne (real_ne_zero hzero).symm
      rw [(inf_mul hdecayFinite (signedGrains_pos hdecayPositive)).1]
      exact ⟨rfl, rfl, (inf_mul hseriesFinite hpositive).1⟩

end

end PocketCalculator.Gamma
