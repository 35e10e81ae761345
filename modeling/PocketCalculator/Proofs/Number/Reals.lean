import PocketCalculator.Proofs.Number.Order

/-!
# Doubles as real numbers

A finite double is a real number (`real`).  `Rounded` says that a double is what a real number is
rounded to, and the operations on doubles round what the operations on real numbers give.

* `Rounded.le`: rounding keeps the order.
* `Rounded.isFinite`: what is not larger than a finite double is rounded to a finite double.
* `Rounded.error`: how far rounding goes.
-/

namespace PocketCalculator.Magnitude

variable {x y : Float} {r s : ℝ}

/-- How many grains there are in one, as a real number. -/
noncomputable def scale : ℝ := one

theorem scale_pos : 0 < scale := Nat.cast_pos.mpr pos_one

/-- The real number that a finite double is. -/
noncomputable def real (x : Float) : ℝ := signedGrains x / scale

theorem le_iff (hx : x.isFinite = true) (hy : y.isFinite = true) : x ≤ y ↔ real x ≤ real y := by
  rw [le_iff_grains hx hy, real, real, div_le_div_iff_of_pos_right scale_pos, Int.cast_le]

theorem lt_iff (hx : x.isFinite = true) (hy : y.isFinite = true) : x < y ↔ real x < real y := by
  rw [lt_iff_grains hx hy, real, real, div_lt_div_iff_of_pos_right scale_pos, Int.cast_lt]

/-- A double in grains, as a real number. -/
theorem abs_real (x : Float) : |real x| = grains (ofFloat x) / scale := by
  rw [real, abs_div, abs_of_pos scale_pos, signedGrains]
  split
  · push_cast
    rw [abs_neg, Nat.abs_cast]
  · push_cast
    rw [Nat.abs_cast]

theorem signedGrains_pos (h : 0 < real x) : 0 < signedGrains x := by
  rw [real, div_pos_iff_of_pos_right scale_pos] at h
  exact Int.cast_pos.mp h

/-- What is not equal to zero is not zero as a real number. -/
theorem real_ne_zero (hx : (x == 0) = false) : real x ≠ 0 := by
  have hpositive : 0 < grains (ofFloat x) := grains_pos (Nat.pos_of_ne_zero (ofFloat_ne_zero hx))
  rw [← abs_pos, abs_real]
  exact div_pos (Nat.cast_pos.mpr hpositive) scale_pos

theorem real_nonneg (hx : isNegative x = false) : 0 ≤ real x := by
  rw [real, signedGrains, hx, if_neg Bool.false_ne_true]
  exact div_nonneg (by simp) scale_pos.le

theorem real_nonpos (hx : isNegative x = true) : real x ≤ 0 := by
  rw [real, signedGrains, hx, if_pos rfl]
  push_cast
  exact div_nonpos_of_nonpos_of_nonneg (by simp) scale_pos.le

/-! ## Rounding -/

/-- Whether a double is what a real number is rounded to: the real number is a quotient of grains
that is. -/
def Rounded (x : Float) (r : ℝ) : Prop :=
  ∃ (z : Int) (den : Nat), 0 < den ∧ z = r * (den * scale) ∧ RoundsTo x z den

theorem real_mul_scale (x : Float) : real x * scale = signedGrains x :=
  div_mul_cancel₀ _ scale_pos.ne'

theorem rounded_itself (hx : x.isFinite = true) : Rounded x (real x) :=
  ⟨_, 1, Nat.one_pos, by rw [Nat.cast_one, one_mul, real_mul_scale], roundsTo_itself hx⟩

theorem rounded_neg (hx : x.isFinite = true) : Rounded (-x) (-real x) := by
  refine ⟨_, 1, Nat.one_pos, ?_, roundsTo_neg hx⟩
  rw [Nat.cast_one, one_mul, neg_mul, real_mul_scale, Int.cast_neg]

theorem rounded_add (hx : x.isFinite = true) (hy : y.isFinite = true) :
    Rounded (x + y) (real x + real y) := by
  refine ⟨_, 1, Nat.one_pos, ?_, roundsTo_add hx hy⟩
  rw [Nat.cast_one, one_mul, add_mul, real_mul_scale, real_mul_scale, Int.cast_add]

theorem rounded_sub (hx : x.isFinite = true) (hy : y.isFinite = true) :
    Rounded (x - y) (real x - real y) := by
  refine ⟨_, 1, Nat.one_pos, ?_, roundsTo_sub hx hy⟩
  rw [Nat.cast_one, one_mul, sub_mul, real_mul_scale, real_mul_scale, Int.cast_sub]

theorem rounded_mul (hx : x.isFinite = true) (hy : y.isFinite = true) :
    Rounded (x * y) (real x * real y) := by
  refine ⟨_, one, Nat.cast_pos.mp scale_pos, ?_, roundsTo_mul hx hy⟩
  show _ = real x * real y * (scale * scale)
  rw [mul_mul_mul_comm, real_mul_scale, real_mul_scale, Int.cast_mul]

theorem rounded_div (hx : x.isFinite = true) (hy : y.isFinite = true) (hne : real y ≠ 0) :
    Rounded (x / y) (real x / real y) := by
  have hgrained : signedGrains y ≠ 0 := by
    rw [← Int.cast_ne_zero (α := ℝ), ← real_mul_scale]
    exact mul_ne_zero hne scale_pos.ne'
  refine ⟨_, _, Int.natAbs_pos.mpr hgrained, ?_, roundsTo_div hx hy hgrained⟩
  have hmagnitude : ((signedGrains y).natAbs : ℝ) = (signedGrains y).sign * signedGrains y := by
    rw [← Int.cast_mul, Int.sign_mul_self_eq_natAbs, Int.cast_natCast]
  have hnumerator : ((signedGrains x * (signedGrains y).sign * one : Int) : ℝ) =
      signedGrains x * (signedGrains y).sign * scale := by
    rw [Int.cast_mul, Int.cast_mul, Int.cast_natCast]
    rfl
  rw [hnumerator, hmagnitude, ← real_mul_scale y, ← real_mul_scale x]
  field_simp

namespace Rounded

variable (hx : Rounded x r)
include hx

theorem isNaN : x.isNaN = false := by
  obtain ⟨z, den, -, -, h⟩ := hx
  refine isNaN_of_rank_le ?_
  rw [h.rank]
  exact Nat.min_le_left _ _

theorem isNegative_of_pos (hr : 0 < r) : isNegative x = false := by
  obtain ⟨z, den, hden, hz, h⟩ := hx
  have hscale : (0 : ℝ) < den * scale := mul_pos (Nat.cast_pos.mpr hden) scale_pos
  have hpositive : 0 < z := Int.cast_pos.mp (hz ▸ mul_pos hr hscale)
  have := h.sign (by omega)
  rw [← Bool.not_eq_true, this]
  omega

theorem isNegative_of_neg (hr : r < 0) : isNegative x = true := by
  obtain ⟨z, den, hden, hz, h⟩ := hx
  have hscale : (0 : ℝ) < den * scale := mul_pos (Nat.cast_pos.mpr hden) scale_pos
  have hnegative : z < 0 := Int.cast_lt_zero.mp (hz ▸ mul_neg_of_neg_of_pos hr hscale)
  exact (h.sign (by omega)).mpr hnegative

theorem real_of_zero (hr : r = 0) : real x = 0 := by
  obtain ⟨z, den, hden, hz, h⟩ := hx
  have hnone : z = 0 := by
    rw [hr, zero_mul, Int.cast_eq_zero] at hz
    exact hz
  have hlowest : ofFloat x = 0 := by
    rw [h.rank, hnone]
    exact nearest_zero hden
  rw [← abs_eq_zero, abs_real, hlowest]
  simp [grains]

theorem real_nonneg (hr : 0 ≤ r) : 0 ≤ real x := by
  obtain hzero | hpositive := hr.eq_or_lt
  · exact (hx.real_of_zero hzero.symm).ge
  · exact Magnitude.real_nonneg (hx.isNegative_of_pos hpositive)

theorem real_nonpos (hr : r ≤ 0) : real x ≤ 0 := by
  obtain hzero | hnegative := hr.eq_or_lt
  · exact (hx.real_of_zero hzero).le
  · exact Magnitude.real_nonpos (hx.isNegative_of_neg hnegative)

/-- What is larger without its sign is rounded to a higher rank. -/
theorem ofFloat_le (hy : Rounded y s) (h : |r| ≤ |s|) : ofFloat x ≤ ofFloat y := by
  obtain ⟨z, den, hden, hz, hx⟩ := hx
  obtain ⟨z', den', hden', hz', hy⟩ := hy
  have hscaled (n : Nat) : 0 ≤ n * scale := mul_nonneg n.cast_nonneg scale_pos.le
  have hmagnitude : (z.natAbs : ℝ) = |r| * (den * scale) := by
    rw [Nat.cast_natAbs, Int.cast_abs, hz, abs_mul, abs_of_nonneg (hscaled den)]
  have hmagnitude' : (z'.natAbs : ℝ) = |s| * (den' * scale) := by
    rw [Nat.cast_natAbs, Int.cast_abs, hz', abs_mul, abs_of_nonneg (hscaled den')]
  rw [hx.rank, hy.rank]
  refine nearest_mono hden hden' ?_
  rw [← Nat.cast_le (α := ℝ), Nat.cast_mul, Nat.cast_mul, hmagnitude, hmagnitude']
  calc |r| * (den * scale) * den' = |r| * (den * scale * den') := by ring
    _ ≤ |s| * (den * scale * den') :=
      mul_le_mul_of_nonneg_right h (mul_nonneg (hscaled den) den'.cast_nonneg)
    _ = |s| * (den' * scale) * den := by ring

theorem isFinite (hy : y.isFinite = true) (h : |r| ≤ |real y|) : x.isFinite = true := by
  have hrank := hx.ofFloat_le (rounded_itself hy) h
  rw [isFinite_iff] at hy ⊢
  omega

theorem abs_le (hy : Rounded y s) (h : |r| ≤ |s|) : |real x| ≤ |real y| := by
  rw [abs_real, abs_real, div_le_div_iff_of_pos_right scale_pos, Nat.cast_le]
  exact grains_strictMono.monotone (hx.ofFloat_le hy h)

/-- Rounding keeps the order. -/
theorem le (hy : Rounded y s) (h : r ≤ s) : real x ≤ real y := by
  obtain hr | hr := le_total 0 r
  · have := hx.abs_le hy (abs_le_abs_of_nonneg hr h)
    rwa [abs_of_nonneg (hx.real_nonneg hr), abs_of_nonneg (hy.real_nonneg (hr.trans h))] at this
  · obtain hs | hs := le_total 0 s
    · exact (hx.real_nonpos hr).trans (hy.real_nonneg hs)
    · have := hy.abs_le hx (abs_le_abs_of_nonpos hs h)
      rw [abs_of_nonpos (hx.real_nonpos hr), abs_of_nonpos (hy.real_nonpos hs)] at this
      linarith

end Rounded

/-- A sign is changed exactly. -/
theorem real_neg (hx : x.isFinite = true) : (-x).isFinite = true ∧ real (-x) = -real x := by
  have hopposite := rounded_neg hx
  have hitself := rounded_itself hx
  have hmagnitude : |real (-x)| = |real x| :=
    le_antisymm (hopposite.abs_le hitself (abs_neg _).le) (hitself.abs_le hopposite (abs_neg _).ge)
  refine ⟨hopposite.isFinite hx (abs_neg _).le, ?_⟩
  obtain hnonneg | hnonpos := le_total 0 (real x)
  · have := hopposite.real_nonpos (by linarith)
    rw [abs_of_nonpos this, abs_of_nonneg hnonneg] at hmagnitude
    linarith
  · have := hopposite.real_nonneg (by linarith)
    rw [abs_of_nonneg this, abs_of_nonpos hnonpos] at hmagnitude
    exact hmagnitude

/-! ## Errors -/

theorem spacing_le (k : Nat) : (grains (k + 1) : ℝ) - grains k ≤ 1 + grains k / 2 ^ 52 := by
  have hnext := grains_succ_le k
  rw [perBinade_eq] at hnext
  have hnext : 4503599627370496 * (grains (k + 1) : ℝ) ≤
      4503599627370496 * grains k + (4503599627370496 + grains k) := by exact_mod_cast hnext
  linarith

/-- What a quotient of grains rounds to is half a spacing away at most. -/
theorem Rounds.error {num den k : Nat} (hden : 0 < den) (h : Rounds num den k) :
    |(grains k : ℝ) - num / den| ≤ num / den / 2 ^ 53 + 1 / 2 := by
  have hpositive : (0 : ℝ) < den := Nat.cast_pos.mpr hden
  have hlow : (grains (k - 1) : ℝ) + grains k ≤ 2 * (num / den) := by
    rw [mul_div_assoc', le_div_iff₀ hpositive]
    exact_mod_cast h.low
  have hhigh : 2 * (num / den : ℝ) ≤ grains k + grains (k + 1) := by
    rw [mul_div_assoc', div_le_iff₀ hpositive]
    exact_mod_cast h.high
  generalize (num / den : ℝ) = q at hlow hhigh ⊢
  obtain habove | hbelow := le_or_gt (grains k : ℝ) q
  · have := spacing_le k
    rw [abs_of_nonpos (by linarith)]
    linarith
  · have hk : k - 1 + 1 = k := by
      refine Nat.sub_add_cancel (Nat.pos_of_ne_zero ?_)
      rintro rfl
      have : (0 : ℝ) ≤ grains (0 - 1) := Nat.cast_nonneg _
      have : (grains 0 : ℝ) = 0 := by simp [grains]
      linarith
    have := spacing_le (k - 1)
    rw [hk] at this
    have : (grains (k - 1) : ℝ) ≤ grains k :=
      Nat.cast_le.mpr (grains_strictMono.monotone (Nat.sub_le k 1))
    rw [abs_of_pos (by linarith)]
    linarith

/-- How far rounding to a finite double goes. -/
theorem Rounded.error (hx : Rounded x r) (hfinite : x.isFinite = true) :
    |real x - r| ≤ |r| / 2 ^ 53 + 1 / (2 * scale) := by
  have hsameSign : |real x - r| = |(|real x| - |r|)| := by
    obtain hr | hr := le_total 0 r
    · rw [abs_of_nonneg hr, abs_of_nonneg (hx.real_nonneg hr)]
    · rw [abs_of_nonpos hr, abs_of_nonpos (hx.real_nonpos hr), abs_sub_comm]
      congr 1
      ring
  obtain ⟨z, den, hden, hz, h⟩ := hx
  obtain ⟨k, hnearest, hk⟩ := rounds_nearest z.natAbs hden
  have hrank : ofFloat x = k := by
    rw [isFinite_iff, h.rank, hnearest] at hfinite
    rw [h.rank, hnearest]
    omega
  have hpositive : (0 : ℝ) < den := Nat.cast_pos.mpr hden
  have hscale := scale_pos
  have hquotient : (z.natAbs : ℝ) / den = |r| * scale := by
    rw [Nat.cast_natAbs, Int.cast_abs, hz, abs_mul, abs_of_pos (mul_pos hpositive hscale)]
    field_simp
  have hdistance := hk.error hden
  rw [hquotient] at hdistance
  rw [hsameSign, abs_real, hrank]
  generalize scale = o at *
  calc |(grains k / o - |r|)| = |(grains k - |r| * o)| / o := by
        rw [← abs_of_pos hscale, ← abs_div, abs_of_pos hscale]
        congr 1
        field_simp
    _ ≤ (|r| * o / 2 ^ 53 + 1 / 2) / o := by gcongr
    _ = |r| / 2 ^ 53 + 1 / (2 * o) := by field_simp

/-! ## Numbers that are doubles -/

theorem scale_eq : scale = 2 ^ 1074 := by
  rw [scale, one_eq, Nat.cast_pow, Nat.cast_ofNat]

theorem isFinite_toFloat {k : Nat} (hk : k < overflow) : (toFloat k).isFinite = true := by
  rw [isFinite_iff, ofFloat_toFloat hk]
  exact hk

theorem real_toFloat {k : Nat} (hk : k < overflow) : real (toFloat k) = grains k / scale := by
  rw [real, signedGrains, isNegative_toFloat hk, ofFloat_toFloat hk, if_neg Bool.false_ne_true,
    Int.cast_natCast]

/-- Shifted far enough, a number that is no longer than a mantissa is a full one. -/
theorem full_mantissa {h : Nat} (hpos : 0 < h) (hh : h < 2 * perBinade) :
    perBinade ≤ h * 2 ^ (52 - h.log2) ∧ h * 2 ^ (52 - h.log2) < 2 * perBinade := by
  have hlog : h.log2 < 53 := (Nat.log2_lt hpos.ne').mpr hh
  have hsame : h.log2 + (52 - h.log2) = 52 := by omega
  constructor
  · calc perBinade = 2 ^ h.log2 * 2 ^ (52 - h.log2) := by rw [← Nat.pow_add, hsame]; rfl
      _ ≤ h * 2 ^ (52 - h.log2) := Nat.mul_le_mul_right _ (Nat.log2_self_le hpos.ne')
  · calc h * 2 ^ (52 - h.log2) < 2 ^ (h.log2 + 1) * 2 ^ (52 - h.log2) :=
          Nat.mul_lt_mul_of_pos_right Nat.lt_log2_self (Nat.two_pow_pos _)
      _ = 2 * (2 ^ h.log2 * 2 ^ (52 - h.log2)) := by ring
      _ = 2 * perBinade := by rw [← Nat.pow_add, hsame]; rfl

/-- A number that is no longer than a mantissa is a magnitude, wherever its binary point is. -/
theorem exists_grains {h c : Nat} (hh : h < 2 * perBinade) (hlow : 52 ≤ c) (hhigh : c ≤ 2045) :
    ∃ k < overflow, grains k = h * 2 ^ c := by
  obtain rfl | hpos := Nat.eq_zero_or_pos h
  · exact ⟨0, by decide, by simp [grains]⟩
  · have hfull := full_mantissa hpos hh
    refine ⟨(c - (52 - h.log2)) * perBinade + h * 2 ^ (52 - h.log2), ?_, ?_⟩
    · have hbinade : (c - (52 - h.log2)) * perBinade ≤ 2045 * perBinade :=
        Nat.mul_le_mul_right _ (by omega)
      have htop : overflow = 2047 * perBinade := rfl
      omega
    · rw [grains_binade hfull.2.le (.inr hfull.1), Nat.mul_assoc, ← Nat.pow_add,
        Nat.add_sub_cancel' (by omega)]

theorem exists_double {h c : Nat} (hh : h < 2 * perBinade) (hlow : 52 ≤ c) (hhigh : c ≤ 2045) :
    ∃ d : Float, d.isFinite = true ∧ real d = h * 2 ^ c / 2 ^ 1074 := by
  obtain ⟨k, hk, hgrained⟩ := exists_grains hh hlow hhigh
  refine ⟨toFloat k, isFinite_toFloat hk, ?_⟩
  rw [real_toFloat hk, hgrained, scale_eq, Nat.cast_mul, Nat.cast_pow, Nat.cast_ofNat]

/-- Halves of natural numbers are doubles, as long as they are no longer than a mantissa. -/
theorem exists_half {h : Nat} (hh : h < 2 * perBinade) :
    ∃ d : Float, d.isFinite = true ∧ real d = h / 2 := by
  obtain ⟨d, hd, hsame⟩ := exists_double (c := 1073) hh (by decide) (by decide)
  have hhalf : (2 : ℝ) ^ 1074 = 2 * 2 ^ 1073 := pow_succ' 2 1073
  refine ⟨d, hd, ?_⟩
  rw [hsame, hhalf, mul_div_mul_right _ _ (by positivity)]

/-- What a double is, from its grains. -/
theorem real_of_grains {a : Int} {b : Nat} (hb : 0 < b) (h : signedGrains x * b = a * one) :
    real x = a / b := by
  have hgrained : (signedGrains x : ℝ) * b = a * scale := by
    rw [scale]
    exact_mod_cast congrArg (Int.cast (R := ℝ)) h
  rw [real, div_eq_div_iff scale_pos.ne' (Nat.cast_pos.mpr hb).ne', hgrained]

theorem half_grain_le : 1 / (2 * scale) ≤ 1 / 2 ^ 60 := by
  have : (2 : ℝ) ^ 60 ≤ 2 * 2 ^ 1074 := by
    rw [← pow_succ']
    exact pow_le_pow_right₀ one_le_two (by decide)
  rw [scale_eq]
  gcongr

theorem common_le : (2 : ℝ) ^ 12 ≤ 3 * 2 ^ 1022 := by
  calc (2 : ℝ) ^ 12 ≤ 2 ^ 1022 := pow_le_pow_right₀ one_le_two (by decide)
    _ ≤ 3 * 2 ^ 1022 := le_mul_of_one_le_left (by positivity) (by norm_num)

theorem half_double (h : Nat) : ((2 * h : Nat) : ℝ) / 2 = h := by
  rw [Nat.cast_mul, Nat.cast_ofNat, mul_div_cancel_left₀ _ two_ne_zero]

namespace Rounded

variable (hx : Rounded x r) {h : Nat}
include hx

theorem le_half (hh : h < 2 * perBinade) (hr : r ≤ h / 2) : real x ≤ h / 2 := by
  obtain ⟨d, hd, hsame⟩ := exists_half hh
  rw [← hsame] at hr ⊢
  exact hx.le (rounded_itself hd) hr

theorem half_le (hh : h < 2 * perBinade) (hr : h / 2 ≤ r) : h / 2 ≤ real x := by
  obtain ⟨d, hd, hsame⟩ := exists_half hh
  rw [← hsame] at hr ⊢
  exact (rounded_itself hd).le hx hr

theorem le_natural (hh : h < perBinade) (hr : r ≤ h) : real x ≤ h := by
  rw [← half_double h] at hr ⊢
  exact hx.le_half (by omega) hr

theorem natural_le (hh : h < perBinade) (hr : h ≤ r) : h ≤ real x := by
  rw [← half_double h] at hr ⊢
  exact hx.half_le (by omega) hr

/-- Natural numbers are kept as long as they are no longer than a mantissa. -/
theorem eq_natural (hh : h < perBinade) (hr : r = h) : real x = h :=
  le_antisymm (hx.le_natural hh hr.le) (hx.natural_le hh hr.ge)

/-- What is not larger than three quarters of the first power of two that is no double is rounded to
a finite double. -/
theorem isFinite_of_abs_le (hr : |r| ≤ 3 * 2 ^ 1022) : x.isFinite = true := by
  obtain ⟨d, hd, hsame⟩ := exists_double (h := 3 * 2 ^ 51) (c := 2045) (by decide) (by decide)
    (by decide)
  have hpower : real d = 3 * 2 ^ 1022 := by
    have hsplit : (2 : ℝ) ^ 51 * 2 ^ 2045 = 2 ^ 1022 * 2 ^ 1074 := by rw [← pow_add, ← pow_add]
    rw [hsame, Nat.cast_mul, Nat.cast_pow, Nat.cast_ofNat, Nat.cast_ofNat, mul_assoc, hsplit,
      ← mul_assoc, mul_div_cancel_right₀ _ (by positivity)]
  refine hx.isFinite hd (hr.trans (le_of_eq ?_))
  rw [hpower, abs_of_nonneg (by positivity)]

/-- How far rounding goes for numbers of common size. -/
theorem error_le (hr : |r| ≤ 2 ^ 12) : x.isFinite = true ∧ |real x - r| ≤ 1 / 2 ^ 40 := by
  have hfinite := hx.isFinite_of_abs_le (hr.trans common_le)
  refine ⟨hfinite, (hx.error hfinite).trans ?_⟩
  calc |r| / 2 ^ 53 + 1 / (2 * scale) ≤ 2 ^ 12 / 2 ^ 53 + 1 / 2 ^ 60 :=
        add_le_add (by gcongr) half_grain_le
    _ ≤ 1 / 2 ^ 40 := by norm_num

/-- How far rounding goes for numbers from one on. -/
theorem error_of_one_le (hfinite : x.isFinite = true) (hr : 1 ≤ r) :
    |real x - r| ≤ r / 2 ^ 52 := by
  have hpositive : 0 ≤ r := zero_le_one.trans hr
  have hdistance := hx.error hfinite
  rw [abs_of_nonneg hpositive] at hdistance
  calc |real x - r| ≤ r / 2 ^ 53 + 1 / (2 * scale) := hdistance
    _ ≤ r / 2 ^ 53 + 1 / 2 ^ 60 := add_le_add_right half_grain_le _
    _ ≤ r / 2 ^ 52 := by linarith

end Rounded

theorem grains_power {j : Nat} (hj : 52 ≤ j) :
    grains ((j - 52) * perBinade + perBinade) = 2 ^ j := by
  have hpower : perBinade = 2 ^ 52 := rfl
  rw [grains_binade (by omega) (.inr le_rfl), hpower, ← Nat.pow_add, Nat.add_sub_cancel' hj]

theorem grains_overflow : grains overflow = 2 ^ 2098 := grains_power (j := 2098) (by decide)

/-- A finite double is below the first power of two that is no double. -/
theorem abs_real_lt (hx : x.isFinite = true) : |real x| < 2 ^ 1024 := by
  have hbelow := grains_strictMono (isFinite_iff.mp hx)
  rw [grains_overflow] at hbelow
  have hbelow : (grains (ofFloat x) : ℝ) < 2 ^ 2098 := by exact_mod_cast hbelow
  rw [abs_real, div_lt_iff₀ scale_pos, scale_eq, ← pow_add]
  exact hbelow

/-- A small term does not make a sum infinite. -/
theorem isFinite_add_of_small (hx : x.isFinite = true) (hy : y.isFinite = true)
    (hsmall : |real y| ≤ 16) : (x + y).isFinite = true := by
  have hmagnitude (v : Float) : (signedGrains v).natAbs = grains (ofFloat v) := by
    rw [signedGrains]
    split
    · rw [Int.natAbs_neg, Int.natAbs_natCast]
    · rw [Int.natAbs_natCast]
  have hfirst : grains (ofFloat x) ≤ grains (overflow - 1) := by
    have := isFinite_iff.mp hx
    exact grains_strictMono.monotone (by omega)
  have hsecond : grains (ofFloat y) ≤ 16 * one := by
    rw [abs_real, div_le_iff₀ scale_pos, scale] at hsmall
    exact_mod_cast hsmall
  have hgap : 2 * (grains (overflow - 1) + 16 * one) < beyond := by decide +kernel
  have hsum := Int.natAbs_add_le (signedGrains x) (signedGrains y)
  rw [hmagnitude, hmagnitude] at hsum
  rw [isFinite_add hx hy]
  omega

end PocketCalculator.Magnitude
