import PocketCalculator.Elementary
import PocketCalculator.Proofs.Number.Reals

/-!
# Elementary functions as functions of real numbers

What a machine gives for an exponential or a power is not the nearest double, but it is near the
true value, it is infinite where that is too large for a double, and zero where it is below half
of the smallest one.  `Approximates` says this of one value and `Elementary.Accurate` of the two
functions.

`Elementary.rounded` are the functions with the nearest doubles as values, and they are accurate
(`Elementary.accurate_rounded`).
-/

namespace PocketCalculator

open Magnitude

/-- What a machine may give for a positive real number. -/
structure Approximates (v : Float) (r : ℝ) : Prop where
  number : v.isNaN = false
  positive : isNegative v = false
  overflows : 2 ^ 1024 ≤ r → v = Float.inf
  underflows : r < 1 / 2 ^ 1075 → v = 0
  /-- Within a factor of two; a machine does much better. -/
  above : r < 2 ^ 1023 → v.isFinite = true ∧ real v ≤ 2 * r
  below : 1 / 2 ^ 1074 ≤ r → r < 2 ^ 1023 → r / 2 ≤ real v

/-- Exponentials, and powers of positive numbers, as a machine may give them. -/
structure Elementary.Accurate (lib : Elementary) : Prop where
  exp : ∀ u, u.isFinite = true → Approximates (lib.exp u) (Real.exp (real u))
  pow : ∀ a b, a.isFinite = true → b.isFinite = true → 0 < real a →
    Approximates (lib.pow a b) (real a ^ real b)

namespace Magnitude

/-! ## The nearest double -/

/-- The rank nearest to a number of grains.  All midpoints between magnitudes are multiples of half
a grain, so it is enough to know which of these the number is, or between which it lies. -/
noncomputable def rankOf (g : ℝ) : Nat := nearest (⌊2 * g⌋₊ + ⌈2 * g⌉₊) 4

/-- The double nearest to a real number. -/
noncomputable def ofReal (r : ℝ) : Float :=
  if r < 0 then -toFloat (rankOf (-r * scale)) else toFloat (rankOf (r * scale))

theorem rankOf_le (g : ℝ) : rankOf g ≤ overflow := Nat.min_le_left _ _

theorem toFloat_spec {k : Nat} (hk : k ≤ overflow) :
    (toFloat k).isNaN = false ∧ isNegative (toFloat k) = false := by
  obtain hbelow | rfl := Nat.lt_or_eq_of_le hk
  · exact ⟨isNaN_of_rank_le (by rw [ofFloat_toFloat hbelow]; exact hk), isNegative_toFloat hbelow⟩
  · exact ⟨rfl, rfl⟩

theorem exists_power (j : Nat) : ∃ k, grains k = 2 ^ j := by
  obtain hlow | hhigh := Nat.lt_or_ge j 52
  · refine ⟨2 ^ j, ?_⟩
    have hbelow : 2 ^ j < perBinade := Nat.pow_lt_pow_right (by decide) hlow
    have := grains_binade (b := 0) (m := 2 ^ j) (by omega) (.inl rfl)
    simpa using this
  · exact ⟨_, grains_power hhigh⟩

/-- A number between two powers of two is rounded to a magnitude between them. -/
theorem rankOf_between {g : ℝ} {j : Nat} (hj : j ≤ 2096) (hlow : 2 ^ j ≤ g)
    (hhigh : g < 2 ^ (j + 1)) :
    rankOf g < overflow ∧ 2 ^ j ≤ grains (rankOf g) ∧ grains (rankOf g) ≤ 2 ^ (j + 1) := by
  have hfloors : 4 * 2 ^ j ≤ ⌊2 * g⌋₊ + ⌈2 * g⌉₊ := by
    have hfloor : 2 * 2 ^ j ≤ ⌊2 * g⌋₊ := Nat.le_floor (by push_cast; linarith)
    have := Nat.floor_le_ceil (2 * g)
    omega
  have hceilings : ⌊2 * g⌋₊ + ⌈2 * g⌉₊ ≤ 4 * 2 ^ (j + 1) := by
    have hceiling : ⌈2 * g⌉₊ ≤ 2 * 2 ^ (j + 1) := Nat.ceil_le.mpr (by push_cast; linarith)
    have := Nat.floor_le_ceil (2 * g)
    omega
  obtain ⟨k, hk⟩ := exists_power j
  obtain ⟨k', hk'⟩ := exists_power (j + 1)
  have hbelow : k' < overflow := by
    rw [← grains_strictMono.lt_iff_lt, hk', grains_overflow]
    exact Nat.pow_lt_pow_right (by decide) (by omega)
  have hfirst : min overflow k ≤ rankOf g := by
    rw [← nearest_grains, hk]
    exact nearest_mono Nat.one_pos (by decide) (by omega)
  have hsecond : rankOf g ≤ min overflow k' := by
    rw [← nearest_grains, hk']
    exact nearest_mono (by decide) Nat.one_pos (by omega)
  have horder : k < k' := by
    rw [← grains_strictMono.lt_iff_lt, hk, hk']
    exact Nat.pow_lt_pow_right (by decide) (Nat.lt_succ_self j)
  refine ⟨by omega, ?_, ?_⟩
  · rw [← hk]
    exact grains_strictMono.monotone (by omega)
  · rw [← hk']
    exact grains_strictMono.monotone (by omega)

theorem rankOf_large {g : ℝ} (hg : grains overflow ≤ g) : rankOf g = overflow := by
  have hfloor : 2 * grains overflow ≤ ⌊2 * g⌋₊ := Nat.le_floor (by push_cast; linarith)
  have := Nat.floor_le_ceil (2 * g)
  have hitself := nearest_grains overflow
  rw [Nat.min_self] at hitself
  refine Nat.le_antisymm (rankOf_le g) ?_
  rw [← hitself]
  exact nearest_mono Nat.one_pos (by decide) (by omega)

theorem rankOf_small {g : ℝ} (hg : 2 * g < 1) : rankOf g = 0 := by
  have hfloor : ⌊2 * g⌋₊ = 0 := Nat.floor_eq_zero.mpr hg
  have hceiling : ⌈2 * g⌉₊ ≤ 1 := Nat.ceil_le.mpr (by push_cast; exact hg.le)
  have hquarter : nearest 1 4 = 0 := by decide
  rw [← Nat.le_zero, ← hquarter]
  exact nearest_mono (by decide) (by decide) (by omega)

theorem two_pow_mul_scale (n : Nat) : (2 : ℝ) ^ n * scale = 2 ^ (n + 1074) := by
  rw [scale_eq, ← pow_add]

theorem rankOf_tiny {g : ℝ} (hg : g < 1) : rankOf g ≤ 1 := by
  have hceiling : ⌈2 * g⌉₊ ≤ 2 := Nat.ceil_le.mpr (by push_cast; linarith)
  have hfloor : ⌊2 * g⌋₊ < 2 := (Nat.floor_lt' two_ne_zero).mpr (by push_cast; linarith)
  have hone : nearest 4 4 = 1 := by decide
  rw [← hone]
  exact nearest_mono (by decide) (by decide) (by omega)

/-- The nearest magnitude is finite, and at most twice the number. -/
theorem grains_rankOf_le {g : ℝ} (hg : 0 < g) (hmost : g < 2 ^ 2097) :
    rankOf g < overflow ∧ grains (rankOf g) ≤ 2 * g := by
  have hfirst : grains 1 = 1 := by decide
  have hlowest : grains 0 = 0 := by decide
  obtain hsmall | hhalf := lt_or_ge (2 * g) 1
  · rw [rankOf_small hsmall, hlowest, Nat.cast_zero]
    exact ⟨by decide, by linarith⟩
  · obtain htiny | hone := lt_or_ge g 1
    · have hrank := rankOf_tiny htiny
      have hbelow : (grains (rankOf g) : ℝ) ≤ 1 := by
        rw [← Nat.cast_one, ← hfirst, Nat.cast_le]
        exact grains_strictMono.monotone hrank
      have htop : 1 < overflow := by decide
      exact ⟨by omega, by linarith⟩
    · obtain ⟨j, hlow, hhigh⟩ := exists_nat_pow_near hone one_lt_two
      have hj : j < 2097 := (pow_lt_pow_iff_right₀ one_lt_two).mp (hlow.trans_lt hmost)
      obtain ⟨hfinite, -, hbelow⟩ := rankOf_between (by omega) hlow hhigh
      have hbelow : (grains (rankOf g) : ℝ) ≤ 2 ^ (j + 1) := by exact_mod_cast hbelow
      rw [pow_succ] at hbelow
      exact ⟨hfinite, by linarith⟩

theorem le_grains_rankOf {g : ℝ} (hone : 1 ≤ g) (hmost : g < 2 ^ 2097) :
    g / 2 ≤ grains (rankOf g) := by
  obtain ⟨j, hlow, hhigh⟩ := exists_nat_pow_near hone one_lt_two
  have hj : j < 2097 := (pow_lt_pow_iff_right₀ one_lt_two).mp (hlow.trans_lt hmost)
  obtain ⟨-, habove, -⟩ := rankOf_between (by omega) hlow hhigh
  have habove : (2 : ℝ) ^ j ≤ grains (rankOf g) := by exact_mod_cast habove
  rw [pow_succ] at hhigh
  linarith

/-- The nearest double is what a machine may give. -/
theorem approximates_ofReal {r : ℝ} (hr : 0 < r) : Approximates (ofReal r) r := by
  have hscale := scale_pos
  have hgrained : 0 < r * scale := mul_pos hr hscale
  have hmost (hhigh : r < 2 ^ 1023) : r * scale < 2 ^ 2097 := by
    rw [← two_pow_mul_scale 1023]
    exact mul_lt_mul_of_pos_right hhigh hscale
  rw [ofReal, if_neg hr.not_gt]
  obtain ⟨hnumber, hpositive⟩ := toFloat_spec (rankOf_le (r * scale))
  refine ⟨hnumber, hpositive, ?_, ?_, ?_, ?_⟩
  · intro hlarge
    have hinfinite : (grains overflow : ℝ) = 2 ^ 1024 * scale := by
      rw [two_pow_mul_scale, grains_overflow, Nat.cast_pow, Nat.cast_ofNat]
    rw [rankOf_large, inf_eq]
    rw [hinfinite]
    exact mul_le_mul_of_nonneg_right hlarge hscale.le
  · intro hsmall
    have hhalf : 2 * (r * scale) < 1 := by
      have hleast : (2 : ℝ) ^ 1075 = 2 * scale := by rw [scale_eq, ← pow_succ']
      rw [hleast, lt_div_iff₀ (mul_pos two_pos hscale)] at hsmall
      calc 2 * (r * scale) = r * (2 * scale) := by ring
        _ < 1 := hsmall
    rw [rankOf_small hhalf]
    rfl
  · intro hhigh
    obtain ⟨hfinite, hbelow⟩ := grains_rankOf_le hgrained (hmost hhigh)
    refine ⟨isFinite_toFloat hfinite, ?_⟩
    rw [real_toFloat hfinite, div_le_iff₀ hscale]
    linarith
  · intro hlow hhigh
    obtain ⟨hfinite, -⟩ := grains_rankOf_le hgrained (hmost hhigh)
    have hleast : 1 ≤ r * scale := by rwa [← scale_eq, div_le_iff₀ hscale] at hlow
    have habove := le_grains_rankOf hleast (hmost hhigh)
    rw [real_toFloat hfinite, le_div_iff₀ hscale]
    linarith

end Magnitude

/-! ## Nearest values -/

namespace Elementary

open Classical in
/-- The elementary functions with the nearest doubles as values.  Powers of zero, of negative
numbers and of infinities are left to the machine. -/
noncomputable def rounded : Elementary where
  sin x := if x.isFinite then ofReal (Real.sin (real x)) else Float.nan
  cos x := if x.isFinite then ofReal (Real.cos (real x)) else Float.nan
  tan x := if x.isFinite then ofReal (Real.tan (real x)) else Float.nan
  exp x := if x.isFinite then ofReal (Real.exp (real x)) else if isNegative x then 0 else x
  log10 x :=
    if x == 0 then -Float.inf
    else if isNegative x then Float.nan
    else if x.isFinite then ofReal (Real.logb 10 (real x)) else x
  pow a b :=
    if a.isFinite ∧ b.isFinite ∧ 0 < real a then ofReal (real a ^ real b)
    else if a == 1 || b == 0 then 1
    else if a.isNaN || b.isNaN then Float.nan
    else machine.pow a b

theorem accurate_rounded : rounded.Accurate where
  exp u hu := by
    rw [rounded]
    simp only [hu, if_true]
    exact approximates_ofReal (Real.exp_pos _)
  pow a b ha hb hpos := by
    have hbranch : rounded.pow a b = ofReal (real a ^ real b) := if_pos ⟨ha, hb, hpos⟩
    rw [hbranch]
    exact approximates_ofReal (Real.rpow_pos_of_pos hpos _)

end Elementary

end PocketCalculator
