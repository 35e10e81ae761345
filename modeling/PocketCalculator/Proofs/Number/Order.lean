import PocketCalculator.Proofs.Number.Products

/-!
# The order of doubles

Two finite doubles compare as what they are worth in grains.  The mantissas of two unpacked numbers
decide only if the exponents are the same (`compare_mantissas`), and the signs come before both
(`compare_eq`).
-/

namespace PocketCalculator.Magnitude

open Float.Model (UnpackedFloat)
open Float.Model.UnpackedFloat Float.Model.Format

variable {u v : UnpackedFloat} {x y : Float}

/-- Of two mantissas in their binades the one in the higher binade counts for more. -/
theorem mantissa_lt_of_binade {m m' c c' : Nat} (hbelow : m < 2 * perBinade)
    (hnormal : c' = 0 ∨ perBinade ≤ m') (h : c < c') : m * 2 ^ c < m' * 2 ^ c' := by
  have hfull : perBinade ≤ m' := hnormal.resolve_left (by omega)
  calc m * 2 ^ c < 2 * perBinade * 2 ^ c := Nat.mul_lt_mul_of_pos_right hbelow (Nat.two_pow_pos c)
    _ = perBinade * 2 ^ (c + 1) := by ring
    _ ≤ m' * 2 ^ c' := Nat.mul_le_mul hfull (Nat.pow_le_pow_right (by decide) h)

theorem compare_mantissas {m m' c c' : Nat} (hbelow : m < 2 * perBinade)
    (hbelow' : m' < 2 * perBinade) (hnormal : c = 0 ∨ perBinade ≤ m)
    (hnormal' : c' = 0 ∨ perBinade ≤ m') :
    (compare ((c : Int) - 1074) (c' - 1074)).then (compare m m') =
      compare ((m * 2 ^ c : Nat) : Int) (m' * 2 ^ c' : Nat) := by
  obtain hless | rfl | hmore := Nat.lt_trichotomy c c'
  · have hlower : m * 2 ^ c < m' * 2 ^ c' := mantissa_lt_of_binade hbelow hnormal' hless
    have hexponents : compare ((c : Int) - 1074) (c' - 1074) = .lt :=
      compare_lt_iff_lt.mpr (by omega)
    rw [hexponents]
    exact (compare_lt_iff_lt.mpr (Int.ofNat_lt.mpr hlower)).symm
  · have hscaled (a b : Nat) : a * 2 ^ c < b * 2 ^ c ↔ a < b :=
      Nat.mul_lt_mul_right (Nat.two_pow_pos c)
    have hexponents : compare ((c : Int) - 1074) (c - 1074) = .eq := compare_eq_iff_eq.mpr rfl
    rw [hexponents]
    show compare m m' = _
    obtain hless | rfl | hmore := Nat.lt_trichotomy m m'
    · rw [compare_lt_iff_lt.mpr hless]
      exact (compare_lt_iff_lt.mpr (Int.ofNat_lt.mpr ((hscaled m m').mpr hless))).symm
    · rw [compare_eq_iff_eq.mpr rfl, compare_eq_iff_eq.mpr rfl]
    · rw [compare_gt_iff_gt.mpr hmore]
      exact (compare_gt_iff_gt.mpr (Int.ofNat_lt.mpr ((hscaled m' m).mpr hmore))).symm
  · have hhigher : m' * 2 ^ c' < m * 2 ^ c := mantissa_lt_of_binade hbelow' hnormal hmore
    have hexponents : compare ((c : Int) - 1074) (c' - 1074) = .gt :=
      compare_gt_iff_gt.mpr (by omega)
    rw [hexponents]
    exact (compare_gt_iff_gt.mpr (Int.ofNat_lt.mpr hhigher)).symm

theorem compare_neg (a b : Int) : compare (-a) (-b) = (compare a b).swap := by
  obtain hless | rfl | hmore := Int.lt_trichotomy a b
  · rw [compare_lt_iff_lt.mpr hless, compare_gt_iff_gt.mpr (by omega)]
    rfl
  · rw [compare_eq_iff_eq.mpr rfl, compare_eq_iff_eq.mpr rfl]
    rfl
  · rw [compare_gt_iff_gt.mpr hmore, compare_lt_iff_lt.mpr (by omega)]
    rfl

/-- Unpacked numbers compare as what they are worth. -/
theorem compare_eq (hu : Canonical u) (hv : Canonical v) :
    u.compare v = some (compare (worth u) (worth v)) := by
  have hpositive {m : Nat} {e : Int} (hm : 0 < m) : 0 < worth (.finite .positive m e hm) :=
    Int.ofNat_lt.mpr (Nat.mul_pos hm (Nat.two_pow_pos _))
  have hnegative {m : Nat} {e : Int} (hm : 0 < m) : worth (.finite .negative m e hm) < 0 :=
    Int.neg_neg_of_pos (hpositive hm)
  obtain ⟨s, rfl⟩ | ⟨s, m, hm, c, rfl, hbelow, hnormal⟩ := hu.kinds
  · obtain ⟨s', rfl⟩ | ⟨s', m', hm', c', rfl, -⟩ := hv.kinds
    · rfl
    · cases s' with
      | negative => exact congrArg some (compare_gt_iff_gt.mpr (hnegative hm')).symm
      | positive => exact congrArg some (compare_lt_iff_lt.mpr (hpositive hm')).symm
  · obtain ⟨s', rfl⟩ | ⟨s', m', hm', c', rfl, hbelow', hnormal'⟩ := hv.kinds
    · cases s with
      | negative => exact congrArg some (compare_lt_iff_lt.mpr (hnegative hm)).symm
      | positive => exact congrArg some (compare_gt_iff_gt.mpr (hpositive hm)).symm
    · have hmagnitudes := compare_mantissas hbelow hbelow' hnormal hnormal'
      cases s with
      | negative =>
        cases s' with
        | negative =>
          simp only [worth_place, Sign.apply, compare_neg, ← hmagnitudes]
          rfl
        | positive =>
          exact congrArg some (compare_lt_iff_lt.mpr ((hnegative hm).trans (hpositive hm'))).symm
      | positive =>
        cases s' with
        | negative =>
          exact congrArg some (compare_gt_iff_gt.mpr ((hnegative hm').trans (hpositive hm))).symm
        | positive =>
          simp only [worth_place, Sign.apply, ← hmagnitudes]
          rfl

theorem compare_grains (hx : x.isFinite = true) (hy : y.isFinite = true) :
    (unpack binary64 x.toBits.toBitVec).compare (unpack binary64 y.toBits.toBitVec) =
      some (compare (signedGrains x) (signedGrains y)) := by
  obtain ⟨hcanonical, hgrained⟩ := unpack_spec hx
  obtain ⟨hcanonical', hgrained'⟩ := unpack_spec hy
  rw [compare_eq hcanonical hcanonical', hgrained, hgrained']

theorem le_iff_grains (hx : x.isFinite = true) (hy : y.isFinite = true) :
    x ≤ y ↔ signedGrains x ≤ signedGrains y := by
  have hmodel : x ≤ y ↔ x.toModel ≤ y.toModel := decide_eq_true_iff
  rw [hmodel]
  show ((unpack binary64 x.toBits.toBitVec).compare (unpack binary64 y.toBits.toBitVec)).any
    (·.isLE) = true ↔ _
  rw [compare_grains hx hy, Option.any_some, Std.isLE_compare]

theorem lt_iff_grains (hx : x.isFinite = true) (hy : y.isFinite = true) :
    x < y ↔ signedGrains x < signedGrains y := by
  have hmodel : x < y ↔ x.toModel < y.toModel := decide_eq_true_iff
  rw [hmodel]
  show ((unpack binary64 x.toBits.toBitVec).compare (unpack binary64 y.toBits.toBitVec) ==
    some .lt) = true ↔ _
  rw [compare_grains hx hy, beq_iff_eq, Option.some_inj]
  exact compare_lt_iff_lt

/-! ## Rounding keeps the order -/

section

variable {num den num' den' k n : Nat}

/-- A smaller quotient does not round to a higher rank. -/
theorem Rounds.mono (hden : 0 < den) (hden' : 0 < den') (h : num * den' ≤ num' * den)
    (hk : Rounds num den k) (hn : Rounds num' den' n) : k ≤ n := by
  obtain hless | hsame := Nat.lt_or_eq_of_le h
  · by_contra hlt
    have hbefore : grains n ≤ grains (k - 1) := grains_strictMono.monotone (by omega)
    have hbehind : grains (n + 1) ≤ grains k := grains_strictMono.monotone (by omega)
    have hmidpoints : 2 * num' * den ≤ 2 * num * den' := by
      calc 2 * num' * den ≤ (grains n + grains (n + 1)) * den' * den :=
            Nat.mul_le_mul_right den hn.high
        _ ≤ (grains (k - 1) + grains k) * den' * den :=
            Nat.mul_le_mul_right den (Nat.mul_le_mul_right den' (Nat.add_le_add hbefore hbehind))
        _ = (grains (k - 1) + grains k) * den * den' := Nat.mul_right_comm _ _ _
        _ ≤ 2 * num * den' := Nat.mul_le_mul_right den' hk.low
    rw [Nat.mul_assoc, Nat.mul_assoc] at hmidpoints
    omega
  · exact (hn.unique hden' (hk.of_mul_eq hden hden' hsame)).le

theorem nearest_mono (hden : 0 < den) (hden' : 0 < den') (h : num * den' ≤ num' * den) :
    nearest num den ≤ nearest num' den' := by
  obtain ⟨k, hnearest, hk⟩ := rounds_nearest num hden
  obtain ⟨n, hnearest', hn⟩ := rounds_nearest num' hden'
  rw [hnearest, hnearest']
  exact min_le_min_left overflow (hk.mono hden hden' h hn)

end

/-! ## Distances -/

/-- The next magnitude is one grain away, or a part of this one. -/
theorem grains_succ_le (k : Nat) :
    perBinade * grains (k + 1) ≤ perBinade * grains k + (perBinade + grains k) := by
  obtain ⟨b, m, rfl, hm, hb⟩ := exists_binade k
  rw [grains_binade (by omega) hb, Nat.add_assoc, grains_binade (by omega) (by omega)]
  have hspacing : perBinade * 2 ^ b ≤ perBinade + m * 2 ^ b := by
    obtain rfl | hfull := hb
    · rw [Nat.pow_zero]
      omega
    · exact (Nat.mul_le_mul_right _ hfull).trans (Nat.le_add_left _ _)
  calc perBinade * ((m + 1) * 2 ^ b) = perBinade * (m * 2 ^ b) + perBinade * 2 ^ b := by ring
    _ ≤ perBinade * (m * 2 ^ b) + (perBinade + m * 2 ^ b) := Nat.add_le_add_left hspacing _

end PocketCalculator.Magnitude
