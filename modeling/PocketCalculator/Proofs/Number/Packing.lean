import PocketCalculator.Proofs.Number.Double
import PocketCalculator.Proofs.Number.Rounding

/-!
# Rounding and packing

What an operation on doubles computes is a quotient times a power of two, of which it keeps the
whole part and notes on which side of a half the rest is.  It is shifted to its binade, rounded and
packed.  In grains this is the rounding to the nearest magnitude.

* `roundedMantissa_shiftRight`: shifting with a round bit and a sticky bit is `roundDiv`.
* `rank_pack`: the rank of what is packed is read off mantissa and exponent.
* `rank_roundWithAccuracy`: a quotient that is rounded and packed has the nearest rank.
* `rank_normalize`: an integer that is rounded and packed has the nearest rank.
-/

namespace PocketCalculator.Magnitude

open Float.Model (UnpackedFloat)
open Float.Model.UnpackedFloat Float.Model.Format

/-! ## Shifting -/

/-- Whether something was dropped behind a mantissa. -/
def dropped : Accuracy → Bool
  | .exact => false
  | .inexact _ => true

/-- A mantissa that was shifted by `n + 1` places. -/
theorem repeat_shiftRightOne (m n : Nat) (acc : Accuracy) :
    (n + 1).repeat ExtendedMantissa.shiftRightOne (.ofMantissaAndAccuracy m acc) =
      ⟨m / 2 ^ (n + 1), m / 2 ^ n % 2 != 0, (m % 2 ^ n != 0) || dropped acc⟩ := by
  induction n with
  | zero =>
    cases acc with
    | exact => simp [Nat.repeat, ExtendedMantissa.ofMantissaAndAccuracy,
        ExtendedMantissa.shiftRightOne, Nat.mod_one, dropped]
    | inexact o => cases o <;> simp [Nat.repeat, ExtendedMantissa.ofMantissaAndAccuracy,
        ExtendedMantissa.shiftRightOne, Nat.mod_one, dropped]
  | succ n ih =>
    have hsticky : ((m / 2 ^ n % 2 != 0) || (m % 2 ^ n != 0)) = (m % 2 ^ (n + 1) != 0) := by
      rw [Nat.pow_succ, Nat.mod_mul]
      have := Nat.two_pow_pos n
      obtain hzero | hone := Nat.mod_two_eq_zero_or_one (m / 2 ^ n) <;> simp [*]
    rw [Nat.repeat, ih, ExtendedMantissa.shiftRightOne, Nat.div_div_eq_div_mul, ← Nat.pow_succ,
      ← Bool.or_assoc, hsticky]

theorem roundedMantissa_eq (m : Nat) (round sticky : Bool) :
    (⟨m, round, sticky⟩ : ExtendedMantissa).roundedMantissa =
      if round then if sticky then m + 1 else m + m % 2 else m := by
  cases round <;> cases sticky <;> rfl

theorem dropped_accuracyOfFraction (r den : Nat) :
    dropped (accuracyOfFraction r den) = (r != 0) := by
  unfold accuracyOfFraction
  split
  · simp [dropped, *]
  · simp [dropped, *]

theorem roundedMantissa_fraction (num : Nat) {den : Nat} (hden : 0 < den) :
    (ExtendedMantissa.ofMantissaAndAccuracy (num / den)
      (accuracyOfFraction (num % den) den)).roundedMantissa = roundDiv num den := by
  unfold accuracyOfFraction roundDiv
  simp only
  split
  case isTrue hnone =>
    rw [hnone, if_pos (by omega)]
    rfl
  case isFalse =>
    cases horder : compare (2 * (num % den)) den with
    | lt =>
      rw [if_pos (Nat.compare_eq_lt.mp horder)]
      rfl
    | eq =>
      have := Nat.compare_eq_eq.mp horder
      rw [if_neg (by omega), if_neg (by omega)]
      rfl
    | gt =>
      have := Nat.compare_eq_gt.mp horder
      rw [if_neg (by omega), if_pos (by omega)]
      rfl

/-- Round bit and sticky bit hold what is needed to round. -/
theorem roundedMantissa_shiftRight (num : Nat) {den : Nat} (hden : 0 < den) (n : Nat) :
    (ExtendedMantissa.ofMantissaAndAccuracy (num / den)
      (accuracyOfFraction (num % den) den) >>> n).roundedMantissa =
      roundDiv num (den * 2 ^ n) := by
  cases n with
  | zero =>
    rw [Nat.pow_zero, Nat.mul_one]
    exact roundedMantissa_fraction num hden
  | succ n =>
    show ((n + 1).repeat ExtendedMantissa.shiftRightOne _).roundedMantissa = _
    rw [repeat_shiftRightOne, roundedMantissa_eq, dropped_accuracyOfFraction]
    unfold roundDiv
    simp only [bne_iff_ne, Bool.or_eq_true]
    have hsplit : num % (den * 2 ^ (n + 1)) =
        num % den + den * (num / den % 2 ^ n) + den * 2 ^ n * (num / den / 2 ^ n % 2) := by
      rw [Nat.mod_mul, Nat.pow_succ, Nat.mod_mul]
      ring
    have hbelow : num % den + den * (num / den % 2 ^ n) < den * 2 ^ n := by
      have := Nat.mod_lt num hden
      have := Nat.mod_lt (num / den) (Nat.two_pow_pos n)
      nlinarith
    have hsticky : num / den % 2 ^ n ≠ 0 ∨ num % den ≠ 0 ↔
        0 < num % den + den * (num / den % 2 ^ n) := by
      rw [Nat.add_pos_iff_pos_or_pos, Nat.mul_pos_iff_of_pos_left hden, Nat.pos_iff_ne_zero,
        Nat.pos_iff_ne_zero, or_comm]
    have hdouble : den * 2 ^ (n + 1) = 2 * (den * 2 ^ n) := by ring
    rw [Nat.div_div_eq_div_mul num den (2 ^ (n + 1))]
    generalize num % den + den * (num / den % 2 ^ n) = rest at *
    generalize den * 2 ^ (n + 1) = whole at *
    generalize den * 2 ^ n = half at *
    -- The round bit tells on which side of the midpoint the remainder is, or whether it is there.
    obtain hlow | hhigh := Nat.mod_two_eq_zero_or_one (num / den / 2 ^ n)
    · have hbefore : 2 * (num % whole) < whole := by
        rw [hsplit, hlow]
        omega
      rw [if_neg (by simp [hlow]), if_pos hbefore]
    · have hbehind : ¬2 * (num % whole) < whole := by
        rw [hsplit, hhigh]
        omega
      have hbeyond : num / den % 2 ^ n ≠ 0 ∨ num % den ≠ 0 ↔ whole < 2 * (num % whole) := by
        rw [hsticky, hsplit, hhigh]
        omega
      rw [if_pos (by simp [hhigh]), if_neg hbehind]
      exact if_congr hbeyond rfl rfl

/-! ## Packing -/

/-- The rank in the bits of a double. -/
def rank (bits : BitVec 64) : Nat := bits.toNat % signPlace

theorem rank_fields (s : Sign) (e : BitVec 11) (m : BitVec 52) :
    rank (fields s e m) = e.toNat * perBinade + m.toNat := by
  rw [rank, toNat_fields, Nat.mul_comm, Nat.mul_add_mod_self_left,
    Nat.mod_eq_of_lt (below_signPlace e m)]

/-- Whether an unpacked number has the exponent that is packed. -/
def Canonical : UnpackedFloat → Prop
  | .zero _ => True
  | .finite _ m e _ => m < 2 * perBinade ∧ -1074 ≤ e ∧ (e = -1074 ∨ perBinade ≤ m)
  | .infinity _ | .notANumber => False

/-- An unpacked number in grains. -/
def worth : UnpackedFloat → Int
  | .finite s m e _ => s.apply (m * 2 ^ (e + 1074).toNat : Nat)
  | _ => 0

@[simp]
theorem worth_zero (s : Sign) : worth (.zero s) = 0 := rfl

theorem worth_place (s : Sign) {m : Nat} (c : Nat) (hm : 0 < m) :
    worth (.finite s m (c - 1074) hm) = s.apply (m * 2 ^ c : Nat) := by
  have hplace : ((c : Int) - 1074 + 1074).toNat = c := by omega
  rw [worth, hplace]

/-- A canonical number is a zero, or a mantissa in its binade. -/
theorem Canonical.kinds {u : UnpackedFloat} (h : Canonical u) :
    (∃ s, u = .zero s) ∨ ∃ s m hm, ∃ c : Nat, u = .finite s m (c - 1074) hm ∧
      m < 2 * perBinade ∧ (c = 0 ∨ perBinade ≤ m) := by
  cases u with
  | infinity _ | notANumber => exact h.elim
  | zero s => exact .inl ⟨s, rfl⟩
  | finite s m e hm =>
    obtain ⟨hbelow, hleast, hnormal⟩ := h
    obtain ⟨c, rfl⟩ : ∃ c : Nat, e = c - 1074 := ⟨(e + 1074).toNat, by omega⟩
    exact .inr ⟨s, m, hm, c, rfl, hbelow, hnormal.imp_left (by omega)⟩

variable {s : Sign} {m b : Nat} {e : Int}

/-- The rank of what is packed: the mantissa, in its binade. -/
theorem rank_pack_finite (hm : 0 < m) (hbelow : m < 2 * perBinade)
    (hnormal : b = 0 ∨ perBinade ≤ m) :
    rank ((UnpackedFloat.finite s m (b - 1074) hm).pack binary64) =
      min overflow (b * perBinade + m) := by
  have hbiased : ((b : Int) - 1074 + (exponentBias binary64 : Nat) +
      (binary64.mantissaBitsWithoutImplicit : Nat)).toNat = b + 1 := by
    have : exponentBias binary64 = 1023 := rfl
    rw [this]
    show ((b : Int) - 1074 + 1023 + 52).toNat = b + 1
    omega
  have hoverflow : overflow = 2047 * perBinade := rfl
  simp only [pack, hbiased]
  show rank (if 2 ^ 11 ≤ b + 1 + 1 then _ else if m.log2 + 1 = 53 then _ else _) = _
  have htop : m.log2 + 1 = 53 ↔ perBinade ≤ m := by
    have hatLeast : perBinade ≤ m ↔ 52 ≤ m.log2 := (Nat.le_log2 hm.ne').symm
    have hatMost : m.log2 < 53 := (Nat.log2_lt hm.ne').mpr hbelow
    omega
  rw [perBinade_eq] at *
  split_ifs with hinfinite hfull
  · have hplace : overflow ≤ b * 4503599627370496 + m := by
      have := hnormal.resolve_left (by omega)
      omega
    rw [packedInfinity, rank_fields, Nat.min_eq_left hplace]
    rfl
  · have hexponent : (BitVec.ofNat 11 (b + 1)).toNat = b + 1 := Nat.mod_eq_of_lt (by omega)
    have hmantissa : (BitVec.ofNat 52 m).toNat = m - 4503599627370496 := by
      have := htop.mp hfull
      show m % 4503599627370496 = _
      omega
    rw [rank_fields, hexponent, hmantissa, perBinade_eq]
    have := htop.mp hfull
    omega
  · have hmantissa : (BitVec.ofNat 52 m).toNat = m := by
      have := htop.not.mp hfull
      exact Nat.mod_eq_of_lt (by omega)
    obtain rfl : b = 0 := hnormal.resolve_right (htop.not.mp hfull)
    rw [rank_fields, hmantissa]
    have : (0#11).toNat = 0 := rfl
    rw [this, perBinade_eq]
    omega

theorem worth_finite (hm : 0 < m) (hbelow : m < 2 * perBinade) (hnormal : b = 0 ∨ perBinade ≤ m) :
    worth (.finite s m (b - 1074) hm) = s.apply (grains (b * perBinade + m)) := by
  rw [worth_place, grains_binade hbelow.le hnormal]

theorem natAbs_apply (s : Sign) (n : Nat) : (s.apply n).natAbs = n := by
  cases s <;> simp [Sign.apply]

/-- A magnitude rounds to itself. -/
theorem nearest_grains (k : Nat) : nearest (grains k) 1 = min overflow k := by
  obtain ⟨n, hnearest, hn⟩ := rounds_nearest (grains k) Nat.one_pos
  have hnext : grains k < grains (k + 1) := grains_strictMono (Nat.lt_succ_self k)
  have hitself : Rounds (grains k) 1 k := {
    low := by
      have := grains_strictMono.monotone (Nat.sub_le k 1)
      omega
    high := by omega
    even := by
      rintro (hbefore | hbehind)
      · have hsame : grains (k - 1) = grains k := by omega
        have := grains_strictMono.injective hsame
        omega
      · omega }
  rw [hnearest, hitself.unique Nat.one_pos hn]

/-- An unpacked number with the exponent that is packed has the rank of what it is worth. -/
theorem rank_pack {u : UnpackedFloat} (h : Canonical u) :
    rank (u.pack binary64) = nearest (worth u).natAbs 1 := by
  obtain ⟨s, rfl⟩ | ⟨s, m, hm, b, rfl, hbelow, hnormal⟩ := h.kinds
  · cases s <;> rfl
  · rw [rank_pack_finite hm hbelow hnormal, worth_finite hm hbelow hnormal, natAbs_apply,
      nearest_grains]

/-! ## Rounding -/

theorem mantissa_shiftRight (m n : Nat) (acc : Accuracy) :
    (ExtendedMantissa.ofMantissaAndAccuracy m acc >>> n).mantissa = m / 2 ^ n := by
  cases n with
  | zero =>
    rw [Nat.pow_zero, Nat.div_one]
    obtain _ | order := acc
    · rfl
    · cases order <;> rfl
  | succ n =>
    show ((n + 1).repeat ExtendedMantissa.shiftRightOne
      (.ofMantissaAndAccuracy m acc)).mantissa = _
    rw [repeat_shiftRightOne]

theorem log2_mul_two_pow (hm : 0 < m) (c : Nat) : (m * 2 ^ c).log2 = m.log2 + c := by
  have hne : m * 2 ^ c ≠ 0 := (Nat.mul_pos hm (Nat.two_pow_pos c)).ne'
  rw [Nat.log2_eq_iff hne, Nat.add_right_comm, Nat.pow_add, Nat.pow_add]
  exact ⟨Nat.mul_le_mul_right _ (Nat.log2_self_le hm.ne'),
    Nat.mul_lt_mul_of_pos_right Nat.lt_log2_self (Nat.two_pow_pos c)⟩

theorem log2_div_two_pow (q k : Nat) : (q / 2 ^ k).log2 = q.log2 - k := by
  obtain hsmall | hlarge := Nat.lt_or_ge q (2 ^ k)
  · rw [Nat.div_eq_of_lt hsmall, Nat.log2_zero]
    obtain rfl | hq := Nat.eq_zero_or_pos q
    · simp
    · have := (Nat.log2_lt hq.ne').mpr hsmall
      omega
  · have hq : q ≠ 0 := (Nat.lt_of_lt_of_le (Nat.two_pow_pos k) hlarge).ne'
    have hk : k ≤ q.log2 := (Nat.le_log2 hq).mpr hlarge
    have hne : q / 2 ^ k ≠ 0 := (Nat.div_pos hlarge (Nat.two_pow_pos k)).ne'
    rw [Nat.log2_eq_iff hne, Nat.le_div_iff_mul_le (Nat.two_pow_pos k), ← Nat.pow_add,
      Nat.div_lt_iff_lt_mul (Nat.two_pow_pos k), ← Nat.pow_add]
    have h1 : q.log2 - k + k = q.log2 := by omega
    have h2 : q.log2 - k + 1 + k = q.log2 + 1 := by omega
    rw [h1, h2]
    exact ⟨Nat.log2_self_le hq, Nat.lt_log2_self⟩

section

variable {num den a : Nat}

/-- A quotient times a power of two, without its fraction, in front of its binary point. -/
theorem log2_scaled (hden : 0 < den) (h : a ≤ b ∨ 0 < num / den) :
    (num * 2 ^ a / (den * 2 ^ b)).log2 = (num / den).log2 + a - b := by
  obtain hab | hab := Nat.le_total a b
  · have hcancel : num * 2 ^ a / (den * 2 ^ b) = num / den / 2 ^ (b - a) := by
      have hsplit : den * 2 ^ b = den * 2 ^ (b - a) * 2 ^ a := by
        rw [Nat.mul_assoc, ← Nat.pow_add, Nat.sub_add_cancel hab]
      rw [hsplit, Nat.mul_div_mul_right _ _ (Nat.two_pow_pos a), Nat.div_div_eq_div_mul]
    rw [hcancel, log2_div_two_pow]
    omega
  · obtain rfl | hq : a = b ∨ 0 < num / den := by omega
    · rw [Nat.mul_div_mul_right _ _ (Nat.two_pow_pos a)]
      omega
    · have hcancel : num * 2 ^ a / (den * 2 ^ b) = num * 2 ^ (a - b) / den := by
        have hsplit : num * 2 ^ a = num * 2 ^ (a - b) * 2 ^ b := by
          rw [Nat.mul_assoc, ← Nat.pow_add, Nat.sub_add_cancel hab]
        rw [hsplit, Nat.mul_div_mul_right _ _ (Nat.two_pow_pos b)]
      have hlow : num / den * 2 ^ (a - b) ≤ num * 2 ^ (a - b) / den := by
        rw [Nat.le_div_iff_mul_le hden, Nat.mul_right_comm]
        exact Nat.mul_le_mul_right _ (Nat.div_mul_le_self num den)
      have hhigh : num * 2 ^ (a - b) / den < (num / den + 1) * 2 ^ (a - b) := by
        rw [Nat.div_lt_iff_lt_mul hden, Nat.mul_right_comm]
        exact Nat.mul_lt_mul_of_pos_right (Nat.lt_mul_of_div_lt (Nat.lt_succ_self _) hden)
          (Nat.two_pow_pos _)
      have hne : num * 2 ^ (a - b) / den ≠ 0 :=
        (Nat.lt_of_lt_of_le (Nat.mul_pos hq (Nat.two_pow_pos _)) hlow).ne'
      rw [hcancel, Nat.add_sub_assoc hab, Nat.log2_eq_iff hne, Nat.add_right_comm, Nat.pow_add,
        Nat.pow_add]
      exact ⟨(Nat.mul_le_mul_right _ (Nat.log2_self_le hq.ne')).trans hlow,
        hhigh.trans_le (Nat.mul_le_mul_right _ Nat.lt_log2_self)⟩

/-- The binade of a number of grains. -/
def binadeOf (n : Nat) : Nat := n.log2 - 52

/-- The exponent that is packed is that of the binade. -/
theorem targetExponent_eq (hden : 0 < den) (h : a ≤ b ∨ 0 < num / den) :
    binary64.targetExponent (Float.Model.totalExponent (num / den) ((a : Int) - b - 1074)) =
      binadeOf (num * 2 ^ a / (den * 2 ^ b)) - 1074 := by
  show max (((num / den).log2 : Int) + 1 + ((a : Int) - b - 1074) - 53) (-1074) = _
  rw [binadeOf, log2_scaled hden h]
  omega

theorem pos_of_log2 {q : Nat} (h : 52 ≤ q.log2) : 0 < q := by
  refine Nat.pos_of_ne_zero fun hzero => ?_
  rw [hzero, Nat.log2_zero] at h
  omega

/-- The mantissa of a quotient is shifted to the exponent of its binade, if it is long enough. -/
theorem shiftToTargetExponent_eq (hden : 0 < den) (h : a ≤ b ∨ 52 ≤ (num / den).log2)
    (acc : Accuracy) :
    shiftToTargetExponent binary64 (num / den) ((a : Int) - b - 1074) acc =
      (ExtendedMantissa.ofMantissaAndAccuracy (num / den) acc >>>
          (binadeOf (num * 2 ^ a / (den * 2 ^ b)) + b - a),
        (binadeOf (num * 2 ^ a / (den * 2 ^ b)) : Int) - 1074) := by
  have hq : a ≤ b ∨ 0 < num / den := h.imp_right pos_of_log2
  have hamount : ((binadeOf (num * 2 ^ a / (den * 2 ^ b)) : Int) - 1074 -
      ((a : Int) - b - 1074)).toNat = binadeOf (num * 2 ^ a / (den * 2 ^ b)) + b - a := by
    omega
  show shiftToExponent _ _ acc (binary64.targetExponent _) = _
  rw [targetExponent_eq hden hq]
  simp only [shiftToExponent, hamount]
  refine Prod.ext rfl ?_
  show (a : Int) - b - 1074 + ((binadeOf _ + b - a : Nat) : Int) = _
  rw [binadeOf, log2_scaled hden hq]
  omega

end

/-- A mantissa that was rounded is in its binade, or it is the first of the next one. -/
theorem binadeOf_rounded {r : Nat} (hr : 0 < r) (hplace : r ≤ 2 * perBinade) (b : Nat) :
    r < 2 * perBinade ∧ binadeOf (r * 2 ^ b) ≤ b ∨
      r = 2 * perBinade ∧ binadeOf (r * 2 ^ b) = b + 1 := by
  rw [binadeOf, log2_mul_two_pow hr]
  obtain hbelow | rfl := Nat.lt_or_eq_of_le hplace
  · have : r.log2 < 53 := (Nat.log2_lt hr.ne').mpr hbelow
    exact .inl ⟨hbelow, by omega⟩
  · have : (2 * perBinade).log2 = 53 := Nat.log2_two_pow (n := 53)
    exact .inr ⟨rfl, by omega⟩

theorem roundDiv_mul_right (num den : Nat) {c : Nat} (hc : 0 < c) :
    roundDiv (num * c) (den * c) = roundDiv num den := by
  have hscaled (a b : Nat) : 2 * (a * c) < b * c ↔ 2 * a < b := by
    rw [← Nat.mul_assoc, Nat.mul_lt_mul_right hc]
  have hscaled' (a b : Nat) : a * c < 2 * (b * c) ↔ a < 2 * b := by
    rw [← Nat.mul_assoc, Nat.mul_lt_mul_right hc]
  simp only [roundDiv, Nat.mul_div_mul_right _ _ hc, Nat.mul_mod_mul_right, hscaled, hscaled']

/-- A mantissa with its exponent; without a mantissa it is a zero. -/
def assemble (s : Sign) (m : Nat) (e : Int) : UnpackedFloat :=
  if h : m = 0 then .zero s else .finite s m e (Nat.pos_of_ne_zero h)

theorem rank_assemble (hm : 0 < m) (hbelow : m < 2 * perBinade) (hnormal : b = 0 ∨ perBinade ≤ m) :
    rank ((assemble s m (b - 1074)).pack binary64) = min overflow (b * perBinade + m) := by
  rw [assemble, dif_neg hm.ne']
  exact rank_pack_finite hm hbelow hnormal

/-- A mantissa that was rounded is packed with its rank, also if it is carried into the next
binade. -/
theorem rank_rounded {r : Nat} (hr : 0 < r) (hplace : r ≤ 2 * perBinade)
    (hnormal : b = 0 ∨ perBinade ≤ r) :
    let shifted := shiftToTargetExponent binary64 r (b - 1074) .exact
    rank ((assemble s shifted.1.mantissa shifted.2).pack binary64) =
      min overflow (b * perBinade + r) := by
  have hlong : b ≤ 0 ∨ 52 ≤ (r / 1).log2 := by
    rw [Nat.div_one]
    refine hnormal.imp Nat.le_of_eq fun h => ?_
    exact (Nat.le_log2 hr.ne').mpr h
  have hshifted := shiftToTargetExponent_eq Nat.one_pos hlong .exact
  simp only [Nat.div_one, Nat.pow_zero, Nat.mul_one, Nat.add_zero, Int.natCast_zero,
    Int.sub_zero] at hshifted
  simp only [hshifted, mantissa_shiftRight]
  obtain ⟨hbelow, hkept⟩ | ⟨rfl, hnext⟩ := binadeOf_rounded hr hplace b
  · have hexactPlace : binadeOf (r * 2 ^ b) = b := by
      rw [binadeOf, log2_mul_two_pow hr] at hkept ⊢
      rw [Nat.div_one] at hlong
      omega
    rw [hexactPlace, Nat.sub_self, Nat.pow_zero, Nat.div_one]
    exact rank_assemble hr hbelow hnormal
  · have hhalf : 2 * perBinade / 2 ^ (b + 1 - b) = perBinade := by
      rw [Nat.add_sub_cancel_left]
      rfl
    rw [hnext, hhalf, rank_assemble (by decide) (by decide) (.inr le_rfl)]
    exact congrArg (min overflow) (by ring)

/-- Rounding shifts a mantissa to its exponent, and once more if it was carried over. -/
theorem roundWithAccuracy_eq (s : Sign) (m : Nat) (e : Int) (acc : Accuracy) :
    roundWithAccuracy binary64 s m e acc =
      let first := shiftToTargetExponent binary64 m e acc
      let next := shiftToTargetExponent binary64 first.1.roundedMantissa first.2 .exact
      assemble s next.1.mantissa next.2 := rfl

section

variable {num den a : Nat}

/-- A quotient that is rounded and packed has the nearest rank. -/
theorem rank_roundWithAccuracy (s : Sign) (hden : 0 < den) (h : a ≤ b ∨ 52 ≤ (num / den).log2) :
    rank ((roundWithAccuracy binary64 s (num / den) ((a : Int) - b - 1074)
      (accuracyOfFraction (num % den) den)).pack binary64) =
      nearest (num * 2 ^ a) (den * 2 ^ b) := by
  have hfirst := shiftToTargetExponent_eq hden h (accuracyOfFraction (num % den) den)
  have hcarry : a ≤ binadeOf (num * 2 ^ a / (den * 2 ^ b)) + b := by
    obtain hab | hlog := h
    · omega
    · rw [binadeOf, log2_scaled hden (.inr (pos_of_log2 hlog))]
      omega
  have hnearest : nearest (num * 2 ^ a) (den * 2 ^ b) =
      min overflow (binadeOf (num * 2 ^ a / (den * 2 ^ b)) * perBinade +
        roundDiv (num * 2 ^ a) (den * 2 ^ b * 2 ^ binadeOf (num * 2 ^ a / (den * 2 ^ b)))) := rfl
  obtain ⟨hbelow, hnormal⟩ := binade_spec (q := num * 2 ^ a / (den * 2 ^ b))
  change num * 2 ^ a / (den * 2 ^ b) / 2 ^ binadeOf (num * 2 ^ a / (den * 2 ^ b)) <
    2 * perBinade at hbelow
  change binadeOf (num * 2 ^ a / (den * 2 ^ b)) = 0 ∨ perBinade ≤
    num * 2 ^ a / (den * 2 ^ b) / 2 ^ binadeOf (num * 2 ^ a / (den * 2 ^ b)) at hnormal
  generalize binadeOf (num * 2 ^ a / (den * 2 ^ b)) = β at *
  rw [Nat.div_div_eq_div_mul] at hbelow hnormal
  obtain ⟨hatLeast, hatMost⟩ := roundDiv_bounds (num * 2 ^ a) (den * 2 ^ b * 2 ^ β)
  have hrounded : roundDiv num (den * 2 ^ (β + b - a)) =
      roundDiv (num * 2 ^ a) (den * 2 ^ b * 2 ^ β) := by
    have hsplit : den * 2 ^ (β + b - a) * 2 ^ a = den * 2 ^ b * 2 ^ β := by
      rw [Nat.mul_assoc, ← Nat.pow_add, Nat.sub_add_cancel hcarry, Nat.pow_add]
      ring
    rw [← roundDiv_mul_right num _ (Nat.two_pow_pos a), hsplit]
  rw [hnearest, roundWithAccuracy_eq, hfirst]
  simp only [roundedMantissa_shiftRight num hden, hrounded]
  generalize roundDiv (num * 2 ^ a) (den * 2 ^ b * 2 ^ β) = r at *
  obtain rfl | hpositive := Nat.eq_zero_or_pos r
  · obtain rfl : β = 0 := hnormal.resolve_right (by rw [perBinade_eq]; omega)
    cases s <;> rfl
  · exact rank_rounded hpositive (by omega) (hnormal.imp_right (le_trans · hatLeast))

end

/-- A mantissa that has bits to drop, or none, is rounded to the nearest rank. -/
theorem rank_roundWithAccuracy_exact {c : Nat} (hc : c = 0 ∨ 52 ≤ m.log2) :
    rank ((roundWithAccuracy binary64 s m (c - 1074) .exact).pack binary64) =
      nearest (m * 2 ^ c) 1 := by
  have hlong : c ≤ 0 ∨ 52 ≤ (m / 1).log2 := by
    rw [Nat.div_one]
    exact hc.imp_left Nat.le_of_eq
  have hrounded := rank_roundWithAccuracy s Nat.one_pos hlong
  have hwhole : accuracyOfFraction (m % 1) 1 = .exact := by rw [Nat.mod_one]; rfl
  simpa only [hwhole, Nat.div_one, Nat.pow_zero, Nat.mul_one, Int.natCast_zero, Int.sub_zero]
    using hrounded

theorem rank_round (hm : 0 < m) (c : Nat) :
    rank ((round binary64 s m (c - 1074)).pack binary64) = nearest (m * 2 ^ c) 1 := by
  have htarget : binary64.targetExponent (Float.Model.totalExponent m (c - 1074)) =
      binadeOf (m * 2 ^ c) - 1074 := by
    have hmantissa : 0 < m / 1 := by simpa using hm
    have := targetExponent_eq (a := c) (b := 0) Nat.one_pos (.inr hmantissa)
    simpa only [Nat.div_one, Nat.pow_zero, Nat.mul_one, Int.natCast_zero, Int.sub_zero] using this
  have hbinade : binadeOf (m * 2 ^ c) = m.log2 + c - 52 := by rw [binadeOf, log2_mul_two_pow hm]
  generalize binadeOf (m * 2 ^ c) = b at *
  have hamount : ((c : Int) - 1074 - (b - 1074)).toNat = c - b := by omega
  have hexponent : (c : Int) - 1074 - ((c - b : Nat) : Int) = (min c b : Nat) - 1074 := by omega
  have hgrained : m * 2 ^ (c - b) * 2 ^ min c b = m * 2 ^ c := by
    rw [Nat.mul_assoc, ← Nat.pow_add]
    congr 2
    omega
  have hlong : min c b = 0 ∨ 52 ≤ (m * 2 ^ (c - b)).log2 := by
    rw [log2_mul_two_pow hm]
    omega
  show rank (pack binary64 (
    let decreased := decreaseExponent m (c - 1074)
      (binary64.targetExponent (Float.Model.totalExponent m (c - 1074)))
    roundWithAccuracy binary64 s decreased.1 decreased.2 .exact)) = _
  rw [htarget]
  simp only [decreaseExponent, hamount, hexponent, Nat.shiftLeft_eq]
  rw [rank_roundWithAccuracy_exact hlong, hgrained]

/-- An integer that is rounded and packed has the nearest rank. -/
theorem rank_normalize (z : Int) (c : Nat) (zeroSign : Sign) :
    rank ((UnpackedFloat.normalize binary64 z (c - 1074) zeroSign).pack binary64) =
      nearest (z * 2 ^ c).natAbs 1 := by
  have hgrained : (z * 2 ^ c).natAbs = z.natAbs * 2 ^ c := by
    rw [Int.natAbs_mul, Int.natAbs_pow]
    rfl
  rw [hgrained]
  obtain hnegative | rfl | hpositive := lt_trichotomy z 0
  · have hbranch : UnpackedFloat.normalize binary64 z (c - 1074) zeroSign =
        round binary64 .negative (-z).toNat (c - 1074) := by
      simp only [UnpackedFloat.normalize, compare_lt_iff_lt.mpr hnegative]
    rw [hbranch, rank_round (by omega), show (-z).toNat = z.natAbs by omega]
  · have hbranch : UnpackedFloat.normalize binary64 0 (c - 1074) zeroSign = .zero zeroSign := rfl
    rw [hbranch, Int.natAbs_zero, Nat.zero_mul]
    cases zeroSign <;> rfl
  · have hbranch : UnpackedFloat.normalize binary64 z (c - 1074) zeroSign =
        round binary64 .positive z.toNat (c - 1074) := by
      simp only [UnpackedFloat.normalize, compare_gt_iff_gt.mpr hpositive]
    rw [hbranch, rank_round (by omega), show z.toNat = z.natAbs by omega]

end PocketCalculator.Magnitude
