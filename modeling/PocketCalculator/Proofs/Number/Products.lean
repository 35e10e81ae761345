import PocketCalculator.Proofs.Number.Undefined

/-!
# Products and quotients of doubles

The product of two finite doubles is their exact product, rounded to the nearest double, and so is
their quotient.  `RoundsTo` says this of a double and an exact quotient of grains, with the sign,
and it holds of sums as well.

* `rank_mul` and `rank_div`: what is packed, by the cases of the unpacked operands.
* `roundsTo_add`, `roundsTo_sub`, `roundsTo_mul`, `roundsTo_div`: the operations on finite doubles.
* `inf_mul`, `inf_mul_inf` and `inf_mul_zero`: an infinite factor.
-/

namespace PocketCalculator

open Float.Model (UnpackedFloat)
open Float.Model.UnpackedFloat Float.Model.Format

namespace Magnitude

/-! ## Quotients in other terms -/

section

variable {num den num' den' : Nat}

/-- The same multiple of both denominators is on the same side of twice the numerator. -/
theorem le_two_mul_iff (hden : 0 < den) (hden' : 0 < den') (h : num * den' = num' * den)
    (g : Nat) : g * den ≤ 2 * num ↔ g * den' ≤ 2 * num' := by
  calc g * den ≤ 2 * num
    _ ↔ g * den * den' ≤ 2 * num * den' := (Nat.mul_le_mul_right_iff hden').symm
    _ ↔ g * den' * den ≤ 2 * num' * den := by
      rw [Nat.mul_right_comm g, Nat.mul_assoc 2, Nat.mul_assoc 2, h]
    _ ↔ g * den' ≤ 2 * num' := Nat.mul_le_mul_right_iff hden

theorem two_mul_le_iff (hden : 0 < den) (hden' : 0 < den') (h : num * den' = num' * den)
    (g : Nat) : 2 * num ≤ g * den ↔ 2 * num' ≤ g * den' := by
  calc 2 * num ≤ g * den
    _ ↔ 2 * num * den' ≤ g * den * den' := (Nat.mul_le_mul_right_iff hden').symm
    _ ↔ 2 * num' * den ≤ g * den' * den := by
      rw [Nat.mul_right_comm g, Nat.mul_assoc 2, Nat.mul_assoc 2, h]
    _ ↔ 2 * num' ≤ g * den' := Nat.mul_le_mul_right_iff hden

/-- What a quotient rounds to does not depend on its terms. -/
theorem Rounds.of_mul_eq (hden : 0 < den) (hden' : 0 < den') (h : num * den' = num' * den)
    {k : Nat} (hk : Rounds num den k) : Rounds num' den' k := by
  have hlow := le_two_mul_iff hden hden' h
  have hhigh := two_mul_le_iff hden hden' h
  refine ⟨(hlow _).mp hk.low, (hhigh _).mp hk.high, fun htie => hk.even (htie.imp ?_ ?_)⟩
  · intro hsame
    exact Nat.le_antisymm ((hlow _).mpr hsame.le) ((hhigh _).mpr hsame.ge)
  · intro hsame
    exact Nat.le_antisymm ((hhigh _).mpr hsame.le) ((hlow _).mpr hsame.ge)

theorem nearest_of_mul_eq (hden : 0 < den) (hden' : 0 < den') (h : num * den' = num' * den) :
    nearest num den = nearest num' den' := by
  obtain ⟨k, hnearest, hk⟩ := rounds_nearest num hden
  obtain ⟨k', hnearest', hk'⟩ := rounds_nearest num' hden'
  rw [hnearest, hnearest', (hk.of_mul_eq hden hden' h).unique hden' hk']

theorem nearest_zero (hden : 0 < den) : nearest 0 den = 0 := by
  have hsame : 0 * 1 = 0 * den := (Nat.zero_mul den).symm
  rw [nearest_of_mul_eq hden Nat.one_pos hsame]
  rfl

end

theorem one_eq : one = 2 ^ 1074 := by decide +kernel

theorem pos_one : 0 < one := by
  rw [one_eq]
  positivity

/-! ## Signs -/

/-- The sign of an unpacked number. -/
def sign? : UnpackedFloat → Option Sign
  | .infinity s | .zero s | .finite s _ _ _ => some s
  | .notANumber => none

variable {u v : UnpackedFloat} {s s' : Sign} {x y : Float}

/-- The sign is packed as it is. -/
theorem exists_fields_pack (h : sign? u = some s) : ∃ e m, u.pack binary64 = fields s e m := by
  cases u with
  | notANumber => cases h
  | infinity s' =>
    obtain rfl := Option.some.inj h
    exact ⟨_, _, rfl⟩
  | zero s' =>
    obtain rfl := Option.some.inj h
    exact ⟨_, _, rfl⟩
  | finite s' m e hm =>
    obtain rfl := Option.some.inj h
    simp only [pack]
    split_ifs
    · exact ⟨_, _, rfl⟩
    · exact ⟨_, _, rfl⟩
    · exact ⟨_, _, rfl⟩

theorem isNegative_of_pack (hx : x.toBits.toBitVec = u.pack binary64) (h : sign? u = some s) :
    isNegative x = true ↔ s = .negative := by
  obtain ⟨e, m, hpacked⟩ := exists_fields_pack h
  exact isNegative_of_fields (hx.trans hpacked)

theorem sign?_unpack (h : sign? (unpack binary64 x.toBits.toBitVec) = some s) :
    isNegative x = true ↔ s = .negative :=
  isNegative_of_pack (pack_unpack x).symm h

theorem exists_sign? (hu : Canonical u) : ∃ s, sign? u = some s := by
  obtain ⟨s, rfl⟩ | ⟨s, _, _, _, rfl, -⟩ := hu.kinds <;> exact ⟨s, rfl⟩

theorem sign?_roundWithAccuracy (s : Sign) (m : Nat) (e : Int) (acc : Accuracy) :
    sign? (roundWithAccuracy binary64 s m e acc) = some s := by
  rw [roundWithAccuracy_eq]
  simp only [assemble]
  split
  · rfl
  · rfl

theorem sign?_round (s : Sign) (m : Nat) (e : Int) :
    sign? (round binary64 s m e) = some s :=
  sign?_roundWithAccuracy s _ _ .exact

theorem sign?_mul (hu : Canonical u) (hv : Canonical v) (h : sign? u = some s)
    (h' : sign? v = some s') : sign? (mul binary64 u v) = some (s * s') := by
  obtain ⟨_, rfl⟩ | ⟨_, _, _, _, rfl, -⟩ := hu.kinds
  · obtain rfl := Option.some.inj h
    obtain ⟨_, rfl⟩ | ⟨_, _, _, _, rfl, -⟩ := hv.kinds
    · obtain rfl := Option.some.inj h'
      rfl
    · obtain rfl := Option.some.inj h'
      rfl
  · obtain rfl := Option.some.inj h
    obtain ⟨_, rfl⟩ | ⟨_, _, _, _, rfl, -⟩ := hv.kinds
    · obtain rfl := Option.some.inj h'
      rfl
    · obtain rfl := Option.some.inj h'
      exact sign?_roundWithAccuracy _ _ _ _

/-- A quotient has the sign of the product, unless the divisor is zero. -/
theorem sign?_div (hu : Canonical u) (hv : Canonical v) (hne : worth v ≠ 0)
    (h : sign? u = some s) (h' : sign? v = some s') :
    sign? (div binary64 u v) = some (s * s') := by
  have hproduct : s / s' = s * s' := by cases s <;> cases s' <;> rfl
  rw [← hproduct]
  obtain ⟨_, rfl⟩ | ⟨_, _, _, _, rfl, -⟩ := hv.kinds
  · exact absurd rfl hne
  · obtain rfl := Option.some.inj h'
    obtain ⟨_, rfl⟩ | ⟨_, _, _, _, rfl, -⟩ := hu.kinds
    · obtain rfl := Option.some.inj h
      rfl
    · obtain rfl := Option.some.inj h
      exact sign?_roundWithAccuracy _ _ _ _

/-! ## Ranks -/

theorem natAbs_worth_finite (s : Sign) {m : Nat} (c : Nat) (hm : 0 < m) :
    (worth (.finite s m (c - 1074) hm)).natAbs = m * 2 ^ c := by
  rw [worth_place, natAbs_apply]

/-- The product of two unpacked numbers is their exact product, rounded. -/
theorem rank_mul (hu : Canonical u) (hv : Canonical v) :
    rank ((mul binary64 u v).pack binary64) =
      nearest ((worth u).natAbs * (worth v).natAbs) one := by
  have hzero (s : Sign) : rank ((UnpackedFloat.zero s).pack binary64) = nearest 0 one := by
    rw [nearest_zero pos_one]
    cases s <;> rfl
  obtain ⟨s, rfl⟩ | ⟨s, m, hm, c, rfl, -, hnormal⟩ := hu.kinds
  · rw [worth_zero, Int.natAbs_zero, Nat.zero_mul]
    obtain ⟨s', rfl⟩ | ⟨s', _, _, _, rfl, -⟩ := hv.kinds <;> exact hzero (s * s')
  · obtain ⟨s', rfl⟩ | ⟨s', m', hm', c', rfl, -, hnormal'⟩ := hv.kinds
    · rw [worth_zero, Int.natAbs_zero, Nat.mul_zero]
      exact hzero (s * s')
    · -- A product above the lowest binade has at least the places of a full mantissa.
      have hlong : c + c' ≤ 1074 ∨ 52 ≤ (m * m' / 1).log2 := by
        rw [Nat.div_one, Nat.le_log2 (Nat.mul_pos hm hm').ne']
        refine or_iff_not_imp_left.mpr fun hhigh => ?_
        obtain hc | hc : 0 < c ∨ 0 < c' := by omega
        · have hfull : perBinade ≤ m := hnormal.resolve_left (by omega)
          exact hfull.trans (Nat.le_mul_of_pos_right m hm')
        · have hfull : perBinade ≤ m' := hnormal'.resolve_left (by omega)
          exact hfull.trans (Nat.le_mul_of_pos_left m' hm)
      have hrounded := rank_roundWithAccuracy (s * s') Nat.one_pos hlong
      have hwhole : accuracyOfFraction (m * m' % 1) 1 = .exact := by rw [Nat.mod_one]; rfl
      have hexponent : ((c + c' : Nat) : Int) - (1074 : Nat) - 1074 =
          (c : Int) - 1074 + (c' - 1074) := by omega
      have hgrained : m * m' * 2 ^ (c + c') = m * 2 ^ c * (m' * 2 ^ c') := by
        rw [Nat.pow_add]
        ring
      rw [hwhole, Nat.div_one, hexponent, hgrained, Nat.one_mul, ← one_eq] at hrounded
      rw [natAbs_worth_finite, natAbs_worth_finite]
      exact hrounded

/-- Before the mantissas are divided, the left one is shifted so far that the quotient has the
places of a full mantissa, unless it is in the lowest binade. -/
theorem divCore_spec {m m' : Nat} (hm : 0 < m) (hm' : 0 < m') (c c' : Nat) :
    ∃ k a b : Nat, divCore binary64 m (c - 1074) m' (c' - 1074) =
        (m * 2 ^ k / m', (a : Int) - b - 1074, accuracyOfFraction (m * 2 ^ k % m') m') ∧
      k + a + c' = c + 1074 + b ∧ (a ≤ b ∨ 52 ≤ (m * 2 ^ k / m').log2) := by
  obtain ⟨target, htarget⟩ : ∃ target : Int, target = min ((c : Int) - 1074 - (c' - 1074))
      (binary64.targetExponent (Float.Model.totalExponent m (c - 1074) -
        Float.Model.totalExponent m' (c' - 1074))) := ⟨_, rfl⟩
  have hselected : binary64.targetExponent (Float.Model.totalExponent m (c - 1074) -
      Float.Model.totalExponent m' (c' - 1074)) =
      max ((m.log2 : Int) + 1 + (c - 1074) - (m'.log2 + 1 + (c' - 1074)) - 53) (-1074) := rfl
  refine ⟨((c : Int) - 1074 - (c' - 1074) - target).toNat, (target + 1074).toNat,
    (-(target + 1074)).toNat, ?_, by omega, ?_⟩
  · have hexponent : ((target + 1074).toNat : Int) - (-(target + 1074)).toNat - 1074 = target := by
      omega
    rw [hexponent, divCore, ← htarget, Nat.shiftLeft_eq]
  · refine or_iff_not_imp_left.mpr fun hhigh => ?_
    generalize hk : ((c : Int) - 1074 - (c' - 1074) - target).toNat = k
    have henough : 53 + m'.log2 ≤ m.log2 + k := by omega
    have hlarge : m' * 2 ^ 52 ≤ m * 2 ^ k := by
      calc m' * 2 ^ 52 ≤ 2 ^ (m'.log2 + 1) * 2 ^ 52 := Nat.mul_le_mul_right _ Nat.lt_log2_self.le
        _ = 2 ^ (53 + m'.log2) := by rw [← Nat.pow_add]; congr 1; omega
        _ ≤ 2 ^ (m.log2 + k) := Nat.pow_le_pow_right (by decide) henough
        _ = 2 ^ m.log2 * 2 ^ k := Nat.pow_add 2 _ _
        _ ≤ m * 2 ^ k := Nat.mul_le_mul_right _ (Nat.log2_self_le hm.ne')
    have hfull : 2 ^ 52 ≤ m * 2 ^ k / m' := by
      rw [Nat.le_div_iff_mul_le hm', Nat.mul_comm]
      exact hlarge
    exact (Nat.le_log2 (Nat.lt_of_lt_of_le (Nat.two_pow_pos 52) hfull).ne').mpr hfull

/-- The quotient of two unpacked numbers is their exact quotient, rounded. -/
theorem rank_div (hu : Canonical u) (hv : Canonical v) (hne : worth v ≠ 0) :
    rank ((div binary64 u v).pack binary64) =
      nearest ((worth u).natAbs * one) (worth v).natAbs := by
  obtain ⟨_, rfl⟩ | ⟨s', m', hm', c', rfl, -⟩ := hv.kinds
  · exact absurd rfl hne
  · have hpositive : 0 < m' * 2 ^ c' := Nat.mul_pos hm' (Nat.two_pow_pos c')
    rw [natAbs_worth_finite]
    obtain ⟨s, rfl⟩ | ⟨s, m, hm, c, rfl, -⟩ := hu.kinds
    · have hpacked : rank ((UnpackedFloat.zero (s / s')).pack binary64) = 0 := by
        cases s <;> cases s' <;> rfl
      rw [worth_zero, Int.natAbs_zero, Nat.zero_mul, nearest_zero hpositive]
      exact hpacked
    · obtain ⟨k, a, b, hcore, hplaces, hlong⟩ := divCore_spec hm hm' c c'
      have hterms : m * 2 ^ k * 2 ^ a * (m' * 2 ^ c') =
          m * 2 ^ c * one * (m' * 2 ^ b) := by
        have hpowers : 2 ^ k * 2 ^ a * 2 ^ c' = 2 ^ c * one * 2 ^ b := by
          rw [← Nat.pow_add, ← Nat.pow_add, hplaces, Nat.pow_add, Nat.pow_add]
          exact congrArg (2 ^ c * · * 2 ^ b) one_eq.symm
        calc m * 2 ^ k * 2 ^ a * (m' * 2 ^ c') = m * m' * (2 ^ k * 2 ^ a * 2 ^ c') := by ring
          _ = m * m' * (2 ^ c * one * 2 ^ b) := by rw [hpowers]
          _ = m * 2 ^ c * one * (m' * 2 ^ b) := by ring
      rw [natAbs_worth_finite, ← nearest_of_mul_eq (Nat.mul_pos hm' (Nat.two_pow_pos b)) hpositive
        hterms, ← rank_roundWithAccuracy (s / s') hm' hlong]
      simp only [div, hcore]

/-! ## Doubles -/

/-- Whether a double is what the exact quotient of `z` and `den` grains is rounded to.  If that
is zero, the sign is left open. -/
structure RoundsTo (x : Float) (z : Int) (den : Nat) : Prop where
  rank : ofFloat x = nearest z.natAbs den
  sign : z ≠ 0 → (isNegative x = true ↔ z < 0)

/-- The sign of what is not zero. -/
theorem worth_neg_iff (h : sign? u = some s) (hne : worth u ≠ 0) : worth u < 0 ↔ s = .negative := by
  cases u with
  | infinity _ | notANumber | zero _ => exact absurd rfl hne
  | finite s' m e hm =>
    obtain rfl := Option.some.inj h
    have hmagnitude := natAbs_apply s' (m * 2 ^ (e + 1074).toNat)
    change (worth (.finite s' m e hm)).natAbs = _ at hmagnitude
    cases s' with
    | negative =>
      have : worth (.finite .negative m e hm) = -((m * 2 ^ (e + 1074).toNat : Nat) : Int) := rfl
      exact iff_of_true (by omega) rfl
    | positive =>
      have : worth (.finite .positive m e hm) = ((m * 2 ^ (e + 1074).toNat : Nat) : Int) := rfl
      exact iff_of_false (by omega) positive_ne_negative

theorem mul_neg_iff_sign {a b : Int} (ha : a ≠ 0) (hb : b ≠ 0) (h : a < 0 ↔ s = .negative)
    (h' : b < 0 ↔ s' = .negative) : a * b < 0 ↔ s * s' = .negative := by
  rw [mul_neg_iff]
  cases s with
  | negative =>
    have : a < 0 := h.mpr rfl
    cases s' with
    | negative =>
      have : b < 0 := h'.mpr rfl
      exact iff_of_false (by omega) positive_ne_negative
    | positive =>
      have : ¬b < 0 := h'.not.mpr positive_ne_negative
      exact iff_of_true (.inr ⟨by omega, by omega⟩) rfl
  | positive =>
    have : ¬a < 0 := h.not.mpr positive_ne_negative
    cases s' with
    | negative =>
      have : b < 0 := h'.mpr rfl
      exact iff_of_true (.inl ⟨by omega, by omega⟩) rfl
    | positive =>
      have : ¬b < 0 := h'.not.mpr positive_ne_negative
      exact iff_of_false (by omega) positive_ne_negative

theorem sign?_normalize {z : Int} (hz : z ≠ 0) (e : Int) (zeroSign : Sign) :
    ∃ s, sign? (UnpackedFloat.normalize binary64 z e zeroSign) = some s ∧
      (z < 0 ↔ s = .negative) := by
  obtain hnegative | hpositive := Int.lt_or_gt_of_ne hz
  · refine ⟨.negative, ?_, iff_of_true hnegative rfl⟩
    simp only [UnpackedFloat.normalize, compare_lt_iff_lt.mpr hnegative, sign?_round]
  · refine ⟨.positive, ?_, iff_of_false (by omega) positive_ne_negative⟩
    simp only [UnpackedFloat.normalize, compare_gt_iff_gt.mpr hpositive, sign?_round]

theorem sign?_add (hu : Canonical u) (hv : Canonical v) (hne : worth u + worth v ≠ 0) :
    ∃ s, sign? (add binary64 u v) = some s ∧ (worth u + worth v < 0 ↔ s = .negative) := by
  obtain ⟨s, rfl⟩ | ⟨s, m, hm, c, rfl, -⟩ := hu.kinds
  · rw [worth_zero, Int.zero_add] at hne ⊢
    obtain ⟨_, rfl⟩ | ⟨s', _, _, _, rfl, -⟩ := hv.kinds
    · exact absurd rfl hne
    · exact ⟨s', rfl, worth_neg_iff rfl hne⟩
  · obtain ⟨_, rfl⟩ | ⟨s', m', hm', c', rfl, -⟩ := hv.kinds
    · rw [worth_zero, Int.add_zero] at hne ⊢
      exact ⟨s, rfl, worth_neg_iff rfl hne⟩
    · obtain ⟨z, least, hadded, hsum⟩ := exists_add_finite s s' hm hm' c c'
      have hz : z ≠ 0 := by
        rintro rfl
        exact hne (by rw [← hsum, Int.zero_mul])
      obtain ⟨s, hs, hsign⟩ := sign?_normalize hz (least - 1074) .positive
      refine ⟨s, hadded ▸ hs, ?_⟩
      have hpositive : (0 : Int) < 2 ^ least := by positivity
      rw [← hsum, ← hsign, mul_neg_iff]
      omega

theorem roundsTo_packed_add (hx : x.toBits.toBitVec = (add binary64 u v).pack binary64)
    (hu : Canonical u) (hv : Canonical v) : RoundsTo x (worth u + worth v) 1 where
  rank := by rw [← rank_add hu hv, ← hx]; rfl
  sign := by
    intro hne
    obtain ⟨s, hs, hsign⟩ := sign?_add hu hv hne
    rw [isNegative_of_pack hx hs, hsign]

theorem roundsTo_add (hx : x.isFinite = true) (hy : y.isFinite = true) :
    RoundsTo (x + y) (signedGrains x + signedGrains y) 1 := by
  obtain ⟨hcanonical, hgrained⟩ := unpack_spec hx
  obtain ⟨hcanonical', hgrained'⟩ := unpack_spec hy
  rw [← hgrained, ← hgrained']
  exact roundsTo_packed_add rfl hcanonical hcanonical'

theorem roundsTo_sub (hx : x.isFinite = true) (hy : y.isFinite = true) :
    RoundsTo (x - y) (signedGrains x - signedGrains y) 1 := by
  obtain ⟨hcanonical, hgrained⟩ := unpack_spec hx
  obtain ⟨hcanonical', hgrained'⟩ := unpack_spec hy
  rw [← hgrained, ← hgrained', Int.sub_eq_add_neg, ← worth_neg]
  refine roundsTo_packed_add ?_ hcanonical (canonical_neg hcanonical')
  rw [← sub_eq_add_neg]
  rfl

theorem roundsTo_mul (hx : x.isFinite = true) (hy : y.isFinite = true) :
    RoundsTo (x * y) (signedGrains x * signedGrains y) one := by
  obtain ⟨hcanonical, hgrained⟩ := unpack_spec hx
  obtain ⟨hcanonical', hgrained'⟩ := unpack_spec hy
  rw [← hgrained, ← hgrained']
  constructor
  · rw [Int.natAbs_mul]
    exact rank_mul hcanonical hcanonical'
  · intro hne
    have ha := left_ne_zero_of_mul hne
    have hb := right_ne_zero_of_mul hne
    obtain ⟨s, hs⟩ := exists_sign? hcanonical
    obtain ⟨s', hs'⟩ := exists_sign? hcanonical'
    rw [mul_neg_iff_sign ha hb (worth_neg_iff hs ha) (worth_neg_iff hs' hb)]
    exact isNegative_of_pack rfl (sign?_mul hcanonical hcanonical' hs hs')

theorem roundsTo_div (hx : x.isFinite = true) (hy : y.isFinite = true)
    (hne : signedGrains y ≠ 0) :
    RoundsTo (x / y) (signedGrains x * (signedGrains y).sign * one) (signedGrains y).natAbs := by
  obtain ⟨hcanonical, hgrained⟩ := unpack_spec hx
  obtain ⟨hcanonical', hgrained'⟩ := unpack_spec hy
  rw [← hgrained'] at hne
  rw [← hgrained, ← hgrained']
  constructor
  · have hmagnitude : ∀ a b : Int, b ≠ 0 → (a * b.sign * one).natAbs = a.natAbs * one := by
      intro a b hb
      rw [Int.natAbs_mul, Int.natAbs_mul, Int.natAbs_sign_of_ne_zero hb, Nat.mul_one,
        Int.natAbs_natCast]
    rw [hmagnitude _ _ hne]
    exact rank_div hcanonical hcanonical' hne
  · intro hproduct
    have ha := left_ne_zero_of_mul (left_ne_zero_of_mul hproduct)
    obtain ⟨s, hs⟩ := exists_sign? hcanonical
    obtain ⟨s', hs'⟩ := exists_sign? hcanonical'
    have hpositive : (0 : Int) < one := Int.natCast_pos.mpr pos_one
    have hsign : (worth (unpack binary64 y.toBits.toBitVec)).sign < 0 ↔ s' = .negative := by
      rw [Int.sign_neg_iff, worth_neg_iff hs' hne]
    have hscaled (z : Int) : z * one < 0 ↔ z < 0 := by
      rw [mul_neg_iff]
      omega
    rw [hscaled, mul_neg_iff_sign ha (mt Int.sign_eq_zero_iff_zero.mp hne) (worth_neg_iff hs ha)
      hsign]
    exact isNegative_of_pack rfl (sign?_div hcanonical hcanonical' hne hs hs')

/-- A finite double is what it is rounded to. -/
theorem roundsTo_itself (hx : x.isFinite = true) : RoundsTo x (signedGrains x) 1 := by
  obtain ⟨hcanonical, hgrained⟩ := unpack_spec hx
  rw [← hgrained]
  constructor
  · rw [← rank_pack hcanonical, pack_unpack]
    rfl
  · intro hne
    obtain ⟨s, hs⟩ := exists_sign? hcanonical
    rw [sign?_unpack hs, worth_neg_iff hs hne]

theorem roundsTo_neg (hx : x.isFinite = true) : RoundsTo (-x) (-signedGrains x) 1 := by
  obtain ⟨hcanonical, hgrained⟩ := unpack_spec hx
  rw [← hgrained, ← worth_neg]
  constructor
  · exact rank_pack (canonical_neg hcanonical)
  · intro hne
    obtain ⟨s, hs⟩ := exists_sign? (canonical_neg hcanonical)
    rw [worth_neg_iff hs hne]
    exact isNegative_of_pack rfl hs

/-! ## Infinite factors -/

theorem inf_eq : Float.inf = toFloat overflow := rfl

theorem unpack_inf : unpack binary64 Float.inf.toBits.toBitVec = .infinity .positive := rfl

/-- There is one number without a minus that is not finite. -/
theorem eq_inf (hx : x.isFinite = false) (hnumber : x.isNaN = false)
    (hpositive : isNegative x = false) : x = Float.inf := by
  obtain ⟨s, hs⟩ := unpack_of_infinite hx hnumber
  have hsign := sign?_unpack (congrArg sign? hs)
  rw [hpositive] at hsign
  cases s with
  | negative => exact absurd (hsign.mpr rfl) Bool.false_ne_true
  | positive =>
    apply ext_bits
    rw [← pack_unpack x, ← pack_unpack Float.inf, hs, unpack_inf]

theorem inf_mul_packed {m : Nat} {e : Int} {hm : 0 < m}
    (hy : unpack binary64 y.toBits.toBitVec = .finite .positive m e hm) :
    Float.inf * y = Float.inf ∧ y * Float.inf = Float.inf := by
  constructor
  · apply ext_bits
    show (mul binary64 (unpack binary64 Float.inf.toBits.toBitVec)
      (unpack binary64 y.toBits.toBitVec)).pack binary64 = _
    rw [← pack_unpack Float.inf, unpack_inf, hy]
    rfl
  · apply ext_bits
    show (mul binary64 (unpack binary64 y.toBits.toBitVec)
      (unpack binary64 Float.inf.toBits.toBitVec)).pack binary64 = _
    rw [← pack_unpack Float.inf, unpack_inf, hy]
    rfl

/-- An infinite factor beside a finite one above zero. -/
theorem inf_mul (hy : y.isFinite = true) (hpositive : 0 < signedGrains y) :
    Float.inf * y = Float.inf ∧ y * Float.inf = Float.inf := by
  obtain ⟨hcanonical, hgrained⟩ := unpack_spec hy
  cases h : unpack binary64 y.toBits.toBitVec with
  | infinity _ | notANumber =>
    rw [h] at hcanonical
    exact hcanonical.elim
  | zero s =>
    rw [h] at hgrained
    have hnone : worth (.zero s) = 0 := rfl
    omega
  | finite s m e hm =>
    rw [h] at hgrained
    have hsign := worth_neg_iff (u := .finite s m e hm) rfl (by omega)
    cases s with
    | negative => exact absurd (hsign.mpr rfl) (by omega)
    | positive => exact inf_mul_packed h

/-- An infinite factor beside a zero. -/
theorem inf_mul_zero (hy : (y == 0) = true) : Float.inf * y = Float.nan := by
  obtain rfl | rfl := eq_zero_or_neg_zero hy
  · rfl
  · rfl

end Magnitude

end PocketCalculator
