import PocketCalculator.Proofs.Number.Sums

/-!
# The two zeros

There are two doubles that are equal to zero, and the one with a minus behaves as nothing in a
sum, while the other one takes the minus away from it.  A sum is the zero with a minus only if
both terms are.

* `eq_zero_or_neg_zero`: what is equal to zero.
* `add_of_zero` and `sub_of_zero`: a zero changes nothing but the zero with a minus.
* `add_ne_neg_zero` and `sub_ne_neg_zero`: nothing becomes the zero with a minus by a sum.
* `sub_itself`: a finite double without itself is zero.
-/

namespace PocketCalculator

open Float.Model (UnpackedFloat)
open Float.Model.UnpackedFloat Float.Model.Format

namespace Magnitude

variable {x y : Float} {u v : UnpackedFloat}

/-! ## Unpacked zeros -/

/-- The bits of the zero with a minus. -/
theorem pack_zero_negative :
    (UnpackedFloat.zero .negative).pack binary64 = (-0 : Float).toBits.toBitVec := rfl

theorem ext_bits (h : x.toBits.toBitVec = y.toBits.toBitVec) : x = y :=
  Float.toBits_inj.mp (UInt64.toBitVec_inj.mp h)

/-- Only the zero with a minus is unpacked to it. -/
theorem unpack_ne (hx : x ≠ -0) : unpack binary64 x.toBits.toBitVec ≠ .zero .negative := by
  intro h
  apply hx
  apply ext_bits
  rw [← pack_unpack, h, pack_zero_negative]

/-- What is equal to zero is one of the two zeros. -/
theorem eq_zero_or_neg_zero (hx : (x == 0) = true) : x = 0 ∨ x = -0 := by
  obtain ⟨-, -, rfl | ⟨rfl, -⟩ | ⟨rfl, -⟩⟩ := Float.beq_iff_ne_nan_and_eq.mp hx
  · exact .inl rfl
  · exact .inl rfl
  · exact .inr rfl

theorem unpack_zero (hx : (x == 0) = true) :
    ∃ s, unpack binary64 x.toBits.toBitVec = .zero s := by
  obtain rfl | rfl := eq_zero_or_neg_zero hx
  · exact ⟨.positive, rfl⟩
  · exact ⟨.negative, rfl⟩

/-! ## A zero as a term -/

theorem add_zero_unpacked (hu : u ≠ .zero .negative) (s : Sign) :
    add binary64 u (.zero s) = u := by
  cases u with
  | zero s' =>
    cases s' with
    | negative => exact absurd rfl hu
    | positive => cases s <;> rfl
  | finite | infinity | notANumber => rfl

/-- Adding a zero changes nothing but the zero with a minus. -/
theorem add_of_zero (hx : x ≠ -0) (hy : (y == 0) = true) : x + y = x := by
  obtain ⟨s, hzero⟩ := unpack_zero hy
  apply ext_bits
  show (add binary64 (unpack binary64 x.toBits.toBitVec)
    (unpack binary64 y.toBits.toBitVec)).pack binary64 = _
  rw [hzero, add_zero_unpacked (unpack_ne hx), pack_unpack]

theorem sub_of_zero (hx : x ≠ -0) (hy : (y == 0) = true) : x - y = x := by
  obtain ⟨s, hzero⟩ := unpack_zero hy
  apply ext_bits
  show (sub binary64 (unpack binary64 x.toBits.toBitVec)
    (unpack binary64 y.toBits.toBitVec)).pack binary64 = _
  rw [sub_eq_add_neg, hzero]
  show (add binary64 _ (.zero (-s))).pack binary64 = _
  rw [add_zero_unpacked (unpack_ne hx), pack_unpack]

/-! ## Sums that are zero -/

/-- Only nothing is rounded to zero. -/
theorem eq_zero_of_nearest {n : Nat} (h : nearest n 1 = 0) : n = 0 := by
  obtain ⟨k, hnearest, hrounds⟩ := rounds_nearest n Nat.one_pos
  have hlowest : k = 0 := by
    have : 0 < overflow := by decide
    omega
  subst hlowest
  have hhigh : 2 * n ≤ (grains 0 + grains 1) * 1 := hrounds.high
  have hfirst : grains 0 + grains 1 = 1 := by decide
  omega

theorem worth_ne_zero {s : Sign} {m : Nat} {e : Int} (hm : 0 < m) :
    worth (.finite s m e hm) ≠ 0 := by
  have hmagnitude : (worth (.finite s m e hm)).natAbs = m * 2 ^ (e + 1074).toNat :=
    natAbs_apply s _
  have hpositive : 0 < m * 2 ^ (e + 1074).toNat := Nat.mul_pos hm (Nat.two_pow_pos _)
  omega

/-- An exact sum of zero is the zero without a minus. -/
theorem add_eq_zero (hu : Canonical u) (hv : Canonical v) (hne : u ≠ .zero .negative)
    (hsum : worth u + worth v = 0) : add binary64 u v = .zero .positive := by
  obtain ⟨s, rfl⟩ | ⟨s, m, hm, c, rfl, -⟩ := hu.kinds
  · obtain ⟨s', rfl⟩ | ⟨s', m', hm', c', rfl, -⟩ := hv.kinds
    · cases s with
      | negative => exact absurd rfl hne
      | positive => cases s' <;> rfl
    · rw [worth_zero, Int.zero_add] at hsum
      exact absurd hsum (worth_ne_zero hm')
  · obtain ⟨s', rfl⟩ | ⟨s', m', hm', c', rfl, -⟩ := hv.kinds
    · rw [worth_zero, Int.add_zero] at hsum
      exact absurd hsum (worth_ne_zero hm)
    · -- The sum is exact on the finer of the two grids, before it is rounded.
      obtain ⟨z, least, hadded, hexactSum⟩ := exists_add_finite s s' hm hm' c c'
      have hnone : z = 0 := by
        rw [hsum, Int.mul_eq_zero] at hexactSum
        exact hexactSum.resolve_right (by positivity)
      rw [hadded, hnone]
      rfl

/-- A sum of finite doubles is zero without a minus, if the exact sum is zero. -/
theorem add_of_grains (hx : x.isFinite = true) (hy : y.isFinite = true) (hne : x ≠ -0)
    (hsum : signedGrains x + signedGrains y = 0) : x + y = 0 := by
  obtain ⟨hcanonical, hgrained⟩ := unpack_spec hx
  obtain ⟨hcanonical', hgrained'⟩ := unpack_spec hy
  rw [← hgrained, ← hgrained'] at hsum
  apply ext_bits
  show (add binary64 (unpack binary64 x.toBits.toBitVec)
    (unpack binary64 y.toBits.toBitVec)).pack binary64 = _
  rw [add_eq_zero hcanonical hcanonical' (unpack_ne hne) hsum]
  rfl

theorem sub_of_grains (hx : x.isFinite = true) (hy : y.isFinite = true) (hne : x ≠ -0)
    (hdifference : signedGrains x - signedGrains y = 0) : x - y = 0 := by
  obtain ⟨hcanonical, hgrained⟩ := unpack_spec hx
  obtain ⟨hcanonical', hgrained'⟩ := unpack_spec hy
  rw [← hgrained, ← hgrained', Int.sub_eq_add_neg, ← worth_neg] at hdifference
  apply ext_bits
  show (sub binary64 (unpack binary64 x.toBits.toBitVec)
    (unpack binary64 y.toBits.toBitVec)).pack binary64 = _
  rw [sub_eq_add_neg,
    add_eq_zero hcanonical (canonical_neg hcanonical') (unpack_ne hne) hdifference]
  rfl

/-- A finite double without itself is zero. -/
theorem sub_itself (hx : x.isFinite = true) (hne : x ≠ -0) : x - x = 0 :=
  sub_of_grains hx hx hne (Int.sub_self _)

theorem ofFloat_neg_zero : ofFloat (-0) = 0 := by decide

theorem zero_ne_neg_zero : (0 : Float) ≠ -0 := by decide

/-- No sum becomes the zero with a minus. -/
theorem add_ne_neg_zero (hx : x.isFinite = true) (hy : y.isFinite = true) (hne : x ≠ -0) :
    x + y ≠ -0 := by
  intro hsame
  have hrounded := ofFloat_add hx hy
  rw [hsame, ofFloat_neg_zero] at hrounded
  have hsum : signedGrains x + signedGrains y = 0 :=
    Int.natAbs_eq_zero.mp (eq_zero_of_nearest hrounded.symm)
  rw [add_of_grains hx hy hne hsum] at hsame
  exact zero_ne_neg_zero hsame

theorem sub_ne_neg_zero (hx : x.isFinite = true) (hy : y.isFinite = true) (hne : x ≠ -0) :
    x - y ≠ -0 := by
  intro hsame
  have hrounded := ofFloat_sub hx hy
  rw [hsame, ofFloat_neg_zero] at hrounded
  have hdifference : signedGrains x - signedGrains y = 0 :=
    Int.natAbs_eq_zero.mp (eq_zero_of_nearest hrounded.symm)
  rw [sub_of_grains hx hy hne hdifference] at hsame
  exact zero_ne_neg_zero hsame

end Magnitude

end PocketCalculator
