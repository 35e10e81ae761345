import PocketCalculator.Proofs.Number.Packing

/-!
# Sums of doubles

The sum of two finite doubles is their exact sum, rounded to the nearest double.  In grains both
are integers, so this is a statement about integers (`ofFloat_add`).

* `unpack_spec`: what the bits of a finite double are worth.
* `isFinite_add` and `isFinite_sub`: a sum is finite if the exact sum is below the midpoint
  between the largest finite magnitude and the next one that there would be.
* `add_of_infinite` and `sub_of_infinite`: an infinity stays what it is.
-/

namespace PocketCalculator

open Float.Model (UnpackedFloat)
open Float.Model.UnpackedFloat Float.Model.Format

namespace Magnitude

variable {s : Sign} {m b : Nat} {e : Int}

/-! ## Sums -/

theorem apply_decreased (s : Sign) (m : Nat) {c least : Nat} (h : least ≤ c) :
    s.apply ((decreaseExponent m (c - 1074) (least - 1074)).1 : Nat) * 2 ^ least =
      s.apply (m * 2 ^ c : Nat) := by
  have hamount : ((c : Int) - 1074 - (least - 1074)).toNat = c - least := by omega
  have hgrained : m * 2 ^ (c - least) * 2 ^ least = m * 2 ^ c := by
    rw [Nat.mul_assoc, ← Nat.pow_add, Nat.sub_add_cancel h]
  rw [decreaseExponent, hamount, ← hgrained, Nat.shiftLeft_eq]
  cases s <;> simp [Sign.apply]

/-- Two mantissas are added on the finer of their two grids, and the sum is packed anew. -/
theorem exists_add_finite (s s' : Sign) {m' : Nat} (hm : 0 < m) (hm' : 0 < m') (c c' : Nat) :
    ∃ (z : Int) (least : Nat),
      add binary64 (.finite s m (c - 1074) hm) (.finite s' m' (c' - 1074) hm') =
        UnpackedFloat.normalize binary64 z (least - 1074) .positive ∧
      z * 2 ^ least =
        worth (.finite s m (c - 1074) hm) + worth (.finite s' m' (c' - 1074) hm') := by
  have hleast : min ((c : Int) - 1074) (c' - 1074) = (min c c' : Nat) - 1074 := by omega
  simp only [add, hleast, worth_place]
  refine ⟨_, min c c', rfl, ?_⟩
  rw [Int.add_mul, apply_decreased s m (Nat.min_le_left c c'),
    apply_decreased s' m' (Nat.min_le_right c c')]

/-- The sum of two unpacked numbers is their exact sum, rounded. -/
theorem rank_add {u v : UnpackedFloat} (hu : Canonical u) (hv : Canonical v) :
    rank ((add binary64 u v).pack binary64) = nearest (worth u + worth v).natAbs 1 := by
  obtain ⟨s, rfl⟩ | ⟨s, m, hm, c, rfl, -⟩ := hu.kinds
  · obtain ⟨s', rfl⟩ | ⟨s', m', hm', c', rfl, -⟩ := hv.kinds
    · cases s <;> cases s' <;> rfl
    · rw [worth_zero, Int.zero_add, ← rank_pack hv]
      rfl
  · obtain ⟨s', rfl⟩ | ⟨s', m', hm', c', rfl, -⟩ := hv.kinds
    · rw [worth_zero, Int.add_zero, ← rank_pack hu]
      rfl
    · obtain ⟨z, least, hadded, hsum⟩ := exists_add_finite s s' hm hm' c c'
      rw [hadded, rank_normalize, hsum]

/-! ## Doubles -/

/-- A double in grains. -/
def signedGrains (x : Float) : Int :=
  if isNegative x then -(grains (ofFloat x) : Int) else grains (ofFloat x)

variable {x y : Float}

theorem signedGrains_of_fields {e : BitVec 11} {m : BitVec 52}
    (h : x.toBits.toBitVec = fields s e m) :
    signedGrains x = s.apply (grains (e.toNat * perBinade + m.toNat)) := by
  have hsign := isNegative_of_fields h
  rw [signedGrains, ofFloat_of_fields h]
  cases s with
  | negative => rw [if_pos (hsign.mpr rfl), Sign.apply]
  | positive => rw [if_neg (hsign.not.mpr positive_ne_negative), Sign.apply]

/-- A mantissa in its binade is canonical, and worth the magnitude of its rank. -/
theorem finite_spec (hm : 0 < m) (hbelow : m < 2 * perBinade) (hnormal : b = 0 ∨ perBinade ≤ m)
    (he : e = b - 1074) :
    Canonical (.finite s m e hm) ∧
      worth (.finite s m e hm) = s.apply (grains (b * perBinade + m)) := by
  subst he
  exact ⟨⟨hbelow, by omega, hnormal.imp_left (by omega)⟩, worth_finite hm hbelow hnormal⟩

/-- The bits of a finite double, unpacked. -/
theorem unpack_spec (hx : x.isFinite = true) :
    Canonical (unpack binary64 x.toBits.toBitVec) ∧
      worth (unpack binary64 x.toBits.toBitVec) = signedGrains x := by
  obtain ⟨s, e, m, h⟩ := exists_fields x
  have he : e ≠ -1 := (isFinite_of_fields h).mp hx
  have hbelow : m.toNat < perBinade := m.isLt
  have hbias : (exponentBias binary64 : Int) = 1023 := rfl
  rw [signedGrains_of_fields h, h]
  simp only [unpack, unpackSign_packComponents, unpackExponent_packComponents,
    unpackMantissa_packComponents, Sign.ofBitVec_toBitVec]
  split_ifs with hinfinite hinfinite' hlowest hm
  · exact absurd hinfinite he
  · exact absurd hinfinite he
  · subst hlowest hm
    have hleast : grains ((0#11).toNat * perBinade + (0#52).toNat) = 0 := by
      simp [grains, perBinade_eq]
    rw [hleast]
    exact ⟨trivial, by cases s <;> rfl⟩
  · subst hlowest
    refine finite_spec (b := 0) _ (by omega) (.inl rfl) ?_
    rw [hbias]
    simp
  · have hexponent : 0 < e.toNat :=
      Nat.pos_of_ne_zero fun hzero => hlowest (BitVec.eq_of_toNat_eq hzero)
    have hmantissa : (1#1 ++ m).toNat = perBinade + m.toNat := by
      rw [BitVec.toNat_append, ← Nat.shiftLeft_add_eq_or_of_lt m.isLt, Nat.shiftLeft_eq]
      rfl
    have hplace : e.toNat * perBinade + m.toNat =
        (e.toNat - 1) * perBinade + (1#1 ++ m).toNat := by
      rw [hmantissa, perBinade_eq]
      omega
    rw [hplace]
    refine finite_spec _ (by omega) (.inr (by omega)) ?_
    rw [hbias]
    omega

theorem pack_unpack (x : Float) :
    (unpack binary64 x.toBits.toBitVec).pack binary64 = x.toBits.toBitVec :=
  pack_unpack_of_valid x.toModel.valid

/-- The sum of two finite doubles is their exact sum, rounded. -/
theorem ofFloat_add (hx : x.isFinite = true) (hy : y.isFinite = true) :
    ofFloat (x + y) = nearest (signedGrains x + signedGrains y).natAbs 1 := by
  obtain ⟨hcanonical, hgrained⟩ := unpack_spec hx
  obtain ⟨hcanonical', hgrained'⟩ := unpack_spec hy
  rw [← hgrained, ← hgrained']
  exact rank_add hcanonical hcanonical'

theorem apply_neg (s : Sign) (z : Int) : (-s).apply z = -s.apply z := by
  cases s with
  | negative => exact (Int.neg_neg z).symm
  | positive => rfl

theorem canonical_neg {u : UnpackedFloat} (h : Canonical u) : Canonical u.neg := by
  cases u <;> exact h

theorem worth_neg (u : UnpackedFloat) : worth u.neg = -worth u := by
  cases u with
  | finite s m e hm => exact apply_neg s _
  | infinity s | notANumber | zero s => rfl

theorem sub_eq_add_neg (u v : UnpackedFloat) : sub binary64 u v = add binary64 u v.neg := by
  cases u with
  | finite s m e hm =>
    cases v with
    | finite s' m' e' hm' =>
      simp only [sub, add, UnpackedFloat.neg, apply_neg, Int.sub_eq_add_neg]
    | infinity s' | notANumber | zero s' => rfl
  | infinity s | notANumber | zero s => cases v <;> rfl

/-- The difference of two finite doubles is their exact difference, rounded. -/
theorem ofFloat_sub (hx : x.isFinite = true) (hy : y.isFinite = true) :
    ofFloat (x - y) = nearest (signedGrains x - signedGrains y).natAbs 1 := by
  obtain ⟨hcanonical, hgrained⟩ := unpack_spec hx
  obtain ⟨hcanonical', hgrained'⟩ := unpack_spec hy
  show rank ((sub binary64 (unpack binary64 x.toBits.toBitVec)
    (unpack binary64 y.toBits.toBitVec)).pack binary64) = _
  rw [sub_eq_add_neg, rank_add hcanonical (canonical_neg hcanonical'), worth_neg, hgrained,
    hgrained', Int.sub_eq_add_neg]

/-! ## Overflow -/

/-- Twice the midpoint between the largest finite magnitude and the next that there would be. -/
def beyond : Nat := grains (overflow - 1) + grains overflow

/-- What is rounded is finite below the midpoint behind the largest finite magnitude; the
midpoint itself is not, since its rank would be odd. -/
theorem nearest_lt_overflow_iff (n : Nat) : nearest n 1 < overflow ↔ 2 * n < beyond := by
  obtain ⟨k, hnearest, hlow, hhigh, heven⟩ := rounds_nearest n Nat.one_pos
  rw [Nat.mul_one] at hlow hhigh heven
  have hodd : (overflow - 1) % 2 = 1 := rfl
  have hnext : overflow - 1 + 1 = overflow := rfl
  rw [hnearest, beyond]
  constructor
  · intro hless
    obtain rfl | hbefore : k = overflow - 1 ∨ k + 1 ≤ overflow - 1 := by omega
    · rw [hnext] at hhigh heven
      omega
    · have := grains_strictMono.monotone hbefore
      have : grains (overflow - 1) < grains overflow := grains_strictMono (by omega)
      have : grains k < grains (k + 1) := grains_strictMono (Nat.lt_succ_self k)
      omega
  · intro hless
    by_contra hpast
    have := grains_strictMono.monotone (by omega : overflow - 1 ≤ k - 1)
    have := grains_strictMono.monotone (by omega : overflow ≤ k)
    omega

theorem isFinite_add (hx : x.isFinite = true) (hy : y.isFinite = true) :
    (x + y).isFinite = true ↔ 2 * (signedGrains x + signedGrains y).natAbs < beyond := by
  rw [isFinite_iff, ofFloat_add hx hy, nearest_lt_overflow_iff]

theorem isFinite_sub (hx : x.isFinite = true) (hy : y.isFinite = true) :
    (x - y).isFinite = true ↔ 2 * (signedGrains x - signedGrains y).natAbs < beyond := by
  rw [isFinite_iff, ofFloat_sub hx hy, nearest_lt_overflow_iff]

/-- A finite double is below the midpoint. -/
theorem signedGrains_lt (hx : x.isFinite = true) : 2 * (signedGrains x).natAbs < beyond := by
  obtain ⟨hcanonical, hgrained⟩ := unpack_spec hx
  rw [← nearest_lt_overflow_iff, ← hgrained, ← rank_pack hcanonical, pack_unpack]
  exact isFinite_iff.mp hx

/-- The largest double takes less than half of the last spacing, and no more. -/
example : (1.7976931348623157e308 + 9.979201547673598e291 : Float).isFinite = true ∧
    (1.7976931348623157e308 + 9.9792015476736e291 : Float).isFinite = false := by
  decide +kernel

/-! ## Infinities -/

/-- What was rounded is a number. -/
theorem isNaN_of_rank_le (hx : ofFloat x ≤ overflow) : x.isNaN = false := by
  obtain ⟨s, e, m, h⟩ := exists_fields x
  have hunpacked : x.isNaN = (unpack binary64 (fields s e m)).isNaN := by rw [← h]; rfl
  rw [ofFloat_of_fields h] at hx
  rw [hunpacked]
  simp only [unpack, unpackSign_packComponents, unpackExponent_packComponents,
    unpackMantissa_packComponents]
  split_ifs with htop hwhole
  · rfl
  · have hexponent : e.toNat = 2047 := by rw [htop]; rfl
    have hmantissa : m.toNat ≠ 0 := fun hzero => hwhole (BitVec.eq_of_toNat_eq hzero)
    rw [hexponent, overflow] at hx
    omega
  · rfl
  · rfl
  · rfl

theorem isNaN_add (hx : x.isFinite = true) (hy : y.isFinite = true) : (x + y).isNaN = false := by
  refine isNaN_of_rank_le ?_
  rw [ofFloat_add hx hy]
  exact Nat.min_le_left _ _

theorem isNaN_sub (hx : x.isFinite = true) (hy : y.isFinite = true) : (x - y).isNaN = false := by
  refine isNaN_of_rank_le ?_
  rw [ofFloat_sub hx hy]
  exact Nat.min_le_left _ _

theorem unpack_of_infinite (hx : x.isFinite = false) (hnumber : x.isNaN = false) :
    ∃ s, unpack binary64 x.toBits.toBitVec = .infinity s := by
  have hfinite : (unpack binary64 x.toBits.toBitVec).isFinite = false := hx
  have hnumber : (unpack binary64 x.toBits.toBitVec).isNaN = false := hnumber
  cases h : unpack binary64 x.toBits.toBitVec with
  | infinity s => exact ⟨s, rfl⟩
  | notANumber => rw [h] at hnumber; cases hnumber
  | zero s | finite s m e hm => rw [h] at hfinite; cases hfinite

/-- There are two numbers that are not finite. -/
theorem eq_infinity (hx : x.isFinite = false) (hnumber : x.isNaN = false) :
    ∃ s, x = Float.ofBits (.ofBitVec (packedInfinity binary64 s)) := by
  obtain ⟨s, hs⟩ := unpack_of_infinite hx hnumber
  refine ⟨s, ?_⟩
  have hbits : x.toBits.toBitVec = packedInfinity binary64 s := by
    rw [← pack_unpack, hs]
    rfl
  rw [← hbits]
  exact (Float.ofBits_toBits x).symm

theorem add_infinity (s : Sign) {v : UnpackedFloat} (h : Canonical v) :
    add binary64 (.infinity s) v = .infinity s := by
  cases v with
  | infinity s' | notANumber => exact h.elim
  | zero s' | finite s' m' e' hm' => rfl

/-- A sum with an infinity is that infinity. -/
theorem add_of_infinite (hx : x.isFinite = false) (hnumber : x.isNaN = false)
    (hy : y.isFinite = true) : x + y = x := by
  obtain ⟨s, hs⟩ := unpack_of_infinite hx hnumber
  rw [← Float.toBits_inj, ← UInt64.toBitVec_inj, ← pack_unpack x]
  show (add binary64 (unpack binary64 x.toBits.toBitVec)
    (unpack binary64 y.toBits.toBitVec)).pack binary64 = _
  rw [hs, add_infinity s (unpack_spec hy).1]

theorem sub_of_infinite (hx : x.isFinite = false) (hnumber : x.isNaN = false)
    (hy : y.isFinite = true) : x - y = x := by
  obtain ⟨s, hs⟩ := unpack_of_infinite hx hnumber
  rw [← Float.toBits_inj, ← UInt64.toBitVec_inj, ← pack_unpack x]
  show (sub binary64 (unpack binary64 x.toBits.toBitVec)
    (unpack binary64 y.toBits.toBitVec)).pack binary64 = _
  rw [sub_eq_add_neg, hs, add_infinity s (canonical_neg (unpack_spec hy).1)]

end Magnitude

end PocketCalculator
