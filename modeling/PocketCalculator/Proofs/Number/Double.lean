import Mathlib
import PocketCalculator.Number.Magnitude

/-!
# Doubles and their magnitudes

The bits of a double are its sign and the rank of its magnitude.  So a double is found again from
the two (`signed_toFloat`), it is finite exactly if the rank is
(`isFinite_iff`), and a double of rank zero is a zero (`eq_zero_of_ofFloat`).
-/

namespace PocketCalculator

open Float.Model.UnpackedFloat Float.Model.Format

namespace Magnitude

/-! ## The fields of a double -/

/-- The sign, the exponent and the mantissa of a double, one above the other. -/
abbrev fields (s : Sign) (e : BitVec 11) (m : BitVec 52) : BitVec 64 :=
  packComponents binary64 s e m

theorem exists_fields (x : Float) : ∃ s e m, x.toBits.toBitVec = fields s e m :=
  ⟨_, _, _, (@packComponents_unpackSign_unpackExponent_unpackMantissa binary64 _).symm⟩

/-- What the fields count for in the bits as a number. -/
theorem toNat_fields (s : Sign) (e : BitVec 11) (m : BitVec 52) :
    (fields s e m).toNat = s.toBitVec.toNat * signPlace + (e.toNat * perBinade + m.toNat) := by
  have hplaces (a b i : Nat) (hb : b < 2 ^ i) : a <<< i ||| b = a * 2 ^ i + b := by
    rw [← Nat.shiftLeft_add_eq_or_of_lt hb, Nat.shiftLeft_eq]
  simp only [packComponents, BitVec.toNat_append]
  rw [hplaces _ _ _ m.isLt, hplaces _ _ _ e.isLt, Nat.add_mul, Nat.mul_assoc, Nat.add_assoc]
  rfl

theorem below_signPlace (e : BitVec 11) (m : BitVec 52) :
    e.toNat * perBinade + m.toNat < signPlace := by
  have he := e.isLt
  have hm := m.isLt
  simp only [signPlace, perBinade, Nat.pow_eq]
  omega

variable {x : Float} {s : Sign} {e : BitVec 11} {m : BitVec 52}

theorem ofFloat_of_fields (h : x.toBits.toBitVec = fields s e m) :
    ofFloat x = e.toNat * perBinade + m.toNat := by
  have hbits : x.toBits.toNat = (fields s e m).toNat := congrArg BitVec.toNat h
  rw [ofFloat, hbits, toNat_fields, Nat.mul_comm, Nat.mul_add_mod_self_left,
    Nat.mod_eq_of_lt (below_signPlace e m)]

/-- Without its sign, a double has the same exponent and the same mantissa. -/
theorem toBitVec_ofFloat (h : x.toBits.toBitVec = fields s e m) :
    (UInt64.ofNat (ofFloat x)).toBitVec = fields .positive e m := by
  apply BitVec.eq_of_toNat_eq
  have hbelow : ofFloat x < 2 ^ 64 := by
    have := below_signPlace e m
    rw [ofFloat_of_fields h]
    simp only [signPlace, Nat.pow_eq] at this
    omega
  have hpositive : (fields .positive e m).toNat = ofFloat x := by
    rw [toNat_fields, ofFloat_of_fields h]
    exact Nat.zero_add _
  rw [hpositive]
  exact Nat.mod_eq_of_lt hbelow

theorem toBits_ofBits (b : UInt64) :
    (Float.ofBits b).toBits.toBitVec = (unpack binary64 b.toBitVec).pack binary64 := rfl

theorem isNegative_of_fields (h : x.toBits.toBitVec = fields s e m) :
    isNegative x = true ↔ s = .negative := by
  have hbits : x.toBits.toNat = (fields s e m).toNat := congrArg BitVec.toNat h
  have hbelow := below_signPlace e m
  rw [isNegative, hbits, toNat_fields, decide_eq_true_iff]
  cases s with
  | negative => simp [Sign.toBitVec]
  | positive => simpa [Sign.toBitVec] using hbelow

/-- A double with these fields is not the value that is no number. -/
theorem valid_fields (he : e ≠ -1) : binary64.Valid (fields s e m) :=
  ⟨fun h => absurd (unpackExponent_packComponents.symm.trans h) he⟩

theorem neg_unpack_fields (e : BitVec 11) (m : BitVec 52) :
    (unpack binary64 (fields .positive e m)).neg = unpack binary64 (fields .negative e m) := by
  simp only [unpack, unpackSign_packComponents, unpackExponent_packComponents,
    unpackMantissa_packComponents, Sign.ofBitVec_toBitVec]
  split_ifs <;> rfl

theorem isFinite_of_fields (h : x.toBits.toBitVec = fields s e m) :
    x.isFinite = true ↔ e ≠ -1 := by
  have hunpacked : x.isFinite = (unpack binary64 (fields s e m)).isFinite := by rw [← h]; rfl
  rw [hunpacked]
  simp only [unpack, unpackSign_packComponents, unpackExponent_packComponents,
    unpackMantissa_packComponents]
  split_ifs <;> simp_all [Float.Model.UnpackedFloat.isFinite]

/-! ## Sign and magnitude -/

theorem isFinite_iff : x.isFinite = true ↔ ofFloat x < overflow := by
  obtain ⟨s, e, m, h⟩ := exists_fields x
  have he : e = -1 ↔ 2047 ≤ e.toNat := by
    have := e.isLt
    rw [← BitVec.toNat_inj]
    simp
    omega
  have hm := m.isLt
  rw [isFinite_of_fields h, ofFloat_of_fields h, ne_eq, he]
  simp only [overflow, perBinade, Nat.pow_eq]
  omega

theorem toFloat_ofFloat (hx : isNegative x = false) : toFloat (ofFloat x) = x := by
  have hbits : ofFloat x = x.toBits.toNat := by
    refine Nat.mod_eq_of_lt ?_
    simpa [isNegative] using hx
  rw [toFloat, hbits, UInt64.ofNat_toNat, Float.ofBits_toBits]

theorem neg_toFloat_ofFloat (hx : isNegative x = true) (hfinite : x.isFinite = true) :
    -toFloat (ofFloat x) = x := by
  obtain ⟨s, e, m, h⟩ := exists_fields x
  obtain rfl := (isNegative_of_fields h).mp hx
  have he := (isFinite_of_fields h).mp hfinite
  -- The magnitude has the same exponent and the same mantissa.
  have hmagnitude : (toFloat (ofFloat x)).toBits.toBitVec = fields .positive e m := by
    rw [toFloat, toBits_ofBits, toBitVec_ofFloat h, pack_unpack_of_valid (valid_fields he)]
  rw [← Float.toBits_inj, ← UInt64.toBitVec_inj, h]
  show (unpack binary64 (toFloat (ofFloat x)).toBits.toBitVec).neg.pack binary64 = _
  rw [hmagnitude, neg_unpack_fields, pack_unpack_of_valid (valid_fields he)]

/-- A finite double from its sign and its magnitude. -/
theorem signed_toFloat (hfinite : x.isFinite = true) :
    (if isNegative x then -toFloat (ofFloat x) else toFloat (ofFloat x)) = x := by
  cases hsign : isNegative x with
  | false => exact toFloat_ofFloat hsign
  | true => exact neg_toFloat_ofFloat hsign hfinite

/-- The double of a finite rank has no sign, and its fields count for the rank. -/
theorem exists_fields_toFloat {k : Nat} (hk : k < overflow) :
    ∃ e m, (toFloat k).toBits.toBitVec = fields .positive e m ∧
      e.toNat * perBinade + m.toNat = k := by
  obtain ⟨s, e, m, h⟩ : ∃ s e m, (UInt64.ofNat k).toBitVec = fields s e m :=
    ⟨_, _, _, (@packComponents_unpackSign_unpackExponent_unpackMantissa binary64 _).symm⟩
  have hsmall : overflow < 2 ^ 64 := by decide
  have hbelow : overflow < signPlace := by decide
  have hbits : k = s.toBitVec.toNat * signPlace + (e.toNat * perBinade + m.toNat) := by
    rw [← toNat_fields, ← h]
    exact (Nat.mod_eq_of_lt (by omega)).symm
  cases s with
  | negative =>
    have hminus : Sign.negative.toBitVec.toNat = 1 := rfl
    rw [hminus, Nat.one_mul] at hbits
    omega
  | positive =>
    have hplus : Sign.positive.toBitVec.toNat = 0 := rfl
    rw [hplus, Nat.zero_mul, Nat.zero_add] at hbits
    have he : e ≠ -1 := by
      rintro rfl
      have htop : (-1 : BitVec 11).toNat * perBinade = overflow := rfl
      omega
    refine ⟨e, m, ?_, hbits.symm⟩
    rw [toFloat, toBits_ofBits, h, pack_unpack_of_valid (valid_fields he)]

theorem ofFloat_toFloat {k : Nat} (hk : k < overflow) : ofFloat (toFloat k) = k := by
  obtain ⟨e, m, h, hrank⟩ := exists_fields_toFloat hk
  rw [ofFloat_of_fields h, hrank]

theorem positive_ne_negative : Sign.positive ≠ Sign.negative := by simp

theorem isNegative_toFloat {k : Nat} (hk : k < overflow) : isNegative (toFloat k) = false := by
  obtain ⟨e, m, h, -⟩ := exists_fields_toFloat hk
  exact Bool.eq_false_iff.mpr ((isNegative_of_fields h).not.mpr positive_ne_negative)

theorem eq_zero_of_ofFloat (hx : ofFloat x = 0) : (x == 0) = true := by
  obtain ⟨s, e, m, h⟩ := exists_fields x
  rw [ofFloat_of_fields h, Nat.add_eq_zero_iff, Nat.mul_eq_zero] at hx
  obtain rfl : e = 0 := BitVec.eq_of_toNat_eq (hx.1.resolve_right (by decide))
  obtain rfl : m = 0 := BitVec.eq_of_toNat_eq hx.2
  have hbits : x.toBits = UInt64.ofBitVec (fields s 0 0) := UInt64.toBitVec_inj.mp h
  rw [← Float.ofBits_toBits x, hbits]
  cases s <;> decide +kernel

theorem ofFloat_ne_zero (hx : (x == 0) = false) : ofFloat x ≠ 0 := by
  intro h
  rw [eq_zero_of_ofFloat h] at hx
  cases hx

end Magnitude

end PocketCalculator
