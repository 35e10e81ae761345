import PocketCalculator.Proofs.Number.Zeros

/-!
# The value that is no number

There is one double that is no number, `Float.nan`, and it is not equal to anything.  Whatever is
computed from it by arithmetic is no number either, in whichever place it stands.
-/

namespace PocketCalculator.Magnitude

open Float.Model (UnpackedFloat)
open Float.Model.UnpackedFloat Float.Model.Format

theorem isNaN_iff_eq_nan {x : Float} : x.isNaN = true ↔ x = Float.nan := by
  rw [Float.isNaN_eq_decide_eq_nan, decide_eq_true_iff]

theorem toFloat_nan : toFloat (overflow + 1) = Float.nan := rfl

theorem isFinite_nan : Float.nan.isFinite = false := rfl

theorem unpack_nan : unpack binary64 Float.nan.toBits.toBitVec = .notANumber := rfl

/-! ## One operand -/

theorem neg_nan : -Float.nan = Float.nan := rfl

theorem sqrt_nan : Float.nan.sqrt = Float.nan := rfl

theorem abs_nan : Float.nan.abs = Float.nan := rfl

/-! ## Two operands -/

/-- Whether an operation on unpacked numbers gives no number as soon as one of its operands is
none. -/
def Absorbs (op : UnpackedFloat → UnpackedFloat → UnpackedFloat) : Prop :=
  ∀ u, op .notANumber u = .notANumber ∧ op u .notANumber = .notANumber

theorem absorbs_add : Absorbs (add binary64) := by
  intro u
  cases u <;> exact ⟨rfl, rfl⟩

theorem absorbs_sub : Absorbs (sub binary64) := by
  intro u
  cases u <;> exact ⟨rfl, rfl⟩

theorem absorbs_mul : Absorbs (mul binary64) := by
  intro u
  cases u <;> exact ⟨rfl, rfl⟩

theorem absorbs_div : Absorbs (div binary64) := by
  intro u
  cases u <;> exact ⟨rfl, rfl⟩

/-- An operation on doubles unpacks its operands and packs what comes out. -/
theorem Absorbs.nan {op : UnpackedFloat → UnpackedFloat → UnpackedFloat} (h : Absorbs op)
    {f : Float → Float → Float}
    (hf : ∀ x y, (f x y).toBits.toBitVec = (op (unpack binary64 x.toBits.toBitVec)
      (unpack binary64 y.toBits.toBitVec)).pack binary64) (x : Float) :
    f Float.nan x = Float.nan ∧ f x Float.nan = Float.nan := by
  obtain ⟨hleft, hright⟩ := h (unpack binary64 x.toBits.toBitVec)
  constructor
  · apply ext_bits
    rw [hf, unpack_nan, hleft]
    rfl
  · apply ext_bits
    rw [hf, unpack_nan, hright]
    rfl

variable (x : Float)

theorem add_nan : Float.nan + x = Float.nan ∧ x + Float.nan = Float.nan :=
  absorbs_add.nan (fun _ _ => rfl) x

theorem sub_nan : Float.nan - x = Float.nan ∧ x - Float.nan = Float.nan :=
  absorbs_sub.nan (fun _ _ => rfl) x

theorem mul_nan : Float.nan * x = Float.nan ∧ x * Float.nan = Float.nan :=
  absorbs_mul.nan (fun _ _ => rfl) x

theorem div_nan : Float.nan / x = Float.nan ∧ x / Float.nan = Float.nan :=
  absorbs_div.nan (fun _ _ => rfl) x

end PocketCalculator.Magnitude
