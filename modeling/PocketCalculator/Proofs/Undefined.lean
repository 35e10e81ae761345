import PocketCalculator.Proofs.Number.RealFunctions
import PocketCalculator.Proofs.Number.Undefined
import PocketCalculator.Proofs.Results
import PocketCalculator.Proofs.StackEvaluation

/-!
# Undefined values are not masked

A value that is no number stays one on its way to the root of an expression, or a call fails on
it.  There is one way out: a power with the exponent zero is one, whatever its base is.

`Exposed` says that a part of an expression stands outside such bases.  One step towards the root
is one lemma for each kind of expression (`Undefined.neg`, `Undefined.call`,
`Undefined.binary_left` and `Undefined.binary_right`), and `Exposed.undefined` is the induction
over the steps.  The judgement of the result refuses what is left.
-/

namespace PocketCalculator

/-- What the elementary functions make of the value that is no number. -/
structure Elementary.Propagates (lib : Elementary) : Prop where
  sin : lib.sin Float.nan = Float.nan
  cos : lib.cos Float.nan = Float.nan
  tan : lib.tan Float.nan = Float.nan
  log10 : lib.log10 Float.nan = Float.nan
  /-- Every power of one is one. -/
  pow_nan : ∀ a, a ≠ 1 → lib.pow a Float.nan = Float.nan
  /-- With the exponent zero every power is one. -/
  nan_pow : ∀ b, (b == 0) = false → lib.pow Float.nan b = Float.nan

theorem beq_one {a : Float} (ha : a ≠ 1) : (a == 1) = false := by
  rw [← Bool.not_eq_true]
  intro hsame
  obtain ⟨-, -, rfl | ⟨-, hzero⟩ | ⟨-, hzero⟩⟩ := Float.beq_iff_ne_nan_and_eq.mp hsame
  · exact ha rfl
  · exact absurd hzero (by decide +kernel)
  · exact absurd hzero (by decide +kernel)

/-- The functions with the nearest doubles as values keep the value that is no number. -/
theorem Elementary.propagates_rounded : Elementary.rounded.Propagates where
  sin := by simp only [rounded, Magnitude.isFinite_nan, Bool.false_eq_true, if_false]
  cos := by simp only [rounded, Magnitude.isFinite_nan, Bool.false_eq_true, if_false]
  tan := by simp only [rounded, Magnitude.isFinite_nan, Bool.false_eq_true, if_false]
  log10 := by
    simp only [rounded, Float.nan_beq_eq_false, Magnitude.isFinite_nan, Bool.false_eq_true,
      if_false, ite_self]
  pow_nan a ha := by
    have hnumber : Float.nan.isNaN = true := Magnitude.isNaN_iff_eq_nan.mpr rfl
    simp only [rounded, Float.nan_beq_eq_false, Magnitude.isFinite_nan, beq_one ha, hnumber,
      Bool.false_eq_true, Bool.or_false, Bool.or_true, false_and, and_false, if_false, if_true]
  nan_pow b hb := by
    have hnumber : Float.nan.isNaN = true := Magnitude.isNaN_iff_eq_nan.mpr rfl
    simp only [rounded, Float.nan_beq_eq_false, Magnitude.isFinite_nan, hb, hnumber,
      Bool.false_eq_true, Bool.or_false, Bool.true_or, false_and, if_false, if_true]

variable {lib : Elementary}

/-! ## Operators -/

/-- A power of one or minus one is no number if its exponent is not finite. -/
theorem power_of_unit {a b : Float} (ha : (a.abs == 1) = true) (hb : b.isFinite = false) :
    power lib a b = Float.nan := by
  rw [power, hb, ha, ← Magnitude.toFloat_nan]
  rfl

theorem power_nan (h : lib.Propagates) (a : Float) : power lib a Float.nan = Float.nan := by
  cases ha : a.abs == 1 with
  | true => exact power_of_unit ha Magnitude.isFinite_nan
  | false =>
    have hne : a ≠ 1 := by
      rintro rfl
      exact absurd ha (by decide +kernel)
    rw [power, ha, Bool.and_false]
    exact h.pow_nan a hne

theorem nan_power (h : lib.Propagates) {b : Float} (hb : (b == 0) = false) :
    power lib Float.nan b = Float.nan := by
  rw [power, Magnitude.abs_nan, Float.nan_beq_eq_false, Bool.and_false]
  exact h.nan_pow b hb

theorem Operator.apply_nan (h : lib.Propagates) (o : Operator) (a : Float) :
    o.apply lib a Float.nan = Float.nan := by
  cases o with
  | add => exact (Magnitude.add_nan a).2
  | sub => exact (Magnitude.sub_nan a).2
  | mul => exact (Magnitude.mul_nan a).2
  | div => exact (Magnitude.div_nan a).2
  | pow => exact power_nan h a

theorem Operator.nan_apply (h : lib.Propagates) {o : Operator} {b : Float}
    (hb : o = .pow → (b == 0) = false) : o.apply lib Float.nan b = Float.nan := by
  cases o with
  | add => exact (Magnitude.add_nan b).1
  | sub => exact (Magnitude.sub_nan b).1
  | mul => exact (Magnitude.mul_nan b).1
  | div => exact (Magnitude.div_nan b).1
  | pow => exact nan_power h (hb rfl)

/-! ## Calls -/

theorem radiansOf_nan : radiansOf Float.nan = Float.nan := rfl

/-- A call on no number gives no number, and the factorial fails on it. -/
theorem degrees_nan (h : lib.Propagates) (f : Function) :
    Namespace.degrees lib f Float.nan =
      if f = .factorial then .error .invalidOperand else .ok Float.nan := by
  cases f with
  | sqrt => exact congrArg Except.ok Magnitude.sqrt_nan
  | log10 => exact congrArg Except.ok h.log10
  | sin =>
    show Except.ok (lib.sin (radiansOf Float.nan)) = _
    rw [radiansOf_nan, h.sin]
    rfl
  | cos =>
    show Except.ok (lib.cos (radiansOf Float.nan)) = _
    rw [radiansOf_nan, h.cos]
    rfl
  | tan =>
    have hfar : ¬Float.nan.abs < cosineThreshold := by decide +kernel
    show (if (lib.cos (radiansOf Float.nan)).abs < cosineThreshold then _ else _) = _
    rw [radiansOf_nan, h.cos, if_neg hfar, h.tan]
    rfl
  | factorial =>
    show factorial lib Float.nan = _
    rw [factorial, Magnitude.isFinite_nan]
    rfl

namespace Expression

/-- The value of an expression, with angles in degrees. -/
def degrees (lib : Elementary) (e : Expression) : Except Error Float :=
  e.eval lib (Namespace.degrees lib)

/-- Whether an expression has no value that is a number: some call fails, or the value is none. -/
def Undefined (lib : Elementary) (e : Expression) : Prop :=
  ∀ v, e.degrees lib = .ok v → v = Float.nan

variable {e sub base left right argument exponent : Expression}

/-! ## One step towards the root -/

theorem Undefined.neg (h : e.Undefined lib) : (Expression.neg e).Undefined lib := by
  intro v hv
  obtain ⟨a, ha, hv⟩ := exists_ok_of_bind hv
  rw [h a ha] at hv
  rw [← Except.ok.inj hv, Magnitude.neg_nan]

theorem Undefined.call (hlib : lib.Propagates) (h : argument.Undefined lib) (f : Function) :
    (call f argument).Undefined lib := by
  intro v hv
  obtain ⟨a, ha, hv⟩ := exists_ok_of_bind hv
  rw [h a ha, degrees_nan hlib] at hv
  split at hv
  · cases hv
  · exact (Except.ok.inj hv).symm

theorem exists_operands {o : Operator} {v : Float}
    (hv : (binary o left right).degrees lib = .ok v) :
    ∃ a b, left.degrees lib = .ok a ∧ right.degrees lib = .ok b ∧ o.apply lib a b = v := by
  obtain ⟨a, ha, hv⟩ := exists_ok_of_bind hv
  obtain ⟨b, hb, hv⟩ := exists_ok_of_bind hv
  exact ⟨a, b, ha, hb, Except.ok.inj hv⟩

/-- Whether the value of an expression is zero, with either sign. -/
def Vanishes (lib : Elementary) (e : Expression) : Prop :=
  ∃ v, e.degrees lib = .ok v ∧ (v == 0) = true

theorem Undefined.binary_left (hlib : lib.Propagates) (h : left.Undefined lib) {o : Operator}
    (hexponent : o = .pow → ¬right.Vanishes lib) : (binary o left right).Undefined lib := by
  intro v hv
  obtain ⟨a, b, ha, hb, rfl⟩ := exists_operands hv
  rw [h a ha]
  refine Operator.nan_apply hlib fun ho => ?_
  exact Bool.eq_false_iff.mpr fun hzero => hexponent ho ⟨b, hb, hzero⟩

theorem Undefined.binary_right (hlib : lib.Propagates) (h : right.Undefined lib) (o : Operator) :
    (binary o left right).Undefined lib := by
  intro v hv
  obtain ⟨a, b, -, hb, rfl⟩ := exists_operands hv
  rw [h b hb, Operator.apply_nan hlib]

/-! ## The way to the root -/

/-- Whether a part of an expression stands in it at some place that is not inside the base of a
power with the exponent zero. -/
inductive Exposed (lib : Elementary) (sub : Expression) : Expression → Prop
  | itself : Exposed lib sub sub
  | neg {e : Expression} (h : Exposed lib sub e) : Exposed lib sub (.neg e)
  | call {argument : Expression} (f : Function) (h : Exposed lib sub argument) :
      Exposed lib sub (.call f argument)
  | left {o : Operator} {left right : Expression} (h : Exposed lib sub left)
      (hexponent : o = .pow → ¬right.Vanishes lib) : Exposed lib sub (.binary o left right)
  | right (o : Operator) {left right : Expression} (h : Exposed lib sub right) :
      Exposed lib sub (.binary o left right)

/-- What is undefined at an exposed place makes the whole expression undefined. -/
theorem Exposed.undefined (hlib : lib.Propagates) (hsub : sub.Undefined lib)
    (h : Exposed lib sub e) : e.Undefined lib := by
  induction h with
  | itself => exact hsub
  | neg _ ih => exact Undefined.neg ih
  | call f _ ih => exact Undefined.call hlib ih f
  | left _ hexponent ih => exact Undefined.binary_left hlib ih hexponent
  | right o _ ih => exact Undefined.binary_right hlib ih o

/-- The judgement refuses what is undefined: as an invalid expression, unless a call fails. -/
theorem Undefined.judged (h : e.Undefined lib) :
    ∃ err, (e.degrees lib >>= judge) = .error err ∧
      (err = .invalidExpression ∨ e.degrees lib = .error err) := by
  cases hv : e.degrees lib with
  | error err => exact ⟨err, rfl, .inr rfl⟩
  | ok v =>
    rw [h v hv]
    have hrefused : judge Float.nan = .error .invalidExpression := rfl
    exact ⟨_, hrefused, .inl rfl⟩

/-- A value that is no number is never turned back into a result.  If a part of an expression has
such a value, and it stands outside all bases of powers with the exponent zero, then the
expression is refused: as an invalid one, or with the error of a call.  The same holds of a text
that is read as this expression.

A power of one or minus one whose exponent is not finite is such a part. -/
theorem undefined_not_masked (hlib : lib.Propagates) :
    (∀ e sub v, Exposed lib sub e → sub.eval lib (Namespace.degrees lib) = .ok v →
      v.isNaN = true →
      ∃ err, (e.eval lib (Namespace.degrees lib) >>= judge) = .error err ∧
        (err = .invalidExpression ∨ e.eval lib (Namespace.degrees lib) = .error err) ∧
        ∀ s, Postfix.ofText s = .ok e.items →
          evaluate lib (Namespace.degrees lib) s = .error err) ∧
    ∀ base exponent a b, base.eval lib (Namespace.degrees lib) = .ok a →
      exponent.eval lib (Namespace.degrees lib) = .ok b → (a.abs == 1) = true →
      b.isFinite = false →
      ∃ v, (binary .pow base exponent).eval lib (Namespace.degrees lib) = .ok v ∧
        v.isNaN = true := by
  constructor
  · intro e sub v hexposed hv hnan
    have hsub : sub.Undefined lib := by
      intro w hw
      rw [← Except.ok.inj (hv.symm.trans hw)]
      exact Magnitude.isNaN_iff_eq_nan.mp hnan
    obtain ⟨err, hjudged, hkind⟩ := (hexposed.undefined hlib hsub).judged
    refine ⟨err, hjudged, hkind, fun s hs => ?_⟩
    rw [evaluate_eq_judge lib _ hs, ← eval_eq_trace]
    exact hjudged
  · intro base exponent a b ha hb hunit hinfinite
    refine ⟨Float.nan, ?_, Magnitude.isNaN_iff_eq_nan.mpr rfl⟩
    rw [eval, ha, hb]
    exact congrArg Except.ok (power_of_unit hunit hinfinite)

/-- In `math.sin(1**(0/0))*2` the power of one is no number, and so the text has no value. -/
theorem power_of_one_not_masked :
    ∃ err, evaluate Elementary.rounded (Namespace.degrees Elementary.rounded)
      "math.sin(1**(0/0))*2".toList = .error err := by
  let natural (n : Nat) := number (Decimal.toFloat ⟨n, 0⟩)
  let exponent := binary .div (natural 0) (natural 0)
  let e := binary .mul (call .sin (binary .pow (natural 1) exponent)) (natural 2)
  obtain ⟨hmasked, hpowers⟩ := undefined_not_masked Elementary.propagates_rounded
  obtain ⟨v, hv, hnan⟩ := hpowers (natural 1) exponent _ _ rfl rfl (by decide +kernel)
    (by decide +kernel)
  have hitems : Postfix.ofText "math.sin(1**(0/0))*2".toList = .ok e.items := rfl
  obtain ⟨err, -, -, hrefused⟩ := hmasked e _ v (.left (.call .sin .itself) nofun) hv hnan
  exact ⟨err, hrefused _ hitems⟩

end Expression

end PocketCalculator
