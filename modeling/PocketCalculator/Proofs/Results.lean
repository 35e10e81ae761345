import PocketCalculator.Engine

/-!
# Where a result comes from

A result is what is left of a text that was normalised, read as tokens, put into
postfix order, evaluated and judged.  The lemmas go back from the result, one step
each: `normalize_of_compute`, `read_of_evaluate` and `judge_of_evaluate`.
`isFinite_of_compute` is what the last step leaves.  `compute_eq_evaluate` and
`Postfix.ofText_eq_ok` go on towards the result.
-/

namespace PocketCalculator

/-! ## Computations that succeed -/

section

variable {ε ε' α β : Type} {x : Except ε α} {a : α} {b : β}

theorem exists_ok_of_map {f : α → β} (h : x.map f = .ok b) : ∃ a, x = .ok a ∧ f a = b := by
  cases x with
  | error e => cases h
  | ok a => exact ⟨a, rfl, Except.ok.inj h⟩

theorem exists_ok_of_bind {f : α → Except ε β} (h : x >>= f = .ok b) :
    ∃ a, x = .ok a ∧ f a = .ok b := by
  cases x with
  | error e => cases h
  | ok a => exact ⟨a, rfl, h⟩

theorem ok_of_mapError {f : ε → ε'} (h : x.mapError f = .ok a) : x = .ok a := by
  cases x with
  | error e => cases h
  | ok a' => exact congrArg Except.ok (Except.ok.inj h)

theorem ok_of_ofExcept (h : (MonadExcept.ofExcept x : Except ε α) = .ok a) : x = .ok a := by
  cases x with
  | error e => cases h
  | ok a' => exact h

end

/-! ## One step back -/

variable {lib : Elementary} {space : Namespace (Except Error)} {raw s : Text} {v : Float}

theorem normalize_of_compute (h : compute lib raw = .ok v) :
    ∃ s, Notation.normalize raw = .ok s ∧ evaluate lib (Namespace.degrees lib) s = .ok v :=
  exists_ok_of_bind h

theorem read_of_evaluate (h : evaluate lib space s = .ok v) : ∃ ts, Token.read s = .ok ts := by
  obtain ⟨items, hitems, -⟩ := exists_ok_of_bind h
  obtain ⟨ts, hread, -⟩ := exists_ok_of_bind (ok_of_mapError (ok_of_ofExcept hitems))
  exact ⟨ts, hread⟩

theorem judge_of_evaluate (h : evaluate lib space s = .ok v) : ∃ w, judge w = .ok v := by
  obtain ⟨items, -, hevaluated⟩ := exists_ok_of_bind h
  obtain ⟨w, -, hjudged⟩ := exists_ok_of_bind hevaluated
  exact ⟨w, ok_of_ofExcept hjudged⟩

/-! ## One step on -/

theorem compute_eq_evaluate (lib : Elementary) (h : Notation.normalize raw = .ok s) :
    compute lib raw = evaluate lib (Namespace.degrees lib) s := by
  rw [compute, h]
  rfl

theorem Postfix.ofText_eq_ok {ts : List Token} {items : List Item} (hread : Token.read s = .ok ts)
    (hpass : Postfix.ofTokens ts = .ok items) : Postfix.ofText s = .ok items := by
  rw [Postfix.ofText, hread]
  exact hpass

/-! ## Results are finite -/

theorem isFinite_of_judge {w : Float} (h : judge w = .ok v) : v.isFinite = true := by
  unfold judge at h
  split at h
  · cases h
  case isFalse hnotInf =>
    split at h
    · cases h
    case isFalse hnotNaN =>
      cases h
      -- A float has one of four forms, two of which have been refused.
      rw [Float.isFinite, Float.Model.isFinite]
      cases hv : v.toModel.unpack with
      | infinity sign => exact absurd (by rw [Float.isInf, Float.Model.isInf, hv]; rfl) hnotInf
      | notANumber => exact absurd (by rw [Float.isNaN, Float.Model.isNaN, hv]; rfl) hnotNaN
      | zero sign => rfl
      | finite sign mantissa exponent hpositive => rfl

/-- A finite value is a result. -/
theorem judge_of_isFinite {v : Float} (h : v.isFinite = true) : judge v = .ok v := by
  have hforms : v.isInf = false ∧ v.isNaN = false := by
    rw [Float.isFinite, Float.Model.isFinite] at h
    rw [Float.isInf, Float.Model.isInf, Float.isNaN, Float.Model.isNaN]
    cases hv : v.toModel.unpack with
    | infinity sign | notANumber =>
      rw [hv] at h
      cases h
    | zero sign | finite sign mantissa exponent hpositive => exact ⟨rfl, rfl⟩
  rw [judge, if_neg (by rw [hforms.1]; decide), if_neg (by rw [hforms.2]; decide)]

/-- A computation that succeeds gives a finite number. -/
theorem isFinite_of_compute (h : compute lib raw = .ok v) : v.isFinite = true := by
  obtain ⟨s, -, hevaluated⟩ := normalize_of_compute h
  obtain ⟨w, hjudged⟩ := judge_of_evaluate hevaluated
  exact isFinite_of_judge hjudged

end PocketCalculator
