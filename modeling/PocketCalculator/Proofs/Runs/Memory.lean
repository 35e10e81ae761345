import PocketCalculator.Proofs.Number.Sums
import PocketCalculator.Proofs.Runs.Engine
import PocketCalculator.Proofs.Runs.Reuse

/-!
# The memory register

A number that is not finite counts as zero in the register, so each operation adds a finite
number.  Their sum need not be finite: it overflows as soon as the exact sum reaches the midpoint
behind the largest double (`Operation.Overflows`).  The register is infinite from then on, until
it is cleared.

* `isNaN_register`, `isFinite_register` and `register_of_infinite`: one operation.
* `overflowed_concat` and `isFinite_held`: a list of operations.
* `memory_of_run` is the conclusion for an engine that starts out new, and says what a recall of
  the register shows.
-/

namespace PocketCalculator

open Magnitude (signedGrains beyond)

namespace Engine

variable {m x : Float} {op : Operation} {lib : Elementary} {ops : List Operation}

/-! ## One operation -/

/-- What an operation adds to the register, in grains. -/
def Operation.amount : Operation → Int
  | add x => signedGrains (finiteOrZero x)
  | subtract x => -signedGrains (finiteOrZero x)
  | clear | compute _ | evaluate _ => 0

/-- Whether a finite register cannot hold what an operation adds to it: the exact sum is not
below the midpoint behind the largest double. -/
def Operation.Overflows (m : Float) (op : Operation) : Prop :=
  m.isFinite = true ∧ beyond ≤ 2 * (signedGrains m + op.amount).natAbs

theorem isFinite_finiteOrZero (x : Float) : (finiteOrZero x).isFinite = true := by
  unfold finiteOrZero
  split
  · assumption
  · rfl

theorem isFinite_zero : (0 : Float).isFinite = true := by decide

theorem isNaN_zero : (0 : Float).isNaN = false := by decide

/-- Nothing added does not overflow. -/
theorem not_overflows_of_amount (h : op.amount = 0) : ¬op.Overflows m := by
  rintro ⟨hm, hreached⟩
  have hheld := Magnitude.signedGrains_lt hm
  rw [h, Int.add_zero] at hreached
  omega

/-- A finite register stays finite, unless it overflows. -/
theorem isFinite_register_of_finite (hm : m.isFinite = true) (op : Operation) :
    (op.register m).isFinite = true ↔ ¬op.Overflows m := by
  cases op with
  | add x =>
    show (m + finiteOrZero x).isFinite = true ↔ _
    rw [Magnitude.isFinite_add hm (isFinite_finiteOrZero x), Operation.Overflows, Operation.amount]
    simp [hm]
  | subtract x =>
    show (m - finiteOrZero x).isFinite = true ↔ _
    rw [Magnitude.isFinite_sub hm (isFinite_finiteOrZero x), Operation.Overflows, Operation.amount]
    simp [hm, Int.sub_eq_add_neg]
  | clear => exact iff_of_true isFinite_zero (not_overflows_of_amount rfl)
  | compute raw | evaluate raw => exact iff_of_true hm (not_overflows_of_amount rfl)

/-- An infinite register stays as it is, unless it is cleared. -/
theorem register_of_infinite (hm : m.isFinite = false) (hnumber : m.isNaN = false)
    (h : op ≠ .clear) : op.register m = m := by
  cases op with
  | add x => exact Magnitude.add_of_infinite hm hnumber (isFinite_finiteOrZero x)
  | subtract x => exact Magnitude.sub_of_infinite hm hnumber (isFinite_finiteOrZero x)
  | clear => exact absurd rfl h
  | compute raw | evaluate raw => rfl

/-- The register is a number, finite or not. -/
theorem isNaN_register (hnumber : m.isNaN = false) (op : Operation) :
    (op.register m).isNaN = false := by
  cases hm : m.isFinite with
  | true =>
    cases op with
    | add x => exact Magnitude.isNaN_add hm (isFinite_finiteOrZero x)
    | subtract x => exact Magnitude.isNaN_sub hm (isFinite_finiteOrZero x)
    | clear => exact isNaN_zero
    | compute raw | evaluate raw => exact hnumber
  | false =>
    by_cases hcleared : op = .clear
    · subst hcleared
      exact isNaN_zero
    · rwa [register_of_infinite hm hnumber hcleared]

/-- The register is infinite if it overflows, or if it was infinite and is not cleared. -/
theorem isFinite_register (hnumber : m.isNaN = false) (op : Operation) :
    (op.register m).isFinite = false ↔ op.Overflows m ∨ op ≠ .clear ∧ m.isFinite = false := by
  cases hm : m.isFinite with
  | true =>
    rw [← Bool.not_eq_true, isFinite_register_of_finite hm op]
    simp
  | false =>
    have hfull : ¬op.Overflows m := fun h => Bool.false_ne_true (hm.symm.trans h.1)
    by_cases hcleared : op = .clear
    · subst hcleared
      show (0 : Float).isFinite = false ↔ _
      simp [hfull, isFinite_zero]
    · rw [register_of_infinite hm hnumber hcleared, hm]
      simp [hcleared]

/-! ## A list of operations -/

/-- What a new register holds after a list of operations. -/
def held (ops : List Operation) : Float := ops.foldl Operation.register 0

theorem held_concat (ops : List Operation) (op : Operation) :
    held (ops ++ [op]) = op.register (held ops) := by
  simp [held]

theorem memory_run (e : Engine) (ops : List Operation) :
    (run lib e ops).2.memory = ops.foldl Operation.register e.memory := by
  induction ops generalizing e with
  | nil => rfl
  | cons op ops ih =>
    rw [List.foldl_cons, ← memory_perform]
    exact ih _

theorem isNaN_held (ops : List Operation) : (held ops).isNaN = false := by
  induction ops using List.reverseRecOn with
  | nil => rfl
  | append_singleton ops op ih =>
    rw [held_concat]
    exact isNaN_register ih op

/-- Whether an operation since the register was cleared has overflowed it. -/
def Overflowed (ops : List Operation) : Prop :=
  ∃ earlier op later, ops = earlier ++ op :: later ∧ .clear ∉ later ∧ op.Overflows (held earlier)

theorem overflowed_concat :
    Overflowed (ops ++ [op]) ↔ op.Overflows (held ops) ∨ op ≠ .clear ∧ Overflowed ops := by
  constructor
  · rintro ⟨earlier, op', later, hsplit, hkept, hfull⟩
    obtain rfl | ⟨later, last, rfl⟩ := later.eq_nil_or_concat
    · obtain ⟨rfl, hsame⟩ := List.append_inj' hsplit rfl
      cases hsame
      exact .inl hfull
    · rw [List.concat_eq_append] at hkept hsplit
      rw [← List.cons_append, ← List.append_assoc] at hsplit
      obtain ⟨rfl, hsame⟩ := List.append_inj' hsplit rfl
      cases hsame
      simp only [List.mem_append, List.mem_singleton, not_or] at hkept
      exact .inr ⟨Ne.symm hkept.2, earlier, op', later, rfl, hkept.1, hfull⟩
  · rintro (hfull | ⟨hcleared, earlier, op', later, rfl, hkept, hfull⟩)
    · exact ⟨ops, op, [], rfl, List.not_mem_nil, hfull⟩
    · refine ⟨earlier, op', later ++ [op], by simp, ?_, hfull⟩
      simp [hkept, Ne.symm hcleared]

/-- The register is infinite exactly if an operation since it was cleared has overflowed it. -/
theorem isFinite_held (ops : List Operation) : (held ops).isFinite = false ↔ Overflowed ops := by
  induction ops using List.reverseRecOn with
  | nil =>
    refine iff_of_false (by decide) ?_
    rintro ⟨earlier, op, later, hsplit, -⟩
    cases earlier <;> cases hsplit
  | append_singleton ops op ih =>
    rw [held_concat, isFinite_register (isNaN_held ops), ih, overflowed_concat]

/-! ## Recalling the register -/

/-- What stands for the two infinities. -/
def infinityTexts : List Text := ["inf".toList, "-inf".toList]

theorem compute_infinityText {text : Text} (h : text ∈ infinityTexts) :
    compute lib text = .error (.malformed (.unknownName "inf".toList)) := by
  simp only [infinityTexts, List.mem_cons, List.not_mem_nil, or_false] at h
  obtain rfl | rfl := h <;> rfl

/-- A register that is a number is shown as one of the infinities exactly if it is infinite. -/
theorem result_mem_infinityTexts (hnumber : m.isNaN = false) :
    Display.result m ∈ infinityTexts ↔ m.isFinite = false := by
  cases hm : m.isFinite with
  | true =>
    refine iff_of_false (fun h => ?_) (by simp)
    have hnamed : compute Elementary.machine (Display.result m) = _ := compute_infinityText h
    rw [Display.compute_result _ hm] at hnamed
    split at hnamed
    · cases hnamed
    · simp at hnamed
  | false =>
    refine iff_of_true ?_ rfl
    obtain ⟨s, rfl⟩ := Magnitude.eq_infinity hm hnumber
    cases s <;> decide +kernel

/-- A run of a new engine keeps a number in the register.  It is infinite exactly if some
operation since the register was cleared has overflowed it: the register was finite, and the
exact sum reached the midpoint behind the largest double.  A recall then puts the text of an
infinity into the entry line, and otherwise it does not. -/
theorem memory_of_run (lib : Elementary) (ops : List Operation) :
    let m := (run lib {} ops).2.memory
    m.isNaN = false ∧
    (m.isFinite = false ↔ ∃ earlier op later, ops = earlier ++ op :: later ∧
      .clear ∉ later ∧ op.Overflows (run lib {} earlier).2.memory) ∧
    ∀ c : Calculator,
      let recalled := { c with engine := (run lib {} ops).2 }.memoryRecall lib
      recalled.entry = Display.result m ∧
        (recalled.entry ∈ ["inf".toList, "-inf".toList] ↔ m.isFinite = false) := by
  have hmemory (ops : List Operation) : (run lib {} ops).2.memory = held ops := memory_run {} ops
  intro m
  have hm : m = held ops := hmemory ops
  refine ⟨?_, ?_, ?_⟩
  · rw [hm]
    exact isNaN_held ops
  · rw [hm, isFinite_held]
    simp only [Overflowed, hmemory]
  · intro c recalled
    have hentry : recalled.entry = Display.result m := by
      show Display.result (Calculator.leaveMessage _).engine.memory = _
      rw [Calculator.engine_leaveMessage]
    refine ⟨hentry, ?_⟩
    rw [hentry, hm]
    exact result_mem_infinityTexts (isNaN_held ops)

/-- The largest double, added twice, is more than the register can hold. -/
theorem largest_twice_overflows :
    let engine := (run Elementary.machine {}
      [.add 1.7976931348623157e308, .add 1.7976931348623157e308]).2
    engine.memory.isFinite = false ∧
      (Calculator.memoryRecall Elementary.machine { engine }).entry = "inf".toList := by
  decide +kernel

end Engine

end PocketCalculator
