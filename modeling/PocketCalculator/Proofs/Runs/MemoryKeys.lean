import PocketCalculator.Proofs.Number.ReadBack
import PocketCalculator.Proofs.Number.Zeros
import PocketCalculator.Proofs.Runs.Memory
import PocketCalculator.Proofs.Runs.Replay

/-!
# The memory keys

The keys `M+` and `M−` do not know the result that an evaluation has just given: they read the
entry line, where its text is.  That text is read back as the result itself, or as zero for either
of the zeros, which would make a difference only to a register that holds the zero with a minus.
No register does.

* `held_ne_neg_zero`: the register after a list of operations.
* `Calculator.memoryAdd_of_shown` and `Calculator.memorySubtract_of_shown`: the keys, where a
  finite number is shown.
* `Calculator.memory_of_shown` is the conclusion.
-/

namespace PocketCalculator

open Magnitude
open Display (reread)

/-! ## The register -/

namespace Engine

variable {m : Float} {lib : Elementary}

/-- No operation leaves the zero with a minus. -/
theorem register_ne_neg_zero (hm : m ≠ -0) (hnumber : m.isNaN = false) (op : Operation) :
    op.register m ≠ -0 := by
  cases hfinite : m.isFinite with
  | true =>
    cases op with
    | add x => exact add_ne_neg_zero hfinite (isFinite_finiteOrZero x) hm
    | subtract x => exact sub_ne_neg_zero hfinite (isFinite_finiteOrZero x) hm
    | clear => exact zero_ne_neg_zero
    | compute raw | evaluate raw => exact hm
  | false =>
    by_cases hcleared : op = .clear
    · subst hcleared
      exact zero_ne_neg_zero
    · rwa [register_of_infinite hfinite hnumber hcleared]

theorem held_ne_neg_zero (ops : List Operation) : held ops ≠ -0 := by
  induction ops using List.reverseRecOn with
  | nil => exact zero_ne_neg_zero
  | append_singleton ops op ih =>
    rw [held_concat]
    exact register_ne_neg_zero ih (isNaN_held ops) op

theorem finiteOrZero_of_isFinite {x : Float} (hx : x.isFinite = true) : finiteOrZero x = x :=
  if_pos hx

end Engine

/-! ## Shown numbers -/

namespace Display

variable {v : Float}

theorem isFinite_reread (hfinite : v.isFinite = true) : (reread v).isFinite = true := by
  unfold reread
  split
  · rfl
  · exact hfinite

/-- A register does not tell what is read back from what was shown. -/
theorem add_reread {m : Float} (hm : m ≠ -0) (v : Float) : m + reread v = m + v := by
  unfold reread
  split
  case isTrue hzero => rw [add_of_zero hm hzero, add_of_zero hm (by decide)]
  case isFalse => rfl

theorem sub_reread {m : Float} (hm : m ≠ -0) (v : Float) : m - reread v = m - v := by
  unfold reread
  split
  case isTrue hzero => rw [sub_of_zero hm hzero, sub_of_zero hm (by decide)]
  case isFalse => rfl

end Display

/-! ## The keys -/

namespace Calculator

variable {lib : Elementary} {c : Calculator} {v : Float}

/-- The entry line reads as the number that it shows. -/
theorem entryNumber_of_shown (hnoMessage : c.showsMessage = false)
    (hshown : c.entry = Display.result v) (hfinite : v.isFinite = true) :
    c.entryNumber = reread v := by
  rw [entryNumber, hnoMessage, if_neg Bool.false_ne_true, hshown, Display.trim_result,
    Display.read?_result hfinite, Option.getD_some]

theorem memoryAdd_of_shown (hm : c.engine.memory ≠ -0) (hnoMessage : c.showsMessage = false)
    (hshown : c.entry = Display.result v) (hfinite : v.isFinite = true) :
    c.memoryAdd.engine.memory = c.engine.memory + v := by
  show c.engine.memory + Engine.finiteOrZero c.entryNumber = _
  rw [entryNumber_of_shown hnoMessage hshown hfinite,
    Engine.finiteOrZero_of_isFinite (Display.isFinite_reread hfinite), Display.add_reread hm]

theorem memorySubtract_of_shown (hm : c.engine.memory ≠ -0) (hnoMessage : c.showsMessage = false)
    (hshown : c.entry = Display.result v) (hfinite : v.isFinite = true) :
    c.memorySubtract.engine.memory = c.engine.memory - v := by
  show c.engine.memory - Engine.finiteOrZero c.entryNumber = _
  rw [entryNumber_of_shown hnoMessage hshown hfinite,
    Engine.finiteOrZero_of_isFinite (Display.isFinite_reread hfinite), Display.sub_reread hm]

/-- A recalled register is shown, and the keys leave it where it is. -/
theorem memoryRecall_shows (lib : Elementary) (c : Calculator) :
    (c.memoryRecall lib).showsMessage = false ∧
      (c.memoryRecall lib).engine = c.engine ∧
      (c.memoryRecall lib).entry = Display.result c.engine.memory := by
  refine ⟨showsMessage_leaveMessage, engine_leaveMessage, ?_⟩
  show Display.result c.leaveMessage.engine.memory = _
  rw [engine_leaveMessage]

/-- The engine of every calculator has been used by its operations alone. -/
theorem Reachable.exists_run (h : Reachable lib c) :
    ∃ ops, c.engine = (Engine.run lib {} ops).2 := by
  induction h with
  | new => exact ⟨[], rfl⟩
  | @perform c _ a ih =>
    obtain ⟨ops, hengine⟩ := ih
    refine ⟨ops ++ (a.operation? c).toList, ?_⟩
    rw [engine_perform, hengine, Engine.run_append]
  | write _ entry wantsFocus ih => exact ih

/-- What is shown is what the memory keys use.  Every finite number is read back from its text,
as a number equal to it.  Where an evaluation has just given `v`, the register `m` becomes `m + v`
by `M+` and `m - v` by `M−`; and a finite register that is recalled and then subtracted becomes
zero.  This is so for every calculator whose engine has been used by its operations alone. -/
theorem memory_of_shown (lib : Elementary) :
    (∀ x : Float, x.isFinite = true →
      Numeral.read? (Display.result x) = some (reread x) ∧ (reread x == x) = true) ∧
    ∀ (ops : List Engine.Operation) (c : Calculator), c.engine = (Engine.run lib {} ops).2 →
      (∀ v, c.evaluation? lib = some ⟨c.entry, .ok v⟩ →
        let shown := c.equals lib
        shown.engine.memory = c.engine.memory ∧
          shown.memoryAdd.engine.memory = c.engine.memory + v ∧
          shown.memorySubtract.engine.memory = c.engine.memory - v) ∧
      (c.engine.memory.isFinite = true →
        (c.memoryRecall lib).memorySubtract.engine.memory = 0) := by
  refine ⟨fun x hfinite => ⟨Display.read?_result hfinite, Display.reread_beq hfinite⟩, ?_⟩
  intro ops c hengine
  have hm : c.engine.memory ≠ -0 := by
    rw [hengine, Engine.memory_run]
    exact Engine.held_ne_neg_zero ops
  constructor
  · intro v hevaluated shown
    obtain ⟨hnoMessage, hcomputed⟩ := evaluation?_eq_ok_iff.mp hevaluated
    have hfinite : v.isFinite = true := isFinite_of_compute hcomputed
    have hresult : shown = _ := equals_of_ok hnoMessage hcomputed
    have hmemory : shown.engine.memory = c.engine.memory := by
      rw [hresult]
      exact Engine.memory_evaluate
    have hnoMessage' : shown.showsMessage = false := by rw [hresult]; exact hnoMessage
    have hentry : shown.entry = Display.result v := by rw [hresult]
    rw [← hmemory] at hm ⊢
    exact ⟨rfl, memoryAdd_of_shown hm hnoMessage' hentry hfinite,
      memorySubtract_of_shown hm hnoMessage' hentry hfinite⟩
  · intro hfinite
    obtain ⟨hnoMessage, hkept, hentry⟩ := memoryRecall_shows lib c
    rw [← hkept] at hm hfinite hentry
    rw [memorySubtract_of_shown hm hnoMessage hentry hfinite]
    exact sub_itself hfinite hm

/-- A result with an exponent, and a register that holds another. -/
theorem memory_of_shown_small :
    let add := ((({} : Calculator).perform Elementary.machine (.insert "1/8".toList)).perform
      Elementary.machine .equals).perform Elementary.machine .memoryAdd
    let c := add.perform Elementary.machine (.insert "1/10000000".toList)
    let shown := c.equals Elementary.machine
    Display.result 1e-7 = "1e-7".toList ∧ Numeral.read? "1e-7".toList = some 1e-7 ∧
      shown.entry = "1e-7".toList ∧ c.engine.memory = 0.125 ∧
      shown.memoryAdd.engine.memory = 0.125 + 1e-7 ∧
      shown.memorySubtract.engine.memory = 0.125 - 1e-7 ∧
      (c.memoryRecall Elementary.machine).memorySubtract.engine.memory = 0 := by
  intro add c shown
  have hreachable : Reachable Elementary.machine c :=
    .perform (.perform (.perform (.perform .new _) _) _) _
  obtain ⟨ops, hengine⟩ := hreachable.exists_run
  have htext : Display.result 1e-7 = "1e-7".toList := by decide +kernel
  have hvalue : reread 1e-7 = 1e-7 := by decide +kernel
  have hmemory : c.engine.memory = 0.125 := by decide +kernel
  have hcomputed : compute Elementary.machine c.entry = .ok 1e-7 := by decide +kernel
  have hevaluated : c.evaluation? Elementary.machine = some ⟨c.entry, .ok 1e-7⟩ :=
    evaluation?_eq_ok_iff.mpr ⟨by decide +kernel, hcomputed⟩
  obtain ⟨hreading, hkeys⟩ := memory_of_shown Elementary.machine
  have hread := (hreading 1e-7 (by decide +kernel)).1
  rw [htext, hvalue] at hread
  obtain ⟨hused, hrecalled⟩ := hkeys ops c hengine
  obtain ⟨-, hadded, hsubtracted⟩ := hused 1e-7 hevaluated
  rw [hmemory] at hadded hsubtracted
  refine ⟨htext, hread, by decide +kernel, hmemory, hadded, hsubtracted, ?_⟩
  exact hrecalled (by rw [hmemory]; decide +kernel)

end Calculator

end PocketCalculator
