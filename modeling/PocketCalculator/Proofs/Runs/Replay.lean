import PocketCalculator.Proofs.Number.Shown
import PocketCalculator.Proofs.Runs.Calculator
import PocketCalculator.Proofs.Trimming

/-!
# Replaying a line of the history

A line of the history is a text that was typed, an equals sign between blanks, and a shown
number.  A shown number has no equals sign, so the last one of the line ends what was typed,
whatever that was (`sourceOf_line`).  What was typed had a result when the line was written,
and `compute` has no memory, so it has the same result again (`Reproducible`).

`replay_of_reachable` is the conclusion, for whatever is done to a new calculator.
-/

namespace PocketCalculator

/-! ## Lines -/

/-- An equals sign between blanks needs an equals sign. -/
theorem beforeLast?_of_notMem {s : Text} (h : '=' ∉ s) : beforeLast? equalsSign s = none := by
  induction s with
  | nil => rfl
  | cons c s ih =>
    have hnotLead : dropLead? equalsSign (c :: s) = none := by
      rw [Option.eq_none_iff_forall_ne_some]
      intro rest hlead
      rw [dropLead?_eq_some_iff.mp hlead] at h
      exact h (by simp [equalsSign])
    rw [beforeLast?, ih fun hmem => h (List.mem_cons_of_mem c hmem), hnotLead]
    rfl

/-- Behind the last equals sign there is no other. -/
theorem beforeLast?_line {r : Text} (h : '=' ∉ r) (s : Text) :
    beforeLast? equalsSign (s ++ equalsSign ++ r) = some s := by
  induction s with
  | nil =>
    have hbehind : beforeLast? equalsSign ('=' :: ' ' :: r) = none := by
      rw [beforeLast?, beforeLast?_of_notMem (by simp [h])]
      rfl
    show beforeLast? equalsSign (' ' :: '=' :: ' ' :: r) = some []
    rw [beforeLast?, hbehind]
    rfl
  | cons c s ih =>
    rw [List.cons_append, List.cons_append, beforeLast?, ih]

theorem equals_notMem_result (v : Float) : '=' ∉ Display.result v := by
  intro h
  have hinNumber : '='.isDigit = true ∨ '=' ∈ numberSigns := Display.inNumber_result v _ h
  exact absurd hinNumber (by decide)

/-- The source of a line is what was typed, blanks at its ends aside. -/
theorem Calculator.sourceOf_line (calculation : Calculation) :
    Calculator.sourceOf calculation.line = trim calculation.source := by
  unfold Calculator.sourceOf Calculation.line
  rw [beforeLast?_line (equals_notMem_result calculation.value)]
  rfl

/-! ## Calculations that can be made again -/

namespace Calculator

variable {lib : Elementary} {c : Calculator}

/-- Every kept calculation has the result that it had. -/
def Reproducible (lib : Elementary) (c : Calculator) : Prop :=
  ∀ calculation ∈ c.engine.history, compute lib calculation.source = .ok calculation.value

theorem Reproducible.equals (h : Reproducible lib c) : Reproducible lib (c.equals lib) := by
  cases hshown : c.showsMessage with
  | true => simpa [Calculator.equals, hshown] using h
  | false =>
    have hevaluated : ∀ calculation ∈ (c.engine.evaluate lib c.entry).2.history,
        compute lib calculation.source = .ok calculation.value := by
      unfold Engine.evaluate
      cases hcomputed : compute lib c.entry with
      | error err => exact h
      | ok v =>
        intro calculation hmem
        obtain rfl | hmem := List.mem_cons.mp (List.mem_of_mem_take hmem)
        · exact hcomputed
        · exact h calculation hmem
    unfold Reproducible
    rw [(engine_equals hshown).1]
    exact hevaluated

theorem Reproducible.perform (h : Reproducible lib c) (a : Action) :
    Reproducible lib (c.perform lib a) := by
  by_cases ha : a = .equals
  · rw [ha]
    exact h.equals
  · unfold Reproducible
    rw [history_perform ha]
    exact h

/-- The states that a calculator comes to: it starts out new, its actions are done to it, and
its entry line and its wish for the keyboard are written from outside. -/
inductive Reachable (lib : Elementary) : Calculator → Prop
  | new : Reachable lib {}
  | perform {c : Calculator} (h : Reachable lib c) (a : Action) : Reachable lib (c.perform lib a)
  | write {c : Calculator} (h : Reachable lib c) (entry : Text) (wantsFocus : Bool) :
      Reachable lib { c with entry, wantsFocus }

theorem Reachable.reproducible (h : Reachable lib c) : Reproducible lib c := by
  induction h with
  | new => exact fun _ hmem => absurd hmem List.not_mem_nil
  | perform _ a ih => exact ih.perform a
  | write _ entry wantsFocus ih => exact ih

/-- Replaying a line of the history puts what was typed into the entry line, blanks at its ends
aside, and previews the result of the line; the equals sign then gives this result again and
writes a line of its own. -/
theorem replay_of_reachable (h : Reachable lib c) :
    (∀ calculation ∈ c.engine.history,
      compute lib calculation.source = .ok calculation.value ∧
      let replayed := c.reuse lib calculation.line
      replayed.entry = trim calculation.source ∧
        replayed.showsMessage = false ∧ replayed.showsResult = false ∧
        replayed.preview = "→ ".toList ++ Display.result calculation.value ∧
        let again := replayed.equals lib
        replayed.evaluation? lib = some ⟨trim calculation.source, .ok calculation.value⟩ ∧
          again.mode = .result ∧ again.entry = Display.result calculation.value ∧
          again.engine.lines =
            (trim calculation.source ++ equalsSign ++ Display.result calculation.value) ::
              c.engine.lines.take (historyLimit - 1)) ∧
      ∀ raw, compute lib (trim raw) = compute lib raw := by
  refine ⟨?_, compute_trim lib⟩
  intro calculation hmem
  have hcomputed : compute lib calculation.source = .ok calculation.value :=
    h.reproducible calculation hmem
  refine ⟨hcomputed, ?_⟩
  intro replayed
  have hentry : replayed.entry = trim calculation.source := sourceOf_line calculation
  have hcomputed' : compute lib replayed.entry = .ok calculation.value := by
    rw [hentry, compute_trim, hcomputed]
  have hpreview : replayed.preview = "→ ".toList ++ Display.result calculation.value := by
    show previewOf (compute lib replayed.entry) = _
    rw [hcomputed', previewOf]
  refine ⟨hentry, rfl, rfl, hpreview, ?_⟩
  rw [equals_of_ok rfl hcomputed']
  refine ⟨?_, rfl, rfl, ?_⟩
  · rw [evaluation?_of_not_shown rfl, hcomputed', hentry]
  · show (replayed.engine.evaluate lib replayed.entry).2.lines = _
    rw [Engine.lines_evaluate_of_ok hcomputed', hentry]
    rfl

theorem replay_of_reachable_product :
    let c := (({} : Calculator).perform Elementary.machine (.insert " 6 * 7 ".toList)).perform
      Elementary.machine .equals
    c.engine.lines = [" 6 * 7  = 42".toList] ∧
      let replayed := c.reuse Elementary.machine " 6 * 7  = 42".toList
      replayed.entry = "6 * 7".toList ∧ replayed.preview = "→ 42".toList ∧
        let again := replayed.equals Elementary.machine
        again.mode = .result ∧ again.entry = "42".toList ∧
          again.engine.lines = ["6 * 7 = 42".toList, " 6 * 7  = 42".toList] := by
  intro c
  have hlines : c.engine.lines = [" 6 * 7  = 42".toList] := by decide +kernel
  have hmem : " 6 * 7  = 42".toList ∈ c.engine.lines := by simp [hlines]
  obtain ⟨calculation, hkept, hline⟩ := List.mem_map.mp hmem
  have hreachable : Reachable Elementary.machine c := .perform (.perform .new _) _
  obtain ⟨-, hentry, -, -, hpreview, -, hmode, hresult, hadded⟩ :=
    (replay_of_reachable hreachable).1 calculation hkept
  rw [hline] at hentry hpreview hmode hresult hadded
  have hsource : trim calculation.source = "6 * 7".toList := by
    rw [← sourceOf_line, hline]
    decide
  have hshown : (c.reuse Elementary.machine " 6 * 7  = 42".toList).preview = "→ 42".toList := by
    decide +kernel
  have hvalue : Display.result calculation.value = "42".toList :=
    List.append_cancel_left (hpreview.symm.trans hshown)
  refine ⟨hlines, hentry.trans hsource, hshown, hmode, hresult.trans hvalue, ?_⟩
  rw [hadded, hsource, hvalue, hlines]
  rfl

end Calculator

end PocketCalculator
