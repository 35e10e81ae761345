import PocketCalculator.Proofs.Results

/-!
# Runs of an engine

An engine is asked one operation after another.  What it answers and what it
holds can be read off the operations alone, without any engine: `Operation.answer?`
is the answer to an operation, `Operation.calculation?` the calculation that is
kept for it, and `Operation.register` what it does to the memory register.

* `history_evaluate`: the kept calculations are a front of all that succeeded, and
  stay one when another is evaluated.
* `Refines`: the invariant that ties an engine to the operations asked so far.
  `Refines.perform` is one operation, `Refines.run` a list of them.
* `run_eq_log` is the conclusion for an engine that starts out new.
-/

namespace PocketCalculator

/-- The calculation that is kept for an answer: none for an error. -/
def Calculation.ofAnswer? (source : Text) : Except Error Float → Option Calculation
  | .ok v => some ⟨source, v⟩
  | .error _ => none

namespace Engine

variable {lib : Elementary} {e : Engine} {raw : Text}

/-! ## One evaluation -/

@[simp]
theorem answer_evaluate : (e.evaluate lib raw).1 = compute lib raw := by
  unfold evaluate
  split <;> simp only [*]

@[simp]
theorem memory_evaluate : (e.evaluate lib raw).2.memory = e.memory := by
  unfold evaluate
  split <;> rfl

/-- A history that is a front of a list of calculations stays one, of the list with
the new calculation at its head. -/
theorem history_evaluate {all : List Calculation} (h : e.history = all.take historyLimit) :
    (e.evaluate lib raw).2.history =
      ((Calculation.ofAnswer? raw (compute lib raw)).toList ++ all).take historyLimit := by
  unfold evaluate
  cases compute lib raw with
  | error err => exact h
  | ok v =>
    have hfront (c : Calculation) :
        (c :: all.take historyLimit).take historyLimit = (c :: all).take historyLimit := by
      simp [historyLimit, List.take_take]
    simp only [h, Calculation.ofAnswer?, Option.toList_some, List.singleton_append, hfront]

/-- The line of an evaluation that succeeds is the newest one. -/
theorem lines_evaluate_of_ok {v : Float} (h : compute lib raw = .ok v) :
    (e.evaluate lib raw).2.lines =
      (raw ++ equalsSign ++ Display.result v) :: e.lines.take (historyLimit - 1) := by
  simp [evaluate, h, lines, Calculation.line, historyLimit]

/-! ## The log of a run -/

namespace Operation

/-- The answer to an operation, which does not depend on what came before. -/
def answer? (lib : Elementary) : Operation → Option (Except Error Float)
  | compute raw | evaluate raw => some (PocketCalculator.compute lib raw)
  | add _ | subtract _ | clear => none

theorem computed_of_answer? {op : Operation} {v : Float}
    (h : op.answer? lib = some (.ok v)) : ∃ raw, PocketCalculator.compute lib raw = .ok v := by
  cases op with
  | compute raw | evaluate raw => exact ⟨raw, Option.some.inj h⟩
  | add | subtract | clear => cases h

/-- The calculation that an operation leaves in the history. -/
def calculation? (lib : Elementary) : Operation → Option Calculation
  | evaluate raw => Calculation.ofAnswer? raw (PocketCalculator.compute lib raw)
  | compute _ | add _ | subtract _ | clear => none

/-- Whether an operation is one of the memory. -/
def isMemory : Operation → Bool
  | add _ | subtract _ | clear => true
  | compute _ | evaluate _ => false

/-- What an operation makes of the number in the register. -/
def register (m : Float) : Operation → Float
  | add x => m + if x.isFinite then x else 0
  | subtract x => m - if x.isFinite then x else 0
  | clear => 0
  | compute _ | evaluate _ => m

end Operation

/-- The answers to a list of operations, and the engine after them. -/
def run (lib : Elementary) (e : Engine) :
    List Operation → List (Option (Except Error Float)) × Engine
  | [] => ([], e)
  | op :: ops =>
    let (answer, next) := e.perform lib op
    let (answers, last) := run lib next ops
    (answer :: answers, last)

theorem run_append (e : Engine) (ops ops' : List Operation) :
    (run lib e (ops ++ ops')).2 = (run lib (run lib e ops).2 ops').2 := by
  induction ops generalizing e with
  | nil => rfl
  | cons op ops ih => exact ih _

/-- An engine holds what the operations so far say. -/
structure Refines (lib : Elementary) (log : List Operation) (e : Engine) : Prop where
  history : e.history = (log.filterMap (Operation.calculation? lib)).reverse.take historyLimit
  memory : e.memory = (log.filter Operation.isMemory).foldl Operation.register 0

theorem Refines.new : Refines lib [] {} := ⟨rfl, rfl⟩

/-! ## One operation -/

theorem answer_perform (op : Operation) : (e.perform lib op).1 = op.answer? lib := by
  cases op with
  | evaluate raw => exact congrArg some answer_evaluate
  | compute | add | subtract | clear => rfl

theorem history_perform {all : List Calculation} (h : e.history = all.take historyLimit)
    (op : Operation) :
    (e.perform lib op).2.history =
      ((op.calculation? lib).toList ++ all).take historyLimit := by
  cases op with
  | evaluate raw => exact history_evaluate h
  | compute | add | subtract | clear => exact h

theorem memory_perform (op : Operation) :
    (e.perform lib op).2.memory = op.register e.memory := by
  cases op with
  | evaluate raw => exact memory_evaluate
  | compute | add | subtract | clear => rfl

theorem Operation.register_of_not_isMemory {op : Operation} (h : op.isMemory = false) (m : Float) :
    op.register m = m := by
  cases op with
  | compute | evaluate => rfl
  | add | subtract | clear => cases h

/-- One operation: an evaluation puts its calculation at the head of the history, and
an operation of the memory is the last one of the fold. -/
theorem Refines.perform {log : List Operation} (h : Refines lib log e) (op : Operation) :
    Refines lib (log ++ [op]) (e.perform lib op).2 where
  history := by
    rw [history_perform h.history, List.filterMap_append, List.reverse_append]
    cases hop : op.calculation? lib <;> simp [List.filterMap, hop]
  memory := by
    rw [memory_perform, h.memory, List.filter_append, List.foldl_append]
    cases hop : op.isMemory with
    | true => simp [List.filter, hop]
    | false => simp [List.filter, hop, Operation.register_of_not_isMemory hop]

/-- A list of operations: the answers are those of the operations, one by one, and the
engine follows the whole log. -/
theorem Refines.run {log : List Operation} (h : Refines lib log e) (ops : List Operation) :
    (e.run lib ops).1 = ops.map (Operation.answer? lib) ∧
      Refines lib (log ++ ops) (e.run lib ops).2 := by
  induction ops generalizing log e with
  | nil => exact ⟨rfl, by simpa [Engine.run] using h⟩
  | cons op ops ih =>
    obtain ⟨hanswers, hlast⟩ := ih (h.perform op)
    rw [List.append_assoc, List.singleton_append] at hlast
    exact ⟨by simp [Engine.run, hanswers, answer_perform], hlast⟩

/-- A run of a new engine refines the log of its operations: each answer is that of its
operation alone, every number answered is finite, the lines hold the source and the shown
value of the ten latest evaluations that succeeded, the newest first, and the register is what
the operations of the memory leave in it. -/
theorem run_eq_log (lib : Elementary) (ops : List Operation) :
    (run lib {} ops).1 = ops.map (Operation.answer? lib) ∧
      (∀ v, some (.ok v) ∈ (run lib {} ops).1 → v.isFinite = true) ∧
      (run lib {} ops).2.lines =
        ((ops.filterMap (Operation.calculation? lib)).reverse.map fun calculation =>
          calculation.source ++ equalsSign ++ Display.result calculation.value).take 10 ∧
      (run lib {} ops).2.memory = (ops.filter Operation.isMemory).foldl Operation.register 0 := by
  have hstart : Refines lib [] {} := .new
  obtain ⟨hanswers, hlast⟩ := hstart.run ops
  refine ⟨hanswers, ?_, ?_, hlast.memory⟩
  · intro v hv
    rw [hanswers, List.mem_map] at hv
    obtain ⟨op, -, hop⟩ := hv
    obtain ⟨raw, hcomputed⟩ := Operation.computed_of_answer? hop
    exact isFinite_of_compute hcomputed
  · rw [lines, hlast.history, List.map_take]
    rfl

end Engine

end PocketCalculator
