import PocketCalculator.Calculator
import PocketCalculator.Proofs.Runs.Engine

/-!
# Runs of a calculator

The entry line is one text, and two flags say whether it is to be read as a message or
as a result.  Text and flags are set apart from each other, so that they agree is an
invariant of runs.

A run is watched from outside: `Calculator.run` keeps a log of the evaluations that
were made, the latest first, each with the text that was evaluated and the answer of
the engine.  `Calculator.Faithful` says that the calculator shows what this log says.

* `mode_perform`: an action that edits the entry line leaves neither a message nor a
  result.
* `engine_perform`: the engine is used by its operations alone.
* `Faithful.equals` is the one action that sets a flag.
* `Faithful.perform` is one action, and `Faithful.run` a list of them.
-/

namespace PocketCalculator

/-- An evaluation that was made: the text in the entry line, and the answer. -/
structure Evaluation where
  source : Text
  answer : Except Error Float

/-- The calculation that an evaluation leaves in the history. -/
def Evaluation.calculation? (e : Evaluation) : Option Calculation :=
  Calculation.ofAnswer? e.source e.answer

namespace Calculator

variable {lib : Elementary} {c : Calculator} {log : List Evaluation}

/-! ## The log of a run -/

/-- The evaluation that the equals sign makes, if it makes one. -/
def evaluation? (lib : Elementary) (c : Calculator) : Option Evaluation :=
  if c.showsMessage then none else some ⟨c.entry, (c.engine.evaluate lib c.entry).1⟩

/-- The evaluation that an action makes, if it makes one. -/
def Action.evaluation? (lib : Elementary) (c : Calculator) : Action → Option Evaluation
  | .equals => c.evaluation? lib
  | _ => none

/-- A list of actions: the evaluations made on the way are put in front of the log. -/
def run (lib : Elementary) (log : List Evaluation) (c : Calculator) :
    List Action → List Evaluation × Calculator
  | [] => (log, c)
  | a :: actions => run lib ((a.evaluation? lib c).toList ++ log) (c.perform lib a) actions

/-- A calculator shows what the log of its evaluations says. -/
structure Faithful (log : List Evaluation) (c : Calculator) : Prop where
  /-- The entry line is never a message and a result at once. -/
  exclusive : ¬(c.showsMessage = true ∧ c.showsResult = true)
  /-- A message is that of the latest evaluation. -/
  message : c.showsMessage = true → ∃ source err earlier,
    log = ⟨source, .error err⟩ :: earlier ∧ c.entry = err.message
  /-- A result is that of the latest evaluation, and its line is the newest of the
  history. -/
  result : c.showsResult = true → ∃ source v earlier older,
    log = ⟨source, .ok v⟩ :: earlier ∧ c.entry = Display.result v ∧
      c.engine.lines = (source ++ equalsSign ++ c.entry) :: older
  /-- The history is that of the evaluations that succeeded. -/
  history : c.engine.history = (log.filterMap Evaluation.calculation?).take historyLimit

theorem Faithful.new : Faithful [] {} where
  exclusive := by simp
  message h := by cases h
  result h := by cases h
  history := rfl

/-- The preview, the theme, the wish for the keyboard and the memory do not matter. -/
theorem Faithful.aside (h : Faithful log c) (preview : Text) (dark wantsFocus : Bool)
    (memory : Float) :
    Faithful log { c with preview, dark, wantsFocus, engine := { c.engine with memory } } :=
  ⟨h.exclusive, h.message, h.result, h.history⟩

/-! ## Modes -/

theorem mode_eq_typing_iff :
    c.mode = .typing ↔ c.showsMessage = false ∧ c.showsResult = false := by
  unfold mode
  cases c.showsMessage <;> cases c.showsResult <;> simp

/-- Without a message and a result there is nothing to be faithful to but the history. -/
theorem Faithful.of_typing {next : Calculator} (h : Faithful log c) (htyping : next.mode = .typing)
    (hkept : next.engine.history = c.engine.history) : Faithful log next := by
  obtain ⟨hnoMessage, hnoResult⟩ := mode_eq_typing_iff.mp htyping
  exact {
    exclusive := by simp [hnoMessage]
    message := by simp [hnoMessage]
    result := by simp [hnoResult]
    history := hkept.trans h.history }

/-! ## One action -/

@[simp]
theorem showsMessage_leaveMessage : c.leaveMessage.showsMessage = false := by
  unfold leaveMessage
  split <;> simp_all

@[simp]
theorem engine_leaveMessage : c.leaveMessage.engine = c.engine := by
  unfold leaveMessage
  split <;> rfl

theorem leaveMessage_of_not_shown (h : c.showsMessage = false) : c.leaveMessage = c := by
  simp [leaveMessage, h]

/-- Nothing is thrown away but a message, and a result before a number. -/
theorem prepare_of_kept (hnoMessage : c.showsMessage = false) {s : Text}
    (hkept : c.showsResult = true → startsNumber s = false) : c.prepare s = c.leaveResult := by
  have hnotThrown : ¬(c.showsResult && startsNumber s) = true := by
    cases hshown : c.showsResult with
    | false => simp
    | true => simp [hkept hshown]
  simp only [prepare, leaveMessage_of_not_shown hnoMessage]
  rw [if_neg hnotThrown]

theorem mode_prepare (s : Text) : (c.prepare s).mode = .typing := by
  refine mode_eq_typing_iff.mpr ⟨?_, rfl⟩
  simp only [prepare, leaveResult]
  split <;> exact showsMessage_leaveMessage

@[simp]
theorem engine_prepare (s : Text) : (c.prepare s).engine = c.engine := by
  simp only [prepare, leaveResult]
  split <;> exact engine_leaveMessage

/-- Whether an action sets the text of the entry line to something typed or recalled. -/
def Action.Edits : Action → Prop
  | .insert _ | .prepare _ | .deleteLast | .clearEntry | .memoryRecall | .reuse _ => True
  | .refresh | .leaveMessage | .equals | .memoryAdd | .memorySubtract | .memoryClear => False

theorem mode_perform {a : Action} (h : a.Edits) : (c.perform lib a).mode = .typing := by
  cases a with
  | insert s | prepare s => exact mode_prepare s
  | deleteLast | memoryRecall => exact mode_eq_typing_iff.mpr ⟨showsMessage_leaveMessage, rfl⟩
  | clearEntry | reuse line => rfl
  | refresh | leaveMessage | equals | memoryAdd | memorySubtract | memoryClear => cases h

/-- Only an evaluation changes the history. -/
theorem history_perform {a : Action} (h : a ≠ .equals) :
    (c.perform lib a).engine.history = c.engine.history := by
  cases a with
  | equals => exact absurd rfl h
  | insert s | prepare s => exact congrArg Engine.history (engine_prepare s)
  | leaveMessage | deleteLast | memoryRecall => exact congrArg Engine.history engine_leaveMessage
  | refresh | clearEntry | memoryAdd | memorySubtract | memoryClear | reuse line => rfl

theorem Faithful.leaveMessage (h : Faithful log c) : Faithful log c.leaveMessage := by
  unfold Calculator.leaveMessage
  split
  case isTrue hshown =>
    have hnoResult : c.showsResult = false := by simpa [hshown] using h.exclusive
    exact h.of_typing (mode_eq_typing_iff.mpr ⟨rfl, hnoResult⟩) rfl
  case isFalse => exact h

theorem evaluation?_of_not_shown (hshown : c.showsMessage = false) :
    c.evaluation? lib = some ⟨c.entry, compute lib c.entry⟩ := by
  simp [evaluation?, hshown]

/-- A shown message is not evaluated. -/
theorem equals_of_shown (hshown : c.showsMessage = true) : c.equals lib = c := by
  simp [Calculator.equals, hshown]

theorem equals_of_ok {v : Float} (hshown : c.showsMessage = false)
    (hcomputed : compute lib c.entry = .ok v) :
    c.equals lib =
      { c with
        entry := Display.result v, preview := [], showsResult := true
        engine := (c.engine.evaluate lib c.entry).2, wantsFocus := true } := by
  simp [Calculator.equals, Engine.evaluate, hshown, hcomputed]

theorem equals_of_error {err : Error} (hshown : c.showsMessage = false)
    (hcomputed : compute lib c.entry = .error err) :
    c.equals lib =
      { c with
        entry := err.message, preview := [], showsMessage := true, showsResult := false
        engine := (c.engine.evaluate lib c.entry).2, wantsFocus := true } := by
  simp [Calculator.equals, Engine.evaluate, hshown, hcomputed]

/-! ## What an action touches -/

/-- Neither the engine nor the theme is touched. -/
structure Keeps (c next : Calculator) : Prop where
  engine : next.engine = c.engine
  dark : next.dark = c.dark

theorem Keeps.refl (c : Calculator) : c.Keeps c := ⟨rfl, rfl⟩

theorem Keeps.trans {next last : Calculator} (h : c.Keeps next) (h' : next.Keeps last) :
    c.Keeps last :=
  ⟨h'.engine.trans h.engine, h'.dark.trans h.dark⟩

theorem keeps_leaveMessage (c : Calculator) : c.Keeps c.leaveMessage := by
  unfold Calculator.leaveMessage
  split
  · exact ⟨rfl, rfl⟩
  · exact .refl c

theorem keeps_prepare (s : Text) (c : Calculator) : c.Keeps (c.prepare s) := by
  apply (keeps_leaveMessage c).trans
  simp only [Calculator.prepare, leaveResult]
  split <;> exact ⟨rfl, rfl⟩

/-- The actions that use the engine. -/
def Action.usesEngine : Action → Bool
  | .equals | .memoryAdd | .memorySubtract | .memoryClear => true
  | .insert _ | .prepare _ | .refresh | .leaveMessage | .deleteLast | .clearEntry | .memoryRecall
  | .reuse _ => false

theorem keeps_perform {a : Action} (h : a.usesEngine = false) : c.Keeps (c.perform lib a) := by
  cases a with
  | prepare s => exact keeps_prepare s c
  | insert s => exact (keeps_prepare s c).trans ⟨rfl, rfl⟩
  | leaveMessage => exact keeps_leaveMessage c
  | deleteLast | memoryRecall => exact (keeps_leaveMessage c).trans ⟨rfl, rfl⟩
  | refresh | clearEntry | reuse line => exact ⟨rfl, rfl⟩
  | equals | memoryAdd | memorySubtract | memoryClear => cases h

/-- What an action asks of the engine, if it asks anything. -/
def Action.operation? (c : Calculator) : Action → Option Engine.Operation
  | .equals => if c.showsMessage then none else some (.evaluate c.entry)
  | .memoryAdd => some (.add c.entryNumber)
  | .memorySubtract => some (.subtract c.entryNumber)
  | .memoryClear => some .clear
  | .insert _ | .prepare _ | .refresh | .leaveMessage | .deleteLast | .clearEntry | .memoryRecall
  | .reuse _ => none

/-- An evaluation asks the engine for one, and leaves the theme. -/
theorem engine_equals (hshown : c.showsMessage = false) :
    (c.equals lib).engine = (c.engine.evaluate lib c.entry).2 ∧ (c.equals lib).dark = c.dark := by
  cases hcomputed : compute lib c.entry with
  | error err =>
    rw [equals_of_error hshown hcomputed]
    exact ⟨rfl, rfl⟩
  | ok v =>
    rw [equals_of_ok hshown hcomputed]
    exact ⟨rfl, rfl⟩

/-- The engine is used by its operations alone. -/
theorem engine_perform (a : Action) :
    (c.perform lib a).engine = (Engine.run lib c.engine (a.operation? c).toList).2 := by
  cases a with
  | equals =>
    show (c.equals lib).engine = _
    cases hshown : c.showsMessage with
    | true =>
      rw [equals_of_shown hshown, Action.operation?, if_pos hshown]
      rfl
    | false =>
      rw [(engine_equals hshown).1, Action.operation?, hshown, if_neg Bool.false_ne_true]
      rfl
  | memoryAdd | memorySubtract | memoryClear => rfl
  | insert | prepare | refresh | leaveMessage | deleteLast | clearEntry | memoryRecall | reuse =>
    exact (keeps_perform rfl).engine

/-- No action changes the theme. -/
theorem dark_perform (a : Action) : (c.perform lib a).dark = c.dark := by
  cases a with
  | equals =>
    show (c.equals lib).dark = c.dark
    cases hshown : c.showsMessage with
    | true => rw [equals_of_shown hshown]
    | false => exact (engine_equals hshown).2
  | memoryAdd | memorySubtract | memoryClear => rfl
  | insert | prepare | refresh | leaveMessage | deleteLast | clearEntry | memoryRecall | reuse =>
    exact (keeps_perform rfl).dark

/-- The register has three actions. -/
def Action.movesMemory : Action → Bool
  | .memoryAdd | .memorySubtract | .memoryClear => true
  | .equals | .insert _ | .prepare _ | .refresh | .leaveMessage | .deleteLast | .clearEntry
  | .memoryRecall | .reuse _ => false

theorem memory_perform {a : Action} (h : a.movesMemory = false) :
    (c.perform lib a).engine.memory = c.engine.memory := by
  cases a with
  | equals =>
    show (c.equals lib).engine.memory = c.engine.memory
    cases hshown : c.showsMessage with
    | true => rw [equals_of_shown hshown]
    | false =>
      rw [(engine_equals hshown).1]
      exact Engine.memory_evaluate
  | memoryAdd | memorySubtract | memoryClear => cases h
  | insert | prepare | refresh | leaveMessage | deleteLast | clearEntry | memoryRecall | reuse =>
    exact congrArg Engine.memory (keeps_perform rfl).engine

/-! ## What a log says -/

/-- An evaluation sets one of the flags to what it has just put into the entry line. -/
theorem Faithful.equals (h : Faithful log c) :
    Faithful ((c.evaluation? lib).toList ++ log) (c.equals lib) := by
  cases hshown : c.showsMessage with
  | true => simpa [evaluation?, Calculator.equals, hshown] using h
  | false =>
    have hkept : (c.engine.evaluate lib c.entry).2.history =
        ((Calculation.ofAnswer? c.entry (compute lib c.entry)).toList ++
          log.filterMap Evaluation.calculation?).take historyLimit :=
      Engine.history_evaluate h.history
    rw [evaluation?_of_not_shown hshown]
    cases hcomputed : compute lib c.entry with
    | error err =>
      rw [hcomputed] at hkept
      rw [equals_of_error hshown hcomputed]
      exact {
        exclusive := by simp
        message := fun _ => ⟨c.entry, err, log, rfl, rfl⟩
        result := by simp
        history := hkept }
    | ok v =>
      rw [hcomputed] at hkept
      rw [equals_of_ok hshown hcomputed]
      exact {
        exclusive := by simp [hshown]
        message := by simp [hshown]
        result := fun _ =>
          ⟨c.entry, v, log, _, rfl, rfl, Engine.lines_evaluate_of_ok hcomputed⟩
        history := hkept }

theorem Faithful.perform (h : Faithful log c) (a : Action) :
    Faithful ((a.evaluation? lib c).toList ++ log) (c.perform lib a) := by
  cases a with
  | equals => exact h.equals
  | leaveMessage => exact h.leaveMessage
  | refresh | memoryAdd | memorySubtract | memoryClear =>
    exact h.aside _ _ _ _
  | insert s | prepare s | deleteLast | clearEntry | memoryRecall | reuse line =>
    exact h.of_typing (mode_perform trivial) (history_perform (by simp))

theorem Faithful.prepare (h : Faithful log c) (s : Text) : Faithful log (c.prepare s) :=
  h.of_typing (mode_prepare s) (congrArg Engine.history (engine_prepare s))

theorem Faithful.reuse (h : Faithful log c) (line : Text) : Faithful log (c.reuse lib line) :=
  h.of_typing rfl rfl

/-- A list of actions. -/
theorem Faithful.run (h : Faithful log c) (actions : List Action) :
    Faithful (run lib log c actions).1 (run lib log c actions).2 := by
  induction actions generalizing log c with
  | nil => exact h
  | cons a actions ih => exact ih (h.perform a)

/-- A result is followed by an operator, and its line stays when the message comes. -/
example :
    let c := (run Elementary.machine [] {}
      [.insert "6*7".toList, .equals, .insert "/0".toList, .equals]).2
    c.mode = .message ∧ c.entry = "Division par zéro impossible.".toList ∧
      c.engine.lines = ["6*7 = 42".toList] := by
  decide +kernel

end Calculator

end PocketCalculator
