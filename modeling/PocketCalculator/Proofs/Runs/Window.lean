import PocketCalculator.Proofs.Runs.Calculator
import PocketCalculator.Window.Frame

/-!
# Runs of a window

The keyboard reaches the entry line beside the actions of the calculator: the field
edits its text in place, and the flags that say what it shows are set apart, before the
field has seen the events and after.

* `text_handleAll`: a field that counts no change holds the text that it held.
* `showsMessage_prepare`: where there is an event, a message is thrown away before the
  field sees it.
* `receive_eq`: the field sees the events of the window made `ready`, and the preview
  follows a text that has changed.
* `calculator_receive_cases`: the keyboard leaves the calculator as it was prepared, or it
  edits the entry line and the preview follows.
* `faithful_receive`, `faithful_enter` and `faithful_act` are the three parts of a
  frame, and `faithful_frame` puts them together.
* `faithful_of_run` is the conclusion, for runs of a calculator and of a window.
-/

namespace PocketCalculator

/-! ## The field -/

namespace Field

/-- An event counts as a change, or it leaves the text as it is. -/
theorem text_handle (f : Field) (e : Event) :
    (f.handle e).changed = true ∨
      (f.handle e).changed = f.changed ∧ (f.handle e).text = f.text := by
  cases e with
  | text s =>
    simp only [handle]
    split
    · exact .inr ⟨rfl, rfl⟩
    · exact .inl rfl
  | paste s =>
    simp only [handle]
    split
    · exact .inr ⟨rfl, rfl⟩
    · exact .inl rfl
  | key k =>
    cases k with
    | backspace =>
      simp only [handle, press]
      split <;> exact .inl rfl
    | delete => exact .inl rfl
    | enter | escape | arrowLeft | arrowRight | arrowUp | arrowDown | home | last | plain =>
      exact .inr ⟨rfl, rfl⟩

theorem text_handleAll (f : Field) (events : List Event) :
    (f.handleAll events).changed = true ∨
      (f.handleAll events).changed = f.changed ∧ (f.handleAll events).text = f.text := by
  induction events generalizing f with
  | nil => exact .inr ⟨rfl, rfl⟩
  | cons e events ih =>
    rw [handleAll, List.foldl_cons]
    split
    · obtain hchanged | ⟨hchanged, htext⟩ := ih (f.handle e)
      · exact .inl hchanged
      · obtain hchanged' | ⟨hchanged', htext'⟩ := f.text_handle e
        · exact .inl (hchanged.trans hchanged')
        · exact .inr ⟨hchanged.trans hchanged', htext.trans htext'⟩
    · exact ih f

end Field

namespace Window

open Calculator

variable {lib : Elementary} {w : Window} {log : List Evaluation}

/-! ## The log of a run -/

/-- The evaluation that a click makes, if it makes one. -/
def clickEvaluation? (lib : Elementary) (click : Option Widget) (w : Window) :
    Option Evaluation :=
  match click with
  | some (.button action) => action.evaluation? lib w.calculator
  | _ => none

/-- The evaluations that a frame makes, the latest first: one of the keyboard, then one
of the click. -/
def evaluations (lib : Elementary) (events : List Event) (click : Option Widget) (w : Window) :
    List Evaluation :=
  let next := w.receive lib events click
  ((next.enter lib events w).clickEvaluation? lib click).toList ++
    (if next.Evaluates events w then next.calculator.evaluation? lib else none).toList

/-- A list of steps: the evaluations made on the way are put in front of the log.  The
frames that end a step make none (`evaluations_idle`). -/
def run (lib : Elementary) (log : List Evaluation) (w : Window) :
    List (List Event × Option Widget) → List Evaluation × Window
  | [] => (log, w)
  | (events, click) :: steps =>
    run lib (w.evaluations lib events click ++ log) (w.step lib events click).1 steps

/-! ## The first part of a frame -/

@[simp]
theorem calculator_directKeyboard (click : Option Widget) :
    (w.directKeyboard click).calculator = w.calculator := by
  cases click <;> rfl

/-- Events prepare the calculator for a text, throw a message away or leave the calculator. -/
theorem prepare_induction {P : Calculator → Prop} (hstart : P w.calculator)
    (hleft : P w.calculator.leaveMessage) (hprepared : ∀ s, P (w.calculator.prepare s))
    (events : List Event) : P (w.prepare events).calculator := by
  unfold prepare
  split
  · exact hprepared _
  · split
    · exact hleft
    · exact hstart

/-- Where there are events, they prepare the calculator for the first text among them, or throw
a message away. -/
theorem prepare_cases {events : List Event} (h : events ≠ []) (w : Window) :
    (∃ s, events.findSome? textOf? = some s ∧
      w.prepare events = { w with calculator := w.calculator.prepare s }) ∨
      w.prepare events = { w with calculator := w.calculator.leaveMessage } := by
  unfold prepare
  split
  case h_1 s hfound => exact .inl ⟨s, hfound, rfl⟩
  case h_2 hnoText =>
    -- Without a text, all that remains is keys.
    obtain ⟨e, he⟩ := List.exists_mem_of_ne_nil events h
    have hkey : isKey e = true := by
      have hnoText := List.findSome?_eq_none_iff.mp hnoText e he
      cases e with
      | text s | paste s => cases hnoText
      | key k => rfl
    exact .inr (if_pos (List.any_eq_true.mpr ⟨e, he, hkey⟩))

/-- Every event throws a message away. -/
theorem showsMessage_prepare {events : List Event} (h : events ≠ []) :
    (w.prepare events).calculator.showsMessage = false := by
  obtain ⟨s, -, hprepared⟩ | hleft := prepare_cases h w
  · rw [hprepared]
    exact (mode_eq_typing_iff.mp (mode_prepare s)).1
  · rw [hleft]
    exact showsMessage_leaveMessage

/-- The field leaves everything but the text as it is, and the text too if it counts no
change. -/
theorem edit_cases (events : List Event) (w : Window) :
    (w.edit events).1 = false ∧ (w.edit events).2.calculator = w.calculator ∨
      (w.edit events).1 = true ∧ events ≠ [] ∧ ∃ text,
        (w.edit events).2.calculator = { w.calculator with entry := text } := by
  unfold edit
  split
  case isFalse => exact .inl ⟨rfl, rfl⟩
  case isTrue =>
    let start : Field :=
      { text := w.calculator.entry, cursor := min w.cursor w.calculator.entry.length }
    obtain hchanged | ⟨hunchanged, htext⟩ := start.text_handleAll events
    · refine .inr ⟨hchanged, ?_, _, rfl⟩
      rintro rfl
      cases hchanged
    · refine .inl ⟨hunchanged, ?_⟩
      show { w.calculator with entry := (start.handleAll events).text } = w.calculator
      rw [htext]

/-- The events that the field may see: a typed equals sign is set aside. -/
def typed (events : List Event) : List Event := events.filter (· ≠ equalsEvent)

/-- The window when its field sees the events of a frame. -/
def ready (events : List Event) (click : Option Widget) (w : Window) : Window :=
  ((w.escape events).prepare (typed events)).directKeyboard click

/-- What is kept when the entry line is cleared, when a message is thrown away and when the
calculator is prepared for a text holds of the calculator that the field sees, if it held before. -/
theorem ready_induction {P : Calculator → Prop} (hstart : P w.calculator)
    (hcleared : ∀ c, P c → P c.clearEntry) (hleft : ∀ c, P c → P c.leaveMessage)
    (hprepared : ∀ c s, P c → P (c.prepare s)) (events : List Event) (click : Option Widget) :
    P (w.ready events click).calculator := by
  have hescaped : P (w.escape events).calculator := by
    unfold escape
    split
    · exact hcleared _ hstart
    · exact hstart
  rw [ready, calculator_directKeyboard]
  exact prepare_induction hescaped (hleft _ hescaped) (hprepared _ · hescaped) (typed events)

/-- The field sees the events before the wish for the keyboard is granted, and the preview
follows a text that has changed. -/
theorem receive_eq (events : List Event) (click : Option Widget) (w : Window) :
    w.receive lib events click =
      let edited := (w.ready events click).edit (typed events)
      if edited.1 then
        { edited.2.grantFocus with
          calculator := edited.2.grantFocus.calculator.leaveResult.refresh lib }
      else edited.2.grantFocus := rfl

/-- Where the field sees an event, it sees it without a message. -/
theorem showsMessage_ready {events : List Event} (h : typed events ≠ [])
    (click : Option Widget) : (w.ready events click).calculator.showsMessage = false := by
  rw [ready, calculator_directKeyboard]
  exact showsMessage_prepare h

theorem grantFocus_eq :
    w.grantFocus = { w with
      calculator := { w.calculator with wantsFocus := false }
      focused := w.focused || w.calculator.wantsFocus } := by
  unfold grantFocus
  split
  case isTrue hwanted => rw [hwanted, Bool.or_true]
  case isFalse hgranted =>
    have hgranted : w.calculator.wantsFocus = false := by simpa using hgranted
    rw [hgranted, Bool.or_false, ← hgranted]

/-- The keyboard leaves the calculator as it was prepared, or it edits the entry line, and
then the preview follows. -/
theorem calculator_receive_cases (lib : Elementary) (events : List Event) (click : Option Widget)
    (w : Window) :
    let c := { (w.ready events click).calculator with wantsFocus := false }
    (w.receive lib events click).calculator = c ∨
      typed events ≠ [] ∧ ∃ text,
        (w.receive lib events click).calculator =
          { c with entry := text }.leaveResult.refresh lib := by
  intro c
  obtain ⟨hunchanged, hsame⟩ | ⟨hchanged, hsome, text, hsame⟩ :=
    edit_cases (typed events) (w.ready events click)
  · left
    rw [receive_eq, if_neg (by simp [hunchanged]), grantFocus_eq, hsame]
  · right
    refine ⟨hsome, text, ?_⟩
    rw [receive_eq, if_pos hchanged, grantFocus_eq, hsame]

theorem faithful_ready (h : w.calculator.Faithful log) (events : List Event)
    (click : Option Widget) : (w.ready events click).calculator.Faithful log :=
  ready_induction h (fun _ h => h.of_typing rfl rfl) (fun _ h => h.leaveMessage)
    (fun _ s h => h.prepare s) events click

theorem faithful_receive (h : w.calculator.Faithful log) (events : List Event)
    (click : Option Widget) : (w.receive lib events click).calculator.Faithful log := by
  have hreadied : (w.ready events click).calculator.Faithful log := faithful_ready h events click
  obtain hsame | ⟨htypedSome, text, hedited⟩ := calculator_receive_cases lib events click w
  · rw [hsame]
    exact hreadied.aside _ _ _ _
  · rw [hedited]
    -- The text was edited under the flag of a result, which goes with it.
    exact hreadied.of_typing (mode_eq_typing_iff.mpr ⟨showsMessage_ready htypedSome click, rfl⟩) rfl

/-! ## The other parts -/

theorem faithful_enter {before : Window} (h : w.calculator.Faithful log) (events : List Event) :
    (w.enter lib events before).calculator.Faithful
      ((if w.Evaluates events before then w.calculator.evaluation? lib else none).toList ++
        log) := by
  unfold enter
  split
  · exact h.equals
  · exact h

theorem faithful_act (h : w.calculator.Faithful log) (click : Option Widget) :
    (w.act lib click).1.calculator.Faithful ((w.clickEvaluation? lib click).toList ++ log) := by
  cases click with
  | none => exact h
  | some widget =>
    cases widget with
    | button action => exact h.perform action
    | historyLine line => exact h.reuse line
    | theme => exact h.aside _ _ _ _
    | copy =>
      simp only [act, clickEvaluation?]
      split
      · exact h
      · exact h.aside _ _ _ _
    | caption | entry | historyHeader => exact h

/-! ## Frames and steps -/

theorem faithful_frame (h : w.calculator.Faithful log) (events : List Event)
    (click : Option Widget) :
    (w.frame lib events click).1.calculator.Faithful
      (w.evaluations lib events click ++ log) := by
  have hreceived : (w.receive lib events click).calculator.Faithful log :=
    faithful_receive h events click
  unfold evaluations
  rw [List.append_assoc]
  exact faithful_act (faithful_enter hreceived events) click

/-- A frame in which nothing happens makes no evaluation. -/
theorem evaluations_idle : w.evaluations lib [] none = [] := rfl

theorem faithful_idle (h : w.calculator.Faithful log) :
    (w.frame lib [] none).1.calculator.Faithful log := by
  have hidle : (w.frame lib [] none).1.calculator.Faithful (w.evaluations lib [] none ++ log) :=
    faithful_frame h [] none
  rwa [evaluations_idle, List.nil_append] at hidle

theorem faithful_settle (h : w.calculator.Faithful log) :
    (w.settle lib).calculator.Faithful log :=
  faithful_idle (faithful_idle h)

theorem faithful_run (h : w.calculator.Faithful log)
    (steps : List (List Event × Option Widget)) :
    (run lib log w steps).2.calculator.Faithful (run lib log w steps).1 := by
  induction steps generalizing log w with
  | nil => exact h
  | cons step steps ih => exact ih (faithful_settle (faithful_frame h step.1 step.2))

end Window

/-- What the entry line shows is what was evaluated last, whatever is done to a new
calculator, and whatever is done at a new window. -/
theorem faithful_of_run (lib : Elementary) :
    (∀ actions : List Calculator.Action,
      (Calculator.run lib [] {} actions).2.Faithful (Calculator.run lib [] {} actions).1) ∧
    (∀ steps : List (List Event × Option Widget),
      (Window.run lib [] (Window.opened lib) steps).2.calculator.Faithful
        (Window.run lib [] (Window.opened lib) steps).1) :=
  ⟨fun actions => Calculator.Faithful.new.run actions,
    fun steps => Window.faithful_run (Window.faithful_settle Calculator.Faithful.new) steps⟩

end PocketCalculator
