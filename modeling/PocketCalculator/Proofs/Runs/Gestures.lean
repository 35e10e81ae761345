import PocketCalculator.Proofs.Runs.Window

/-!
# What a person does at a window

A person types, or points at something that is drawn.  A `Gesture` says what; where a
label stands on nothing, or the history is folded, nothing happens.  The states that a
person sees are those between two gestures.

* `settle_eq`: the two frames that end a gesture grant the wish for the keyboard and keep
  the cursor within the text, and do nothing else.
* `receive_of_unchanged` and `receive_of_changed`: what the keyboard does, by what the field
  counts.
* `stepOf?_cases`: a gesture types or clicks, and does not do both.
* `gesture_button` and `calculator_press`: a click on the label of a button does the action of
  the button.
* `isOnKeypad_of_stepOf?`: the buttons do only some of the actions.
* `follow_invariant`: what every step keeps holds in every state that a person sees.
* `settled_follow`: no wish for the keyboard is left open there.
-/

namespace PocketCalculator

/-- Whether an action is one that a button does. -/
def Calculator.Action.isOnKeypad : Calculator.Action → Bool
  | .insert _ | .deleteLast | .clearEntry | .equals | .memoryAdd | .memorySubtract | .memoryRecall
  | .memoryClear => true
  | .prepare _ | .refresh | .leaveMessage | .reuse _ => false

namespace Window

open Calculator

/-- What a person does at a window. -/
inductive Gesture
  /-- Events of the keyboard, all in one frame. -/
  | keyboard (events : List Event)
  /-- A click on the label that was drawn last. -/
  | click (label : Text)
  /-- A click on a line of the history. -/
  | history (place : Nat)
deriving DecidableEq, Repr

/-- The step that a gesture makes: events of the keyboard, or a click on what is there.
Where nothing is, there is no step. -/
def stepOf? (w : Window) : Gesture → Option (List Event × Option Widget)
  | .keyboard events => some (events, none)
  | .click label => (w.widgetAt? label).map fun widget => ([], some widget)
  | .history place => (w.historyLineAt? place).map fun widget => ([], some widget)

/-- The window after a gesture. -/
def gesture (lib : Elementary) (w : Window) (g : Gesture) : Window :=
  match w.stepOf? g with
  | some (events, click) => (w.step lib events click).1
  | none => w

/-- The window after a list of gestures. -/
def follow (lib : Elementary) (w : Window) (gestures : List Gesture) : Window :=
  gestures.foldl (gesture lib) w

/-- The wish for the keyboard has been granted when a gesture is over. -/
def settled (c : Calculator) : Calculator := { c with wantsFocus := false }

variable {lib : Elementary} {w : Window}

/-- A step is one of the keyboard, or a click on what a label stands on, or on a line of the
history. -/
theorem stepOf?_cases {g : Gesture} {events : List Event} {click : Option Widget}
    (hmade : w.stepOf? g = some (events, click)) :
    (g = .keyboard events ∧ click = none) ∨
      (∃ label widget, g = .click label ∧ w.widgetAt? label = some widget ∧ events = [] ∧
        click = some widget) ∨
      ∃ place line, g = .history place ∧ events = [] ∧ click = some (.historyLine line) := by
  cases g with
  | keyboard events' =>
    cases hmade
    exact .inl ⟨rfl, rfl⟩
  | click label =>
    obtain ⟨widget, hfound, heq⟩ := Option.map_eq_some_iff.mp hmade
    cases heq
    exact .inr (.inl ⟨label, widget, rfl, hfound, rfl, rfl⟩)
  | history place =>
    obtain ⟨widget, hfound, heq⟩ := Option.map_eq_some_iff.mp hmade
    cases heq
    unfold historyLineAt? at hfound
    split at hfound
    · cases hfound
    · obtain ⟨line, -, rfl⟩ := Option.map_eq_some_iff.mp hfound
      exact .inr (.inr ⟨place, line, rfl, rfl, rfl⟩)

theorem gesture_of_stepOf? {g : Gesture} {events : List Event} {click : Option Widget}
    (hmade : w.stepOf? g = some (events, click)) :
    w.gesture lib g = (w.step lib events click).1 := by
  simp only [gesture, hmade]

/-- A gesture makes its step, or it leaves the window as it is. -/
theorem gesture_induction {P : Window → Prop} {g : Gesture} (hidle : P w)
    (hstep : ∀ events click, w.stepOf? g = some (events, click) → P (w.step lib events click).1) :
    P (w.gesture lib g) := by
  unfold gesture
  split
  case h_1 events click hmade => exact hstep events click hmade
  case h_2 => exact hidle

/-! ## The frames that end a gesture -/

/-- Where the cursor is when the entry line is drawn. -/
def shownCursor (w : Window) : Nat :=
  if w.focused then min w.cursor w.calculator.entry.length else w.cursor

theorem edit_nil : w.edit [] = (false, { w with cursor := w.shownCursor }) := by
  obtain ⟨calculator, focused, cursor, folded⟩ := w
  cases focused <;> rfl

/-- A frame without events only moves the keyboard to or from the entry line. -/
theorem receive_nil (click : Option Widget) :
    w.receive lib [] click =
      { w.directKeyboard click with
        cursor := (w.directKeyboard click).shownCursor }.grantFocus := by
  rw [receive_eq]
  show (if ((w.directKeyboard click).edit []).1 then _ else
    ((w.directKeyboard click).edit []).2.grantFocus) = _
  rw [edit_nil, if_neg (by simp)]

theorem frame_idle :
    (w.frame lib [] none).1 = { w with cursor := w.shownCursor }.grantFocus :=
  receive_nil none

/-- The frames that end a gesture grant the wish for the keyboard, and keep the cursor
within the text. -/
theorem settle_eq :
    w.settle lib =
      let settled := { w with
        calculator := { w.calculator with wantsFocus := false }
        focused := w.focused || w.calculator.wantsFocus }
      { settled with cursor := settled.shownCursor } := by
  unfold settle
  rw [frame_idle, frame_idle, grantFocus_eq, grantFocus_eq]
  unfold shownCursor
  cases w.focused <;> cases w.calculator.wantsFocus <;> simp

/-- The parts of a step, one after the other. -/
theorem calculator_step (events : List Event) (click : Option Widget) (w : Window) :
    (w.step lib events click).1.calculator =
      settled (((w.receive lib events click).enter lib events w).act lib click).1.calculator := by
  show (settle lib _).calculator = _
  rw [settle_eq]
  rfl

/-! ## The keyboard -/

/-- Events that change no text. -/
theorem receive_of_unchanged {events : List Event} {click : Option Widget} {next : Window}
    (h : (w.ready events click).edit (typed events) = (false, next)) :
    w.receive lib events click = next.grantFocus := by
  rw [receive_eq, h]
  rfl

/-- Events that change the text: the preview follows it. -/
theorem receive_of_changed {events : List Event} {click : Option Widget} {next : Window}
    (h : (w.ready events click).edit (typed events) = (true, next)) :
    w.receive lib events click =
      { next.grantFocus with
        calculator := next.grantFocus.calculator.leaveResult.refresh lib } := by
  rw [receive_eq, h]
  rfl

/-- What is in the entry line, and where the cursor is, is up to the field. -/
theorem entry_receive (lib : Elementary) (events : List Event) (click : Option Widget)
    (w : Window) :
    (w.receive lib events click).calculator.entry =
        ((w.ready events click).edit (typed events)).2.calculator.entry ∧
      (w.receive lib events click).cursor =
        ((w.ready events click).edit (typed events)).2.cursor := by
  rw [receive_eq]
  dsimp only
  rw [grantFocus_eq]
  split <;> exact ⟨rfl, rfl⟩

/-- Without an equals sign and `Escape`, the calculator is only prepared before the field sees
the events. -/
theorem ready_of_plain {events : List Event} (hnoSign : equalsEvent ∉ events)
    (hnoEscape : .key .escape ∉ events) :
    typed events = events ∧ w.ready events none = w.prepare events := by
  have hall : typed events = events := by
    refine List.filter_eq_self.mpr fun e he => ?_
    have hother : e ≠ equalsEvent := fun hsame => hnoSign (hsame ▸ he)
    simpa using hother
  refine ⟨hall, ?_⟩
  unfold ready
  rw [hall, escape, if_neg hnoEscape]
  rfl

theorem calculator_keyboard (events : List Event) :
    (w.gesture lib (.keyboard events)).calculator =
      settled ((w.receive lib events none).enter lib events w).calculator :=
  calculator_step events none w

/-! ## Clicks -/

/-- A click does not type. -/
theorem calculator_receive_click (click : Option Widget) :
    (w.receive lib [] click).calculator = settled w.calculator := by
  rw [receive_nil, grantFocus_eq]
  show settled (w.directKeyboard click).calculator = _
  rw [calculator_directKeyboard]

/-- A click on a button does the action of the button. -/
theorem calculator_press (action : Action) (w : Window) :
    (w.step lib [] (some (.button action))).1.calculator =
      settled ((settled w.calculator).perform lib action) := by
  rw [calculator_step]
  show settled ((w.receive lib [] (some (.button action))).calculator.perform lib action) = _
  rw [calculator_receive_click]

theorem mem_drawn_of_widgetAt? {label : Text} {widget : Widget}
    (h : w.widgetAt? label = some widget) : (label, widget) ∈ w.drawn := by
  obtain ⟨⟨drawnLabel, widget⟩, hfound, rfl⟩ := Option.map_eq_some_iff.mp h
  have hsame : drawnLabel = label := by simpa using List.find?_some hfound
  rw [← hsame]
  exact List.mem_reverse.mp (List.mem_of_find?_eq_some hfound)

/-- What does an action is a button with its label. -/
theorem mem_of_widgetAt? {label : Text} {action : Action}
    (h : w.widgetAt? label = some (.button action)) :
    (label, action) ∈ actionButtons ++ typingButtons := by
  have hdrawn : (label, .button action) ∈ w.drawn := mem_drawn_of_widgetAt? h
  have hbutton : (label, .button action) ∈ buttons := by
    simp only [drawn] at hdrawn
    split at hdrawn <;> simpa using hdrawn
  obtain ⟨⟨_, _⟩, hmem, heq⟩ := List.mem_map.mp hbutton
  cases heq
  exact hmem

/-- The label of a button is on the button, whatever else is drawn. -/
theorem widgetAt?_button {label : Text} {action : Action}
    (h : (label, action) ∈ actionButtons ++ typingButtons) :
    w.widgetAt? label = some (.button action) := by
  have hdrawnLast : ∀ button ∈ actionButtons ++ typingButtons,
      (("Copier".toList, Widget.copy) :: buttons ++
        [("Historique".toList, Widget.historyHeader)]).reverse.find? (·.1 = button.1) =
        some (button.1, .button button.2) := by decide
  simp only [widgetAt?, drawn]
  rw [List.append_assoc, List.reverse_append, List.find?_append, hdrawnLast _ h]
  rfl

theorem gesture_button {label : Text} {action : Action}
    (h : (label, action) ∈ actionButtons ++ typingButtons) :
    w.gesture lib (.click label) = (w.step lib [] (some (.button action))).1 := by
  apply gesture_of_stepOf?
  rw [stepOf?, widgetAt?_button h, Option.map_some]

theorem isOnKeypad_of_widgetAt? {label : Text} {action : Action}
    (h : w.widgetAt? label = some (.button action)) : action.isOnKeypad = true := by
  have hall : ∀ button ∈ actionButtons ++ typingButtons, button.2.isOnKeypad = true := by decide
  exact hall _ (mem_of_widgetAt? h)

/-- What is clicked has a label, or it is a line of the history. -/
theorem click_of_stepOf? {g : Gesture} {events : List Event} {widget : Widget}
    (hmade : w.stepOf? g = some (events, some widget)) :
    (∃ label, g = .click label ∧ w.widgetAt? label = some widget) ∨
      ∃ line, widget = .historyLine line := by
  obtain ⟨-, hnone⟩ | ⟨label, widget', hclicked, hfound, -, hsame⟩ | ⟨place, line, -, -, hsame⟩ :=
    stepOf?_cases hmade
  · cases hnone
  · cases hsame
    exact .inl ⟨label, hclicked, hfound⟩
  · cases hsame
    exact .inr ⟨line, rfl⟩

/-- The buttons do only some of the actions. -/
theorem isOnKeypad_of_stepOf? {g : Gesture} {events : List Event} {action : Action}
    (h : w.stepOf? g = some (events, some (.button action))) : action.isOnKeypad = true := by
  obtain ⟨label, -, hfound⟩ | ⟨line, hsame⟩ := click_of_stepOf? h
  · exact isOnKeypad_of_widgetAt? hfound
  · cases hsame

/-- What every step keeps holds in every state that a person sees. -/
theorem follow_invariant {P : Window → Prop}
    (hstep : ∀ w g events click, w.stepOf? g = some (events, click) → P w →
      P (w.step lib events click).1)
    (hstart : P w) (gestures : List Gesture) : P (w.follow lib gestures) := by
  induction gestures generalizing w with
  | nil => exact hstart
  | cons g gestures ih =>
    exact ih (gesture_induction hstart fun events click hmade =>
      hstep w g events click hmade hstart)

/-! ## The wish for the keyboard -/

theorem granted_step (events : List Event) (click : Option Widget) :
    (w.step lib events click).1.calculator.wantsFocus = false := by
  show (settle lib _).calculator.wantsFocus = false
  rw [settle_eq]

/-- No wish for the keyboard is left open. -/
theorem granted_follow (lib : Elementary) (gestures : List Gesture) :
    ((opened lib).follow lib gestures).calculator.wantsFocus = false := by
  refine follow_invariant (P := fun w => w.calculator.wantsFocus = false) ?_ ?_ gestures
  · intro w g events click hmade hgranted
    exact granted_step events click
  · unfold opened
    rw [settle_eq]

theorem settled_follow (lib : Elementary) (gestures : List Gesture) :
    settled ((opened lib).follow lib gestures).calculator =
      ((opened lib).follow lib gestures).calculator := by
  rw [settled, ← granted_follow lib gestures]

end Window

end PocketCalculator
