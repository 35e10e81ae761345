import PocketCalculator.Window.Field
import PocketCalculator.Window.Layout

/-!
# Frames

The window works frame by frame.  A frame takes the events of the keyboard and at
most one click, and does the following in order: `Escape` clears the entry line;
an equals sign among the typed texts is set aside; the calculator is prepared for
what is typed; a click moves the keyboard; the field handles the events; a wish
for the keyboard is granted; a change refreshes the preview; an equals sign or
`Enter` evaluates; and the clicked widget acts.

A step is a frame with events or a click, followed by two frames without, so that
a wish for the keyboard is granted and the cursor is within the text when the
step is over.
-/

namespace PocketCalculator.Window

/-- The text of an event, if it is one. -/
def textOf? : Event → Option Text
  | .text s => some s
  | .paste s => some s
  | .key _ => none

/-- Whether an event is a key. -/
def isKey : Event → Bool
  | .key _ => true
  | _ => false

/-- The typed equals sign, which evaluates and is never inserted. -/
def equalsEvent : Event := .text ['=']

/-- The key `Escape` takes the keyboard from the entry line and clears it. -/
def escape (events : List Event) (w : Window) : Window :=
  if .key .escape ∈ events then
    { w with focused := false, calculator := w.calculator.clearEntry }
  else w

/-- Prepares the calculator for what is typed; a key alone throws a message
away.  This does not depend on where the keyboard is directed. -/
def prepare (events : List Event) (w : Window) : Window :=
  match events.findSome? textOf? with
  | some s => { w with calculator := w.calculator.prepare s }
  | none =>
    if events.any isKey then { w with calculator := w.calculator.leaveMessage } else w

/-- A click directs the keyboard to the entry line, or away from it. -/
def directKeyboard (click : Option Widget) (w : Window) : Window :=
  match click with
  | none => w
  | some widget => { w with focused := widget = .entry }

/-- Whether the field of the window is changed by the events, and the window
after them. -/
def edit (events : List Event) (w : Window) : Bool × Window :=
  if w.focused then
    let start : Field :=
      { text := w.calculator.entry, cursor := min w.cursor w.calculator.entry.length }
    let field := start.handleAll events
    (field.changed,
      { w with
        calculator := { w.calculator with entry := field.text }
        focused := field.focused
        cursor := field.cursor })
  else (false, w)

/-- Grants the wish for the keyboard. -/
def grantFocus (w : Window) : Window :=
  if w.calculator.wantsFocus then
    { w with focused := true, calculator := { w.calculator with wantsFocus := false } }
  else w

/-- The first part of a frame: the keyboard reaches the entry line, and what is
shown follows the change. -/
def receive (lib : Elementary) (events : List Event) (click : Option Widget) (w : Window) :
    Window :=
  let typed := events.filter (· ≠ equalsEvent)
  let (changed, next) :=
    (((w.escape events).prepare typed).directKeyboard click).edit typed
  let next := next.grantFocus
  if changed then { next with calculator := next.calculator.leaveResult.refresh lib } else next

/-- Whether the events of a frame evaluate: a typed equals sign does, and so does
`Enter` if the entry line has the keyboard, or had it before the frame. -/
def Evaluates (events : List Event) (w before : Window) : Prop :=
  equalsEvent ∈ events ∨ .key .enter ∈ events ∧ (before.focused ∨ w.focused)

instance (events : List Event) (w before : Window) : Decidable (w.Evaluates events before) :=
  inferInstanceAs (Decidable (_ ∨ _))

/-- The second part of a frame: an equals sign or `Enter` evaluates. -/
def enter (lib : Elementary) (events : List Event) (w before : Window) : Window :=
  if w.Evaluates events before then { w with calculator := w.calculator.equals lib } else w

/-- The last part of a frame: what a click does, and the text that it copies. -/
def act (lib : Elementary) (click : Option Widget) (w : Window) : Window × Option Text :=
  let c := w.calculator
  match click with
  | some .theme => ({ w with calculator := { c with dark := !c.dark } }, none)
  | some .copy =>
    if c.entry.all isBlank then (w, none)
    else ({ w with calculator := c.focus }, some c.entry)
  | some (.button action) => ({ w with calculator := c.perform lib action }, none)
  | some .historyHeader => ({ w with folded := !w.folded }, none)
  | some (.historyLine line) => ({ w with calculator := c.reuse lib line }, none)
  | some .caption | some .entry | none => (w, none)

/-- One frame, and the text that it copies. -/
def frame (lib : Elementary) (events : List Event) (click : Option Widget) (w : Window) :
    Window × Option Text :=
  ((w.receive lib events click).enter lib events w).act lib click

/-- Two frames in which nothing happens. -/
def settle (lib : Elementary) (w : Window) : Window :=
  ((w.frame lib [] none).1.frame lib [] none).1

/-- A window that has just been opened. -/
def opened (lib : Elementary) : Window := settle lib {}

/-- One step of a person at the window, and the text that it copies. -/
def step (lib : Elementary) (events : List Event) (click : Option Widget) (w : Window) :
    Window × Option Text :=
  let (next, copied) := w.frame lib events click
  (next.settle lib, copied)

end PocketCalculator.Window
