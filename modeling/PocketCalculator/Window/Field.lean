import PocketCalculator.Text.Basic

/-!
# The text field

The entry line is edited in a field with a cursor, which counts the characters
before it.  A field takes typed and pasted texts and the keys that move the
cursor or remove a character; `Enter` gives the keyboard away, and what comes
after it is not for the field.
-/

namespace PocketCalculator

/-- The keys that the window tells apart. -/
inductive Key
  | enter
  | escape
  | backspace
  | delete
  | arrowLeft
  | arrowRight
  | arrowUp
  | arrowDown
  | home
  | last
  /-- A key that does nothing by itself. -/
  | plain
deriving DecidableEq, Repr

/-- What the keyboard sends. -/
inductive Event
  | text (s : Text)
  | paste (s : Text)
  | key (k : Key)
deriving DecidableEq, Repr

/-- A text under edition.  `changed` says whether an event counted as a change. -/
structure Field where
  text : Text
  cursor : Nat
  focused : Bool := true
  changed : Bool := false
deriving DecidableEq, Repr

namespace Field

/-- Puts a text at the cursor, and the cursor after it. -/
def insert (s : Text) (f : Field) : Field :=
  { f with
    text := f.text.take f.cursor ++ s ++ f.text.drop f.cursor
    cursor := f.cursor + s.length
    changed := true }

/-- Removes the character before the cursor. -/
def deleteBefore (f : Field) : Field :=
  { f with text := f.text.eraseIdx (f.cursor - 1), cursor := f.cursor - 1, changed := true }

/-- Removes the character after the cursor. -/
def deleteAfter (f : Field) : Field := { f with text := f.text.eraseIdx f.cursor, changed := true }

/-- Moves the cursor, but not past the end. -/
def moveTo (cursor : Nat) (f : Field) : Field := { f with cursor := min cursor f.text.length }

/-- A pasted text in one line. -/
def flatten (s : Text) : Text := s.map fun c => if c = '\r' ∨ c = '\n' then ' ' else c

/-- What a key does to a field. -/
def press (f : Field) : Key → Field
  | .enter => { f with focused := false }
  | .backspace => if f.cursor = 0 then { f with changed := true } else f.deleteBefore
  | .delete => f.deleteAfter
  | .arrowLeft => f.moveTo (f.cursor - 1)
  | .arrowRight => f.moveTo (f.cursor + 1)
  | .home | .arrowUp => f.moveTo 0
  | .last | .arrowDown => f.moveTo f.text.length
  | .escape | .plain => f

/-- What an event does to a field. -/
def handle (f : Field) : Event → Field
  | .text s => if s = [] ∨ s = ['\n'] ∨ s = ['\r'] then f else f.insert s
  | .paste s => if s = [] then f else f.insert (flatten s)
  | .key k => f.press k

/-- Handles events in order, as long as the field has the keyboard. -/
def handleAll (f : Field) (events : List Event) : Field :=
  events.foldl (fun f e => if f.focused then f.handle e else f) f

end Field

end PocketCalculator
