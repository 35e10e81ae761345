import PocketCalculator.Engine

/-!
# The calculator

A calculator has one entry line, a preview of its result, and an engine.  The
entry line shows what is being typed, the result of an evaluation, or the message
of one that failed; two flags say so, and `Calculator.mode` reads them.  A message
is thrown away by the next keystroke, and a result by a keystroke that starts a
number.

The preview is refreshed by whatever edits the entry, and cleared by an
evaluation.  `Action` lists what can be done to a calculator.
-/

namespace PocketCalculator

/-- What the entry line shows. -/
inductive Mode
  | typing
  | result
  | message
deriving DecidableEq, Repr

/-- The state of a calculator. `showsMessage` and `showsResult` say what the entry
line shows, and `wantsFocus` asks for the keyboard to be directed to it. -/
structure Calculator where
  entry : Text := []
  preview : Text := []
  showsMessage : Bool := false
  showsResult : Bool := false
  engine : Engine := {}
  dark : Bool := false
  wantsFocus : Bool := true
deriving DecidableEq, Repr

namespace Calculator

/-- What the entry line shows. -/
def mode (c : Calculator) : Mode :=
  if c.showsMessage then .message else if c.showsResult then .result else .typing

/-- Asks for the keyboard. -/
def focus (c : Calculator) : Calculator := { c with wantsFocus := true }

/-- Empties the entry line. -/
def clearEntry (c : Calculator) : Calculator :=
  { c with
    entry := [], preview := [], showsMessage := false, showsResult := false, wantsFocus := true }

/-- Throws a shown message away. -/
def leaveMessage (c : Calculator) : Calculator :=
  if c.showsMessage then { c with entry := [], showsMessage := false } else c

/-- A shown result is edited from now on. -/
def leaveResult (c : Calculator) : Calculator := { c with showsResult := false }

/-- Whether a typed text starts a number. -/
def startsNumber : Text → Bool
  | c :: _ => c.isDigit || c == '.'
  | [] => false

/-- Prepares the entry line for a typed text: a message is thrown away, and so is
a result if the text starts a number. -/
def prepare (s : Text) (c : Calculator) : Calculator :=
  let c := c.leaveMessage
  let c := if c.showsResult && startsNumber s then { c with entry := [] } else c
  c.leaveResult

/-- The preview of a result. -/
def previewOf : Except Error Float → Text
  | .ok v => "→ ".toList ++ Display.result v
  | .error _ => []

/-- Shows the result of the entry line, if it has one. -/
def refresh (lib : Elementary) (c : Calculator) : Calculator :=
  { c with preview := previewOf (compute lib c.entry) }

/-- Types a text at the end of the entry line. -/
def insert (lib : Elementary) (s : Text) (c : Calculator) : Calculator :=
  let c := c.prepare s
  ({ c with entry := c.entry ++ s }.refresh lib).focus

/-- Takes the last character away. -/
def deleteLast (lib : Elementary) (c : Calculator) : Calculator :=
  let c := c.leaveMessage
  ({ c with entry := c.entry.dropLast }.leaveResult.refresh lib).focus

/-- Evaluates the entry line, and shows the result or the message in its place.
A shown message is not evaluated. -/
def equals (lib : Elementary) (c : Calculator) : Calculator :=
  if c.showsMessage then c
  else
    match c.engine.evaluate lib c.entry with
    | (.ok v, engine) =>
      { c with
        entry := Display.result v, preview := [], showsResult := true, engine, wantsFocus := true }
    | (.error err, engine) =>
      { c with
        entry := err.message, preview := [], showsMessage := true, showsResult := false, engine
        wantsFocus := true }

/-- The number that the entry line reads as, and zero if it reads as none. -/
def entryNumber (c : Calculator) : Float :=
  if c.showsMessage then 0 else (Numeral.read? (trim c.entry)).getD 0

/-- Adds the entry to the memory. -/
def memoryAdd (c : Calculator) : Calculator :=
  { c with engine := c.engine.add c.entryNumber }.focus

/-- Subtracts the entry from the memory. -/
def memorySubtract (c : Calculator) : Calculator :=
  { c with engine := c.engine.subtract c.entryNumber }.focus

/-- Puts the memory into the entry line. -/
def memoryRecall (lib : Elementary) (c : Calculator) : Calculator :=
  let c := c.leaveMessage
  ({ c with entry := Display.result c.engine.memory }.leaveResult.refresh lib).focus

/-- Sets the memory to zero. -/
def memoryClear (c : Calculator) : Calculator := { c with engine := c.engine.clear }.focus

/-- What was typed in the line of a calculation: the part before the last equals
sign, blanks at its ends aside. -/
def sourceOf (line : Text) : Text := trim ((beforeLast? equalsSign line).getD line)

/-- Puts the source of a calculation back into the entry line. -/
def reuse (lib : Elementary) (line : Text) (c : Calculator) : Calculator :=
  let c := { c with entry := sourceOf line, showsMessage := false, showsResult := false }
  (c.refresh lib).focus

/-- What can be done to a calculator. -/
inductive Action
  | insert (s : Text)
  | prepare (s : Text)
  | refresh
  | leaveMessage
  | deleteLast
  | clearEntry
  | equals
  | memoryAdd
  | memorySubtract
  | memoryRecall
  | memoryClear
  | reuse (line : Text)
deriving DecidableEq, Repr

/-- Does an action. -/
def perform (lib : Elementary) (c : Calculator) : Action → Calculator
  | .insert s => c.insert lib s
  | .prepare s => c.prepare s
  | .refresh => c.refresh lib
  | .leaveMessage => c.leaveMessage
  | .deleteLast => c.deleteLast lib
  | .clearEntry => c.clearEntry
  | .equals => c.equals lib
  | .memoryAdd => c.memoryAdd
  | .memorySubtract => c.memorySubtract
  | .memoryRecall => c.memoryRecall lib
  | .memoryClear => c.memoryClear
  | .reuse line => c.reuse lib line

end Calculator

end PocketCalculator
