import PocketCalculator.Evaluation
import PocketCalculator.Notation.Canonical

/-!
# The engine

The engine computes what is typed, keeps the latest successful calculations and
holds one memory register.  Computing touches neither; evaluating adds one
calculation if it succeeds and nothing if it fails; only the memory operations
move the register.
-/

namespace PocketCalculator

/-- The result of what is typed, angles being in degrees. -/
def compute (lib : Elementary) (raw : Text) : Except Error Float := do
  evaluate lib (Namespace.degrees lib) (← Notation.normalize raw)

/-- A successful calculation: what was typed and its result. -/
structure Calculation where
  source : Text
  value : Float
deriving DecidableEq, Repr

/-- What stands between the source and the value of a calculation in its line. -/
def equalsSign : Text := " = ".toList

/-- The line that shows a calculation. -/
def Calculation.line (c : Calculation) : Text := c.source ++ equalsSign ++ Display.result c.value

/-- How many calculations are kept. -/
def historyLimit : Nat := 10

/-- The memory register and the latest calculations, the newest first. -/
structure Engine where
  memory : Float := 0
  history : List Calculation := []
deriving DecidableEq, Repr

namespace Engine

/-- Computes, and keeps the calculation if it succeeds. -/
def evaluate (lib : Elementary) (raw : Text) (e : Engine) : Except Error Float × Engine :=
  match compute lib raw with
  | .ok v => (.ok v, { e with history := (⟨raw, v⟩ :: e.history).take historyLimit })
  | .error err => (.error err, e)

/-- What the register takes for a number: zero for one that is not finite. -/
def finiteOrZero (x : Float) : Float := if x.isFinite then x else 0

/-- Adds to the register. -/
def add (x : Float) (e : Engine) : Engine := { e with memory := e.memory + finiteOrZero x }

/-- Subtracts from the register. -/
def subtract (x : Float) (e : Engine) : Engine := { e with memory := e.memory - finiteOrZero x }

/-- Sets the register to zero. -/
def clear (e : Engine) : Engine := { e with memory := 0 }

/-- The lines of the kept calculations, the newest first. -/
def lines (e : Engine) : List Text := e.history.map Calculation.line

/-- What can be asked of an engine. -/
inductive Operation
  | compute (raw : Text)
  | evaluate (raw : Text)
  | add (x : Float)
  | subtract (x : Float)
  | clear
deriving DecidableEq, Repr

/-- What an engine answers to an operation, if the operation is one that has an
answer, and the engine after it. -/
def perform (lib : Elementary) (e : Engine) :
    Operation → Option (Except Error Float) × Engine
  | .compute raw => (some (PocketCalculator.compute lib raw), e)
  | .evaluate raw => (e.evaluate lib raw).map some id
  | .add x => (none, e.add x)
  | .subtract x => (none, e.subtract x)
  | .clear => (none, e.clear)

end Engine

end PocketCalculator
