import PocketCalculator.Text.Basic

/-!
# Functions

The functions that an expression may call, with their names.  In canonical text
the five mathematical ones are qualified, as in `math.sin`, and the factorial is
not.
-/

namespace PocketCalculator

/-- What can be called. -/
inductive Function
  | sqrt
  | log10
  | sin
  | cos
  | tan
  | factorial
deriving DecidableEq, Repr

namespace Function

/-- The plain name of a function. -/
def name : Function → Text
  | sqrt => "sqrt".toList
  | log10 => "log10".toList
  | sin => "sin".toList
  | cos => "cos".toList
  | tan => "tan".toList
  | factorial => "factorial".toList

/-- The functions that are called under the qualifier `math`. -/
def mathematical : List Function := [sqrt, log10, sin, cos, tan]

/-- The qualifier of the mathematical functions. -/
def qualifier : Text := "math".toList

/-- The name of a function in canonical text. -/
def text (f : Function) : Text :=
  if f = factorial then f.name else qualifier ++ '.' :: f.name

/-- The mathematical function of a plain name. -/
def mathematical? (name : Text) : Option Function := mathematical.find? (·.name = name)

/-- The function of a name in canonical text. -/
def ofText? (word : Text) : Option Function := (factorial :: mathematical).find? (·.text = word)

theorem ofText?_text (f : Function) : ofText? f.text = some f := by
  cases f <;> rfl

end Function

end PocketCalculator
