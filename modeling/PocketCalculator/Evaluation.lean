import PocketCalculator.Factorial
import PocketCalculator.Postfix
import PocketCalculator.Token.Reader

/-!
# Evaluation

A list in postfix order is evaluated on a stack of numbers.  What a function
call does is up to a *namespace*, which may fail and may have further effects;
`recorded` makes one that also keeps a list of its calls.  Infinities and values
that are no number travel through the evaluation, and only the final value is
judged (`judge`).
-/

namespace PocketCalculator

/-- What a call of each function does. -/
abbrev Namespace (m : Type → Type) := Function → Float → m Float

/-- Degrees as radians. -/
def radiansOf (degrees : Float) : Float := degrees * pi / 180

/-- Below this magnitude a cosine counts as zero. -/
def cosineThreshold : Float := 1e-10

namespace Namespace

/-- Angles in degrees; the tangent is refused where the cosine is nearly zero. -/
def degrees (lib : Elementary) : Namespace (Except Error)
  | .sqrt, x => .ok x.sqrt
  | .log10, x => .ok (lib.log10 x)
  | .sin, x => .ok (lib.sin (radiansOf x))
  | .cos, x => .ok (lib.cos (radiansOf x))
  | .tan, x =>
    if (lib.cos (radiansOf x)).abs < cosineThreshold then .error .tangentDomain
    else .ok (lib.tan (radiansOf x))
  | .factorial, x => factorial lib x

/-- Angles in radians. -/
def radians (lib : Elementary) : Namespace (Except Error)
  | .sqrt, x => .ok x.sqrt
  | .log10, x => .ok (lib.log10 x)
  | .sin, x => .ok (lib.sin x)
  | .cos, x => .ok (lib.cos x)
  | .tan, x => .ok (lib.tan x)
  | .factorial, x => factorial lib x

/-- A namespace in which every function adds a number of its own, so that the
result shows which ones were called. -/
def shifts : Namespace (Except Error)
  | .sqrt, x => .ok (x + 1)
  | .log10, x => .ok (x + 2)
  | .sin, x => .ok (x + 3)
  | .cos, x => .ok (x + 4)
  | .tan, x => if x == 0 then .error .tangentDomain else .ok (x + 5)
  | .factorial, x => if x < 0 then .error .invalidOperand else .ok (x + 6)

end Namespace

/-- One call of a function. -/
structure Call where
  function : Function
  argument : Float
deriving DecidableEq, Repr

/-- A call in words: the function's name and the number as it is shown. -/
def Call.text (c : Call) : Text := c.function.name ++ ' ' :: Display.result c.argument

/-- The same namespace with its calls kept, the latest first; a call that fails
is kept too. -/
def Namespace.recorded (space : Namespace (Except Error)) :
    Namespace (ExceptT Error (StateM (List Call))) := fun f x => do
  modify (⟨f, x⟩ :: ·)
  MonadExcept.ofExcept (space f x)

/-- A power.  An exponent that is not finite gives no number on the bases one and
minus one, where the plain power would hide it. -/
def power (lib : Elementary) (a b : Float) : Float :=
  if !b.isFinite && a.abs == 1 then Magnitude.toFloat (Magnitude.overflow + 1)
  else lib.pow a b

/-- The value of an operator on two operands. -/
def Operator.apply (lib : Elementary) : Operator → Float → Float → Float
  | add, a, b => a + b
  | sub, a, b => a - b
  | mul, a, b => a * b
  | div, a, b => a / b
  | pow, a, b => power lib a b

/-- An infinite result counts as a division by zero, and one that is no number
as an invalid expression. -/
def judge (v : Float) : Except Error Float :=
  if v.isInf then .error .divisionByZero
  else if v.isNaN then .error .invalidExpression
  else .ok v

section

variable {m : Type → Type} [Monad m] [MonadExceptOf Error m]

/-- Evaluates items in postfix order on a stack of values. -/
def Postfix.eval (lib : Elementary) (space : Namespace m) : List Item → List Float → m Float
  | [], [v] => pure v
  | .number x :: items, stack => eval lib space items (x :: stack)
  | .neg :: items, a :: stack => eval lib space items (-a :: stack)
  | .function f :: items, a :: stack => do
    let v ← space f a
    eval lib space items (v :: stack)
  | .operator o :: items, b :: a :: stack => eval lib space items (o.apply lib a b :: stack)
  | _, _ => throw (Error.malformed .unbalancedPostfix)

/-- The items in postfix order of a canonical text. -/
def Postfix.ofText (s : Text) : Except SyntaxFault (List Item) := do
  Postfix.ofTokens (← Token.read s)

/-- Evaluates a canonical text. -/
def evaluate (lib : Elementary) (space : Namespace m) (s : Text) : m Float := do
  let items ← MonadExcept.ofExcept ((Postfix.ofText s).mapError Error.malformed)
  let v ← Postfix.eval lib space items []
  MonadExcept.ofExcept (judge v)

end

end PocketCalculator
