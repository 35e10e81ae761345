import PocketCalculator.Function
import PocketCalculator.Number.Display
import PocketCalculator.Number.Numeral

/-!
# Tokens

The tokens of canonical text, and how each is written.  The sign `neg` is a token
too, because lists in postfix order are written with the same words, but reading
a text never yields it.
-/

namespace PocketCalculator

/-- The operators between two operands. -/
inductive Operator
  | add
  | sub
  | mul
  | div
  | pow
deriving DecidableEq, Repr

/-- How an operator is written. -/
def Operator.text : Operator → Text
  | add => ['+']
  | sub => ['-']
  | mul => ['*']
  | div => ['/']
  | pow => ['*', '*']

/-- One token. -/
inductive Token
  | number (x : Float)
  | function (f : Function)
  | operator (o : Operator)
  | neg
  | opening
  | closing
deriving DecidableEq, Repr

namespace Token

/-- How a token is written. -/
def text : Token → Text
  | number x => Display.positional x
  | function f => f.text
  | operator o => o.text
  | neg => "neg".toList
  | opening => ['(']
  | closing => [')']

/-- Tokens in one line, with a blank between two. -/
def render (ts : List Token) : Text := List.intercalate [' '] (ts.map text)

/-- The tokens that are not numbers. -/
def symbols : List Token :=
  [opening, closing, operator .add, operator .sub, operator .mul, operator .div, operator .pow, neg,
    function .factorial] ++ Function.mathematical.map function

/-- The token that is written as `s`; what is no symbol has to be a number. -/
def ofText? (s : Text) : Option Token :=
  match symbols.find? (·.text = s) with
  | some t => some t
  | none => (Numeral.read? s).map number

end Token

end PocketCalculator
