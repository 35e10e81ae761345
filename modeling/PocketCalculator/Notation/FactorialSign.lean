import PocketCalculator.Function
import PocketCalculator.Text.Lexeme

/-!
# Factorial signs

A numeral followed by `!` becomes a call of `factorial`.  A minus directly before
the numeral is its sign, and goes into the call, unless an operand stands before
it: then it is a subtraction and stays outside.

The calls are written where the numerals were, so the name of the function runs
into a word that stands directly before the minus; `glue` keeps such a word one
lexeme.
-/

namespace PocketCalculator.Notation

open Lexeme

/-- Puts a lexeme in front of others; two words become one. -/
def glue : Lexeme → List Lexeme → List Lexeme
  | word a, word b :: rest => word (a ++ b) :: rest
  | l, rest => l :: rest

/-- The call of the factorial on a numeral. -/
def factorialCall (numeral rest : List Lexeme) : List Lexeme :=
  word Function.factorial.text :: mark '(' :: numeral ++ mark ')' :: rest

/-- The call on a numeral behind a minus: the sign of the numeral, or a
subtraction if an operand stands before it. -/
def signedCall (before : Bool) (numeral rest : List Lexeme) : List Lexeme :=
  if before then mark '-' :: factorialCall numeral rest
  else factorialCall (mark '-' :: numeral) rest

/-- Whether a character ends an operand. -/
def endsOperand (c : Char) : Bool := c.isDigit || c == '.' || c == ')' || c == '!'

/-- Whether the text up to a lexeme ends in an operand, blanks aside; `before`
says so of the text in front of the lexeme. -/
def operandBefore (before : Bool) : Lexeme → Bool
  | word w => w.getLast?.any endsOperand
  | number _ => true
  | mark c => if isBlank c then before else endsOperand c

/-- Turns factorial signs into calls.  `before` says whether the text in front ends in an
operand. -/
def expandFactorials : Bool → List Lexeme → List Lexeme
  | _, [] => []
  | _, number a :: mark '!' :: rest => factorialCall [number a] (expandFactorials true rest)
  | _, number a :: mark '.' :: number b :: mark '!' :: rest =>
    factorialCall [number a, mark '.', number b] (expandFactorials true rest)
  | before, mark '-' :: number a :: mark '!' :: rest =>
    signedCall before [number a] (expandFactorials true rest)
  | before, mark '-' :: number a :: mark '.' :: number b :: mark '!' :: rest =>
    signedCall before [number a, mark '.', number b] (expandFactorials true rest)
  | before, l :: rest => glue l (expandFactorials (operandBefore before l) rest)

end PocketCalculator.Notation
