import PocketCalculator.Function
import PocketCalculator.Text.Lexeme
import PocketCalculator.Text.WordCharacter

/-!
# Products without a sign, and powers

An operand directly followed by a parenthesis or a function name is multiplied
by what follows, as in `2(3+4)` and `2sin(30)`.  Behind a closing parenthesis or
a factorial sign a number is a factor too.  `insertProducts` writes the star;
`expandPowers` writes the power sign `^` as two stars.
-/

namespace PocketCalculator.Notation

open Lexeme

/-- The names of functions in the calculator notation. -/
def functionNames : List Text :=
  ["sqrt", "log10", "log", "sin", "cos", "tan"].map String.toList

/-- Whether a word that stands before these lexemes ends there.  Letters and
digits of ASCII would belong to the word, other word characters are marks. -/
def wordEnds : List Lexeme → Bool
  | mark c :: _ => !isWordChar c
  | _ => true

/-- Whether the lexemes begin with a function name, qualified or not. -/
def startsFunction : List Lexeme → Bool
  | word w :: mark '.' :: word f :: rest =>
    w ∈ functionNames || (w = Function.qualifier && f ∈ functionNames && wordEnds rest)
  | word w :: rest => w ∈ functionNames && wordEnds rest
  | _ => false

/-- Whether the lexemes begin with what any operand is multiplied by. -/
def startsFactor : List Lexeme → Bool
  | mark '(' :: _ => true
  | rest => startsFunction rest

/-- Whether the lexemes begin with a number. -/
def startsNumber : List Lexeme → Bool
  | number _ :: _ => true
  | _ => false

/-- Whether a lexeme is multiplied by the ones after it. -/
def multiplies : Lexeme → List Lexeme → Bool
  | number _, rest => startsFactor rest
  | mark ')', rest => startsFactor rest || startsNumber rest
  | mark '!', rest => startsFactor rest || startsNumber rest
  | _, _ => false

/-- Writes the stars of products. -/
def insertProducts : List Lexeme → List Lexeme
  | [] => []
  | l :: rest =>
    if multiplies l rest then l :: mark '*' :: insertProducts rest
    else l :: insertProducts rest

/-- Writes power signs as two stars. -/
def expandPowers (ls : List Lexeme) : List Lexeme :=
  ls.flatMap fun l => if l = mark '^' then [mark '*', mark '*'] else [l]

end PocketCalculator.Notation
