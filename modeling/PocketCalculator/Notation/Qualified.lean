import PocketCalculator.Function
import PocketCalculator.Text.Lexeme

/-!
# Qualified names

A function name that is directly followed by a parenthesis gets the qualifier
`math`; the decimal logarithm is `log` in the calculator notation.  Names that
are qualified already stay as they are, and so does every other word.
-/

namespace PocketCalculator.Notation

open Lexeme

/-- The names under which the calculator notation calls functions. -/
def callNames : List (Text × Function) :=
  [("log".toList, .log10), ("sin".toList, .sin), ("cos".toList, .cos), ("tan".toList, .tan),
    ("sqrt".toList, .sqrt)]

/-- The name of a called function in canonical text. -/
def canonicalName (w : Text) : List Lexeme :=
  match callNames.lookup w with
  | some f => [word Function.qualifier, mark '.', word f.name]
  | none => [word w]

/-- Qualifies the names of called functions. -/
def qualify : List Lexeme → List Lexeme
  | [] => []
  | word q :: mark '.' :: word f :: rest =>
    if q = Function.qualifier then word q :: mark '.' :: word f :: qualify rest
    else word q :: qualify (mark '.' :: word f :: rest)
  | word f :: mark '(' :: rest => canonicalName f ++ mark '(' :: qualify rest
  | l :: rest => l :: qualify rest

end PocketCalculator.Notation
