import PocketCalculator.Error
import PocketCalculator.Notation.FactorialSign
import PocketCalculator.Notation.Product
import PocketCalculator.Notation.Qualified
import PocketCalculator.Notation.Root

/-!
# Canonical text

`normalize` turns what is typed into canonical text, in which every product has
its star, powers are written `**`, and roots and factorials are calls.  Roots are
expanded first, on the text itself; the other steps work on its lexemes, and each
sees what the one before it left.
-/

namespace PocketCalculator.Notation

/-- The steps after the expansion of roots, on lexemes. -/
def canonical (ls : List Lexeme) : List Lexeme :=
  qualify (expandFactorials false (expandPowers (insertProducts ls)))

/-- The canonical text of what is typed. -/
def normalize (raw : Text) : Except Error Text :=
  if raw.all isBlank then .error .emptyInput
  else
    match expandRoots raw with
    | none => .error .malformedRoot
    | some s => .ok (Lexeme.render (canonical (Lexeme.split Char.isDigit s)))

end PocketCalculator.Notation
