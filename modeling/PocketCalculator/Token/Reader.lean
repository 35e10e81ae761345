import PocketCalculator.Error
import PocketCalculator.Text.Lexeme
import PocketCalculator.Token.Basic

/-!
# Reading tokens

Canonical text is cut into lexemes whose figures are the digits and the point.
Blanks are skipped, two stars side by side are one operator, and every other
lexeme is one token or the fault that stops the reading; the leftmost fault is
the one that is told.
-/

namespace PocketCalculator.Token

/-- The characters of numerals. -/
def isFigure (c : Char) : Bool := c.isDigit || c == '.'

/-- The token of a mark; blanks have none. -/
def ofMark (c : Char) : Except SyntaxFault (Option Token) :=
  match c with
  | '(' => .ok (some opening)
  | ')' => .ok (some closing)
  | '+' => .ok (some (operator .add))
  | '-' => .ok (some (operator .sub))
  | '*' => .ok (some (operator .mul))
  | '/' => .ok (some (operator .div))
  | c => if isBlank c then .ok none else .error (.unexpectedCharacter c)

/-- The token of a lexeme; blanks have none. -/
def ofLexeme : Lexeme → Except SyntaxFault (Option Token)
  | .word name =>
    match Function.ofText? name with
    | some f => .ok (some (function f))
    | none => .error (.unknownName name)
  | .number figures =>
    match Numeral.decimal? figures with
    | some d => .ok (some (number d.toFloat))
    | none => .error (.unreadableNumber figures)
  | .mark c => ofMark c

theorem ofLexeme_blank {c : Char} (hc : isBlank c = true) : ofLexeme (.mark c) = .ok none := by
  show ofMark c = .ok none
  unfold ofMark
  split
  case h_7 => exact if_pos hc
  all_goals cases hc

/-- The tokens of a list of lexemes. -/
def ofLexemes : List Lexeme → Except SyntaxFault (List Token)
  | [] => .ok []
  | .mark '*' :: .mark '*' :: rest => (ofLexemes rest).map (operator .pow :: ·)
  | l :: rest =>
    match ofLexeme l with
    | .error fault => .error fault
    | .ok none => ofLexemes rest
    | .ok (some t) => (ofLexemes rest).map (t :: ·)

/-- Reads canonical text. -/
def read (s : Text) : Except SyntaxFault (List Token) := ofLexemes (Lexeme.split isFigure s)

end PocketCalculator.Token
