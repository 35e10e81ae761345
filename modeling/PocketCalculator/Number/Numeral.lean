import PocketCalculator.Number.Decimal
import PocketCalculator.Text.Basic

/-!
# Numerals

A numeral is a run of digits with at most one point in it and at least one
digit, and perhaps an exponent; in front of it there may be a sign.  In place of
the digits there may be the name of infinity or of the value that is no number,
in letters of either case.  `Numeral.read?` takes nothing else, not even blanks.
-/

namespace PocketCalculator.Numeral

/-- The value of a run of decimal digits. -/
def value (digits : Text) : Nat := Nat.ofDigitChars 10 digits 0

/-- Reads what follows the digits of a numeral: nothing, or `e` and a whole
number. -/
def exponent? : Text → Option Int
  | [] => some 0
  | c :: s =>
    if c = 'e' ∨ c = 'E' then
      let (negative, digits) :=
        match s with
        | '-' :: r => (true, r)
        | '+' :: r => (false, r)
        | r => (false, r)
      if !digits.isEmpty && digits.all Char.isDigit then
        some (if negative then -(value digits : Int) else value digits)
      else none
    else none

/-- Reads a numeral without a sign. -/
def decimal? (s : Text) : Option Decimal :=
  let whole := s.takeWhile Char.isDigit
  let rest := s.dropWhile Char.isDigit
  let (fraction, rest) :=
    match rest with
    | '.' :: r => (r.takeWhile Char.isDigit, r.dropWhile Char.isDigit)
    | r => ([], r)
  if (whole ++ fraction).isEmpty then none
  else (exponent? rest).map fun e => ⟨value (whole ++ fraction), e - fraction.length⟩

/-- Reads a number without a sign. -/
def unsigned? (s : Text) : Option Float :=
  let name := s.map Char.toLower
  if name = "inf".toList ∨ name = "infinity".toList then some (Magnitude.toFloat Magnitude.overflow)
  else if name = "nan".toList then some (Magnitude.toFloat (Magnitude.overflow + 1))
  else (decimal? s).map Decimal.toFloat

/-- Reads a number: the double nearest to what is written. -/
def read? : Text → Option Float
  | '-' :: s => (unsigned? s).map (- ·)
  | '+' :: s => unsigned? s
  | s => unsigned? s

end PocketCalculator.Numeral
