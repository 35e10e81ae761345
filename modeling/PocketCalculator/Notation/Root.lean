import PocketCalculator.Text.Basic

/-!
# Roots

A root sign takes the operand to its right, blanks between them aside: a
numeral, a group in parentheses, or a call of `math.sqrt`.  Since the text to
the right is expanded first, the operand of a root of a root is such a call.
`expandRoots` has no result where a root sign finds no operand.
-/

namespace PocketCalculator.Notation

/-- The root sign. -/
def rootSign : Char := '√'

/-- The function that a root becomes. -/
def rootName : Text := "math.sqrt".toList

/-- Splits off a numeral: digits, and a point only if digits follow it. -/
def numeral? (s : Text) : Option (Text × Text) :=
  let whole := s.takeWhile Char.isDigit
  let rest := s.dropWhile Char.isDigit
  if whole.isEmpty then none
  else
    match rest with
    | '.' :: r =>
      if (r.takeWhile Char.isDigit).isEmpty then some (whole, rest)
      else some (whole ++ '.' :: r.takeWhile Char.isDigit, r.dropWhile Char.isDigit)
    | _ => some (whole, rest)

/-- Splits the text behind an opening parenthesis after the parenthesis that
closes it, `depth` further ones being open. -/
def closing? : Nat → Text → Option (Text × Text)
  | _, [] => none
  | depth, c :: s =>
    if c = '(' then (closing? (depth + 1) s).map fun (group, rest) => (c :: group, rest)
    else if c = ')' then
      match depth with
      | 0 => some ([c], s)
      | depth + 1 => (closing? depth s).map fun (group, rest) => (c :: group, rest)
    else (closing? depth s).map fun (group, rest) => (c :: group, rest)

/-- Splits off a group in parentheses. -/
def group? : Text → Option (Text × Text)
  | '(' :: s => (closing? 0 s).map fun (group, rest) => ('(' :: group, rest)
  | _ => none

/-- Splits off the operand of a root. -/
def operand? (s : Text) : Option (Text × Text) :=
  match numeral? s with
  | some split => some split
  | none =>
    match dropLead? rootName s with
    | some r => (group? r).map fun (group, rest) => (rootName ++ group, rest)
    | none => group? s

/-- Turns every root into a call. -/
def expandRoots : Text → Option Text
  | [] => some []
  | c :: s =>
    match expandRoots s with
    | none => none
    | some s =>
      if c = rootSign then
        (operand? (trimStart s)).map fun (operand, rest) =>
          rootName ++ '(' :: operand ++ ')' :: rest
      else some (c :: s)

end PocketCalculator.Notation
