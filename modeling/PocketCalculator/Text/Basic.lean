/-!
# Texts

A text is a list of characters, because the entry line is edited and measured
character by character.  This file fixes which characters are blank and what
it means to trim a text.  Blank is the `White_Space` property of Unicode, which
is wider than the blanks of ASCII.
-/

namespace PocketCalculator

/-- What is typed, read and shown. -/
abbrev Text := List Char

/-- The characters with the Unicode property `White_Space`. -/
def isBlank (c : Char) : Bool :=
  let n := c.toNat
  (0x9 ≤ n && n ≤ 0xD) || n == 0x20 || n == 0x85 || n == 0xA0 || n == 0x1680 ||
    (0x2000 ≤ n && n ≤ 0x200A) || n == 0x2028 || n == 0x2029 || n == 0x202F ||
    n == 0x205F || n == 0x3000

/-- Drops the blanks at the front. -/
def trimStart (s : Text) : Text := s.dropWhile isBlank

/-- Drops the blanks at the end. -/
def trimEnd (s : Text) : Text := (trimStart s.reverse).reverse

/-- Drops the blanks at both ends. -/
def trim (s : Text) : Text := trimEnd (trimStart s)

/-- What is left of `s` after the leading characters `lead`, if it has them. -/
def dropLead? : Text → Text → Option Text
  | [], s => some s
  | _ :: _, [] => none
  | l :: lead, c :: s => if l = c then dropLead? lead s else none

theorem dropLead?_eq_some_iff {lead s rest : Text} :
    dropLead? lead s = some rest ↔ s = lead ++ rest := by
  induction lead generalizing s with
  | nil => simp [dropLead?]
  | cons l lead ih =>
    cases s with
    | nil => simp [dropLead?]
    | cons c s =>
      by_cases h : l = c
      · subst h
        simp [dropLead?, ih]
      · simp [dropLead?, h, Ne.symm h]

/-- The part of a text before the last place where `sep` occurs. -/
def beforeLast? (sep : Text) : Text → Option Text
  | [] => none
  | c :: s =>
    match beforeLast? sep s with
    | some t => some (c :: t)
    | none => if (dropLead? sep (c :: s)).isSome then some [] else none

end PocketCalculator
