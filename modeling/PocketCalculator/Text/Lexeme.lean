import PocketCalculator.Text.Basic

/-!
# Lexemes

A text is cut into words, numbers and single marks.  A word starts with an
ASCII letter or an underscore and runs on over letters and figures; a number is
a run of figures outside words; every other character is a mark of its own.
What counts as a figure is a parameter: digits alone where notation is
expanded, digits and the point where tokens are read.

Cutting loses nothing: `render (split figure s) = s` (`render_split`).
-/

namespace PocketCalculator

/-- One piece of a text. -/
inductive Lexeme
  | word (name : Text)
  | number (figures : Text)
  | mark (c : Char)
deriving DecidableEq, Repr

namespace Lexeme

/-- The characters of a lexeme. -/
def text : Lexeme → Text
  | word name => name
  | number figures => figures
  | mark c => [c]

/-- The text that a list of lexemes stands for. -/
def render (ls : List Lexeme) : Text := ls.flatMap text

@[simp] theorem render_nil : render [] = [] := rfl

@[simp] theorem render_cons (l : Lexeme) (ls : List Lexeme) :
    render (l :: ls) = l.text ++ render ls := rfl

/-- The characters that begin a word: ASCII letters and the underscore. -/
def startsWord (c : Char) : Bool := c.isAlpha || c == '_'

/-- Puts a character in front of lexemes.  A letter draws the figures and the
word after it into its own word, and a figure joins the number after it. -/
def push (figure : Char → Bool) (c : Char) (ls : List Lexeme) : List Lexeme :=
  if startsWord c then
    match ls with
    | number figures :: word name :: rest => word (c :: figures ++ name) :: rest
    | number figures :: rest => word (c :: figures) :: rest
    | word name :: rest => word (c :: name) :: rest
    | rest => word [c] :: rest
  else if figure c then
    match ls with
    | number figures :: rest => number (c :: figures) :: rest
    | rest => number [c] :: rest
  else
    mark c :: ls

/-- Cuts a text into lexemes. -/
def split (figure : Char → Bool) (s : Text) : List Lexeme := s.foldr (push figure) []

@[simp] theorem split_nil (figure : Char → Bool) : split figure [] = [] := rfl

@[simp] theorem split_cons (figure : Char → Bool) (c : Char) (s : Text) :
    split figure (c :: s) = push figure c (split figure s) := rfl

theorem render_push (figure : Char → Bool) (c : Char) (ls : List Lexeme) :
    render (push figure c ls) = c :: render ls := by
  unfold push
  split
  · split <;> simp [text]
  · split
    · split <;> simp [text]
    · simp [text]

theorem render_split (figure : Char → Bool) (s : Text) : render (split figure s) = s := by
  induction s with
  | nil => rfl
  | cons c s ih => rw [split_cons, render_push, ih]

end Lexeme

end PocketCalculator
