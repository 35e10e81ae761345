import PocketCalculator.Expression
import PocketCalculator.Notation.Root
import PocketCalculator.Number.Numeral
import PocketCalculator.Proofs.Grammar

/-!
# What is typed

The calculator notation as a grammar.  `Typed` holds its derivations, one type
for each layer and one constructor for each rule, with the blanks that stand
between the signs.  `Typed.text` is the text of a derivation, and `Typed.meaning`
is the expression that it stands for.

A product may be written without a sign only where the two texts do not run
together; `Typed.Admissible` says that every such product is of that kind.
-/

namespace PocketCalculator.Notation

/-- A blank character. -/
abbrev Blank := { c : Char // isBlank c = true }

/-- Blanks in a place where there may be any number of them. -/
abbrev Gap := List Blank

/-- The text of a gap. -/
def Gap.text (g : Gap) : Text := g.map Subtype.val

theorem Gap.isBlank_of_mem {g : Gap} {c : Char} (hc : c ∈ g.text) : isBlank c = true := by
  obtain ⟨b, -, rfl⟩ := List.mem_map.mp hc
  exact b.property

/-- A run of digits. -/
structure DigitRun where
  text : Text
  ne_nil : text ≠ []
  all_isDigit : text.all Char.isDigit = true

namespace DigitRun

variable (d : DigitRun) (rest : Text)

theorem isDigit : ∀ c ∈ d.text, c.isDigit = true := List.all_eq_true.mp d.all_isDigit

theorem takeWhile_append (h : ∀ c ∈ rest.head?, c.isDigit = false) :
    (d.text ++ rest).takeWhile Char.isDigit = d.text := by
  rw [List.takeWhile_append_of_pos d.isDigit]
  cases rest with
  | nil => simp
  | cons c rest => simp [h c rfl]

theorem dropWhile_append (h : ∀ c ∈ rest.head?, c.isDigit = false) :
    (d.text ++ rest).dropWhile Char.isDigit = rest := by
  rw [List.dropWhile_append_of_pos d.isDigit]
  cases rest with
  | nil => rfl
  | cons c rest => simp [h c rfl]

end DigitRun

/-- A numeral without a sign: digits, perhaps with a point and further digits. -/
structure Figures where
  whole : DigitRun
  fraction : Option DigitRun

namespace Figures

/-- How a numeral is written. -/
def text (n : Figures) : Text :=
  match n.fraction with
  | none => n.whole.text
  | some f => n.whole.text ++ '.' :: f.text

/-- The digits behind the point. -/
def decimals (n : Figures) : Text :=
  match n.fraction with
  | none => []
  | some f => f.text

/-- The double nearest to a numeral. -/
def value (n : Figures) : Float :=
  Decimal.toFloat ⟨Numeral.value (n.whole.text ++ n.decimals), -n.decimals.length⟩

/-- A numeral times a power of ten. -/
def scaled (n : Figures) (power : Int) : Decimal :=
  ⟨Numeral.value (n.whole.text ++ n.decimals), power - n.decimals.length⟩

theorem toFloat_scaled_zero (n : Figures) : (n.scaled 0).toFloat = n.value := by
  rw [scaled, Int.zero_sub, value]

end Figures

/-- The functions that are called by name. -/
inductive Called
  | sin
  | cos
  | tan
  | log
  | sqrt
deriving DecidableEq, Repr

namespace Called

/-- The functions with a name. -/
def all : List Called := [sin, cos, tan, log, sqrt]

/-- The name under which a function is called. -/
def text : Called → Text
  | sin => "sin".toList
  | cos => "cos".toList
  | tan => "tan".toList
  | log => "log".toList
  | sqrt => "sqrt".toList

/-- The function that is called; the logarithm is the decimal one. -/
def function : Called → Function
  | sin => .sin
  | cos => .cos
  | tan => .tan
  | log => .log10
  | sqrt => .sqrt

end Called

/-- The layers of the notation. -/
inductive Layer
  | sum
  | product
  | power
  | signed
  | operand
  | root
deriving DecidableEq, Repr

open Grammar (Sign Scaling)

/-- The derivations of a layer.

* a sum is a product, or a sum, a sign and a product;
* a product is a power, or a product and a power with a scaling or nothing in between;
* a power is a signed operand, or a signed operand raised to a power;
* a signed operand is an operand, perhaps behind minus signs;
* an operand is a numeral, a factorial of one, a sum in parentheses, a function called on
  a sum, or a root;
* a root is taken of a numeral, of a sum in parentheses, or of a root. -/
inductive Typed : Layer → Type
  | term (t : Typed .product) : Typed .sum
  | sum (e : Typed .sum) (before : Gap) (s : Sign) (after : Gap) (t : Typed .product) : Typed .sum
  | factor (p : Typed .power) : Typed .product
  | product (t : Typed .product) (before : Gap) (s : Scaling) (after : Gap) (p : Typed .power) :
      Typed .product
  | juxtaposed (t : Typed .product) (p : Typed .power) : Typed .product
  | base (u : Typed .signed) : Typed .power
  | power (u : Typed .signed) (before after : Gap) (p : Typed .power) : Typed .power
  | minus (u : Typed .signed) : Typed .signed
  | operand (a : Typed .operand) : Typed .signed
  | numeral (n : Figures) : Typed .operand
  | factorial (n : Figures) : Typed .operand
  | group (before : Gap) (e : Typed .sum) (after : Gap) : Typed .operand
  | call (f : Called) (before : Gap) (e : Typed .sum) (after : Gap) : Typed .operand
  | root (r : Typed .root) : Typed .operand
  | rootOfNumeral (gap : Gap) (n : Figures) : Typed .root
  | rootOfGroup (gap before : Gap) (e : Typed .sum) (after : Gap) : Typed .root
  | rootOfRoot (gap : Gap) (r : Typed .root) : Typed .root

/-- Whether two texts may stand side by side for a product: an operand in front of a
parenthesis, a root or a call, or the end of a group or a factorial in front of a digit. -/
def mayTouch (left right : Text) : Bool :=
  (left.getLast?.any (fun c => c.isDigit || c == ')' || c == '!') &&
      (right.head?.any (fun c => c == '(' || c == rootSign) ||
        Called.all.any (·.text.isPrefixOf right))) ||
    (left.getLast?.any (fun c => c == ')' || c == '!') && right.head?.any Char.isDigit)

namespace Typed

/-- The text of a derivation. -/
def text : {l : Layer} → Typed l → Text
  | _, term t => t.text
  | _, sum e before s after t => e.text ++ before.text ++ s.operator.text ++ after.text ++ t.text
  | _, factor p => p.text
  | _, product t before s after p =>
    t.text ++ before.text ++ s.operator.text ++ after.text ++ p.text
  | _, juxtaposed t p => t.text ++ p.text
  | _, base u => u.text
  | _, power u before after p => u.text ++ before.text ++ '^' :: after.text ++ p.text
  | _, minus u => '-' :: u.text
  | _, operand a => a.text
  | _, numeral n => n.text
  | _, factorial n => n.text ++ ['!']
  | _, group before e after => '(' :: before.text ++ e.text ++ after.text ++ [')']
  | _, call f before e after => f.text ++ '(' :: before.text ++ e.text ++ after.text ++ [')']
  | _, root r => r.text
  | _, rootOfNumeral gap n => rootSign :: gap.text ++ n.text
  | _, rootOfGroup gap before e after =>
    rootSign :: gap.text ++ '(' :: before.text ++ e.text ++ after.text ++ [')']
  | _, rootOfRoot gap r => rootSign :: gap.text ++ r.text

/-- Whether all products without a sign are between texts that may touch. -/
def Admissible : {l : Layer} → Typed l → Prop
  | _, term t => t.Admissible
  | _, sum e _ _ _ t => e.Admissible ∧ t.Admissible
  | _, factor p => p.Admissible
  | _, product t _ _ _ p => t.Admissible ∧ p.Admissible
  | _, juxtaposed t p => t.Admissible ∧ p.Admissible ∧ mayTouch t.text p.text = true
  | _, base u => u.Admissible
  | _, power u _ _ p => u.Admissible ∧ p.Admissible
  | _, minus u => u.Admissible
  | _, operand a => a.Admissible
  | _, numeral _ => True
  | _, factorial _ => True
  | _, group _ e _ => e.Admissible
  | _, call _ _ e _ => e.Admissible
  | _, root r => r.Admissible
  | _, rootOfNumeral _ _ => True
  | _, rootOfGroup _ _ e _ => e.Admissible
  | _, rootOfRoot _ r => r.Admissible

/-- The numeral of a factorial. -/
def factorial? : {l : Layer} → Typed l → Option Figures
  | _, operand a => a.factorial?
  | _, factorial n => some n
  | _, _ => none

/-- What a derivation stands for.  A minus directly before a factorial is the sign of
its numeral. -/
def meaning : {l : Layer} → Typed l → Expression
  | _, term t => t.meaning
  | _, sum e _ s _ t => .binary s.operator e.meaning t.meaning
  | _, factor p => p.meaning
  | _, product t _ s _ p => .binary s.operator t.meaning p.meaning
  | _, juxtaposed t p => .binary .mul t.meaning p.meaning
  | _, base u => u.meaning
  | _, power u _ _ p => .binary .pow u.meaning p.meaning
  | _, minus u =>
    match u.factorial? with
    | some n => .call .factorial (.neg (.number n.value))
    | none => .neg u.meaning
  | _, operand a => a.meaning
  | _, numeral n => .number n.value
  | _, factorial n => .call .factorial (.number n.value)
  | _, group _ e _ => e.meaning
  | _, call f _ e _ => .call f.function e.meaning
  | _, root r => r.meaning
  | _, rootOfNumeral _ n => .call .sqrt (.number n.value)
  | _, rootOfGroup _ _ e _ => .call .sqrt e.meaning
  | _, rootOfRoot _ r => .call .sqrt r.meaning

end Typed

end PocketCalculator.Notation
