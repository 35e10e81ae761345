import PocketCalculator.Number.Decimal
import PocketCalculator.Text.Basic

/-!
# How numbers are shown

Numbers are written with the fewest digits that read back as the same double.
`Display.positional` never uses an exponent.  `Display.result`, which writes
what the calculator shows, does so from `1e-6` up to, but not including, `1e21`
and changes to a mantissa and a signed exponent outside; it has one zero.
-/

namespace PocketCalculator

namespace Decimal

/-- The digits of a decimal, most significant first. -/
def figures (d : Decimal) : Text := Nat.toDigits 10 d.digits

/-- A decimal with its point in place. -/
def positional (d : Decimal) : Text :=
  let figures := d.figures
  let places := (-d.exponent).toNat
  if 0 ≤ d.exponent then figures ++ List.replicate d.exponent.toNat '0'
  else if places < figures.length then
    figures.take (figures.length - places) ++ '.' :: figures.drop (figures.length - places)
  else "0.".toList ++ List.replicate (places - figures.length) '0' ++ figures

/-- A decimal with one digit in front of the point, and a power of ten with its
sign. -/
def scientific (d : Decimal) : Text :=
  let figures := d.figures
  let mantissa := figures.take 1 ++ if figures.length ≤ 1 then [] else '.' :: figures.drop 1
  let power := d.exponent + (figures.length - 1 : Nat)
  mantissa ++ 'e' :: (if power < 0 then '-' else '+') :: Nat.toDigits 10 power.natAbs

end Decimal

namespace Display

/-- The text of a number whose magnitude is finite and not zero is the text of
its shortest decimal; the others have a text of their own. -/
def write (zero : Text) (finite : Decimal → Text) (x : Float) : Text :=
  let k := Magnitude.ofFloat x
  if Magnitude.overflow < k then "NaN".toList
  else
    (if isNegative x then ['-'] else []) ++
      if k = 0 then zero
      else if k = Magnitude.overflow then "inf".toList
      else finite (Decimal.shortest k)

/-- A number without an exponent, whatever its size. -/
def positional (x : Float) : Text := write ['0'] Decimal.positional x

/-- The smallest magnitude shown without an exponent. -/
def smallest : Float := 1e-6

/-- The smallest magnitude shown with a positive exponent. -/
def largest : Float := 1e21

/-- A number as the calculator shows it. -/
def result (x : Float) : Text :=
  if x == 0 then ['0']
  else if smallest ≤ x.abs && x.abs < largest then positional x
  else write ['0'] Decimal.scientific x

end Display

end PocketCalculator
