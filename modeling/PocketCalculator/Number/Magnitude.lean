/-!
# Magnitudes of doubles

The doubles that are not negative are counted upwards from zero: the `k`-th of
them has the bit pattern `k`.  Each is a whole number of *grains* of size
`2 ^ (-1074)`, the distance between the smallest ones, so questions about
doubles become questions about natural numbers.

`roundDiv` rounds a quotient to the nearest natural number with ties to even,
and `nearest` rounds a quotient of grains to the nearest magnitude in the same
way.  Rounding past the last finite magnitude gives `overflow`, the rank of
infinity.
-/

namespace PocketCalculator

namespace Magnitude

/-- How many magnitudes share one spacing. -/
def perBinade : Nat := Nat.pow 2 52

/-- How many magnitudes are finite; also the rank of infinity. -/
def overflow : Nat := 2047 * perBinade

/-- One in grains. -/
def one : Nat := Nat.pow 2 1074

/-- The `k`-th magnitude in grains.  The spacing doubles from one binade to the
next, except that the two lowest have the same. -/
def grains (k : Nat) : Nat :=
  if k < perBinade then k else (perBinade + k % perBinade) * Nat.pow 2 (k / perBinade - 1)

/-- The natural number nearest to `num / den`; a tie goes to the even one. -/
def roundDiv (num den : Nat) : Nat :=
  let quotient := num / den
  let remainder := num % den
  if 2 * remainder < den then quotient
  else if den < 2 * remainder then quotient + 1
  else quotient + quotient % 2

/-- The rank of the magnitude nearest to `num / den` grains; a tie goes to the
even rank.  The quotient is first rounded to the spacing of its binade, and a
carry into the next binade is a carry between ranks too. -/
def nearest (num den : Nat) : Nat :=
  let binade := (num / den).log2 - 52
  min overflow (binade * perBinade + roundDiv num (den * Nat.pow 2 binade))

/-- The value of the sign bit in a bit pattern. -/
def signPlace : Nat := Nat.pow 2 63

/-- The rank of the magnitude of `x`. -/
def ofFloat (x : Float) : Nat := x.toBits.toNat % signPlace

/-- The double of rank `k`. -/
def toFloat (k : Nat) : Float := Float.ofBits (UInt64.ofNat k)

end Magnitude

/-- Whether the sign of `x` is a minus, which also tells the two zeros apart. -/
def isNegative (x : Float) : Bool := Magnitude.signPlace ≤ x.toBits.toNat

end PocketCalculator
