import PocketCalculator.Number.Magnitude

/-!
# Decimals

A decimal is a natural number times a power of ten.  `Decimal.toFloat` rounds
it to the nearest double, however many digits it has.  `Decimal.shortest` goes
back: of all decimals that round to a given magnitude it takes one on the
coarsest grid of powers of ten, and on that grid the one nearest to the
magnitude, upwards in a tie.
-/

namespace PocketCalculator

/-- The number `digits * 10 ^ exponent`. -/
structure Decimal where
  digits : Nat
  exponent : Int
deriving DecidableEq, Repr

namespace Decimal

/-- The rank of the magnitude nearest to a decimal.  Exponents far outside the
range of doubles are settled without computing their power of ten: from
`10 ^ 310` on everything overflows, and below half a grain everything is zero. -/
def rank (d : Decimal) : Nat :=
  if d.digits = 0 then 0
  else if 310 ≤ d.exponent then Magnitude.overflow
  else if 0 ≤ d.exponent then
    Magnitude.nearest (d.digits * Nat.pow 10 d.exponent.toNat * Magnitude.one) 1
  else if (d.digits.log2 : Int) + 1077 ≤ 3 * -d.exponent then 0
  else Magnitude.nearest (d.digits * Magnitude.one) (Nat.pow 10 (-d.exponent).toNat)

/-- The double nearest to a decimal. -/
def toFloat (d : Decimal) : Float := Magnitude.toFloat d.rank

/-- The digits on the grid `10 ^ e` that round to the magnitude of rank `k`, if
there are any: the nearest ones, the upper of two equally near.

Everything is measured in half grains.  What rounds to rank `k` lies between
the midpoints to its neighbours, and includes them when `k` is even. -/
def onGrid (k : Nat) (e : Int) : Option Nat :=
  let scale := Nat.pow 10 (-e).toNat
  let step := 2 * Magnitude.one * Nat.pow 10 e.toNat
  let low := (Magnitude.grains (k - 1) + Magnitude.grains k) * scale
  let high := (Magnitude.grains k + Magnitude.grains (k + 1)) * scale
  let value := 2 * Magnitude.grains k * scale
  let inside (point : Nat) : Bool :=
    if k % 2 = 0 then low ≤ point && point ≤ high else low < point && point < high
  let below := value / step
  let above := below + 1
  if inside (above * step) && (!inside (below * step) ||
      above * step - value ≤ value - below * step) then some above
  else if inside (below * step) then some below
  else none

/-- An exponent whose power of ten exceeds twice the magnitude of rank `k`. -/
def coarsest (k : Nat) : Int :=
  ((((Magnitude.grains k).log2 + 1) * 30103 / 100000 : Nat) : Int) - 322

/-- The decimal with the fewest digits that rounds to the magnitude of rank
`k`.  Seventeen digits always suffice; the exact value stands behind them. -/
def shortest (k : Nat) : Decimal :=
  let found := (List.range 22).findSome? fun (finer : Nat) =>
    let e := coarsest k - finer
    (onGrid k e).map fun digits => ⟨digits, e⟩
  found.getD ⟨Magnitude.grains k * Nat.pow 5 1074, -1074⟩

end Decimal

end PocketCalculator
