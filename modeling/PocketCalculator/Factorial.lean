import PocketCalculator.Elementary
import PocketCalculator.Error
import PocketCalculator.Number.Decimal

/-!
# Factorials

The factorial of a whole number up to 170 is the exact product, rounded once.
Everything else goes through the gamma function, which continues it to the
reals: Lanczos' series for arguments from one half on, and the reflection
formula below.  Negative whole numbers, the poles, and numbers that are not
finite have no factorial.
-/

namespace PocketCalculator

/-- The product of the numbers from one to `n`. -/
def product : Nat → Nat
  | 0 => 1
  | n + 1 => (n + 1) * product n

/-- Whether a finite number is whole: its number of grains is a multiple of
one. -/
def isWhole (x : Float) : Bool := Magnitude.grains (Magnitude.ofFloat x) % Magnitude.one = 0

/-- The largest whole number whose factorial is a finite double. -/
def largestExact : Nat := 170

namespace Gamma

/-- The constant term of Lanczos' series. -/
def constant : Float := 0.99999999999980993

/-- The other coefficients of the series, for `g = 7`. -/
def coefficients : List Float :=
  [676.5203681218851, -1259.1392167224028, 771.32342877765313, -176.61502916214059,
    12.507343278686905, -0.13857109526572012, 9.9843695780195716e-6, 1.5056327351493116e-7]

/-- The sum of the series at `z`, its terms added one after the other: the `i`-th
coefficient is divided by `z + i`. -/
def series (z : Float) : List Float → Float → Float → Float
  | [], _, sum => sum
  | p :: ps, i, sum => series z ps (i + 1) (sum + p / (z + i))

/-- The gamma function from one half on. -/
def lanczos (lib : Elementary) (z : Float) : Float :=
  let z := z - 1
  let t := z + 7 + 0.5
  Float.sqrt (2 * pi) * lib.pow t (z + 0.5) * lib.exp (-t) * series z coefficients 1 constant

end Gamma

/-- The gamma function.  It is not finite at the poles. -/
def gamma (lib : Elementary) (z : Float) : Float :=
  if z < 0.5 then pi / (lib.sin (pi * z) * Gamma.lanczos lib (1 - z))
  else Gamma.lanczos lib z

/-- The factorial, continued to the reals. -/
def factorial (lib : Elementary) (x : Float) : Except Error Float :=
  if !x.isFinite then .error .invalidOperand
  else if isWhole x && x < 0 then .error .undefinedFactorial
  else
    let n := Magnitude.grains (Magnitude.ofFloat x) / Magnitude.one
    if isWhole x && n ≤ largestExact then .ok (Decimal.toFloat ⟨product n, 0⟩)
    else .ok (gamma lib (x + 1))

end PocketCalculator
