/-!
# Elementary functions

Sine, cosine, tangent, exponential, logarithm and power on doubles are given
from outside, because their last digits are a matter of the machine.  Whatever
uses them takes them as a parameter.
-/

namespace PocketCalculator

/-- The elementary functions that arithmetic on doubles does not define. -/
structure Elementary where
  sin : Float → Float
  cos : Float → Float
  tan : Float → Float
  exp : Float → Float
  log10 : Float → Float
  pow : Float → Float → Float

namespace Elementary

/-- The elementary functions of the machine. -/
def machine : Elementary where
  sin := Float.sin
  cos := Float.cos
  tan := Float.tan
  exp := Float.exp
  log10 := Float.log10
  pow := Float.pow

end Elementary

/-- The ratio of a circle's circumference to its diameter. -/
def pi : Float := 3.141592653589793

end PocketCalculator
