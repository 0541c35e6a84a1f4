/-!
# FontTrace.Number.Hypotenuse

The length of a vector as a double, close enough that two vectors of one direction
get the same unit vector wherever their lengths are doubles.

The root of the sum of squares may be off in its last place.  One step of Newton's
method corrects it; what matters is the residue `h² - x² - y²`, which cancels almost
completely and so is written as a sum of small products.
-/

namespace FontTrace

/-- The residue `h² - x² - y²` of a length `h`, for legs `x ≥ y ≥ 0`. -/
def lengthResidue (x y h : Float) : Float :=
  if h ≤ 2 * y then
    let d := h - y
    x * (2 * d - x) + (d - 2 * (x - y)) * d
  else
    let d := h - x
    2 * d * (x - 2 * y) + ((4 * d - y) * y + d * d)

/-- The length for legs `x ≥ y ≥ 0` whose squares are doubles of normal size. -/
def correctedLength (x y : Float) : Float :=
  let h := Float.sqrt (x * x + y * y)
  h - lengthResidue x y h / (2 * h)

/-- Two to the power of a whole number, by its binary exponent. -/
def twoPower (n : Int) : Float := (1 : Float).scaleB n

/-- The length for legs `x ≥ y ≥ 0`.  A leg below the last place of the other one
only rounds it; legs whose squares leave the normal range are scaled. -/
def lengthOfLegs (x y : Float) : Float :=
  let scale := twoPower (-600)
  let tiny := twoPower (-54)
  if x > twoPower 511 then
    if y ≤ x * tiny then x + y else correctedLength (x * scale) (y * scale) / scale
  else if y < twoPower (-459) then
    if x ≥ y / tiny then x + y else correctedLength (x / scale) (y / scale) * scale
  else if y ≤ x * tiny then x + y
  else correctedLength x y

/-- The length of a vector.  An infinite leg makes it infinite, whatever the other
one is. -/
def hypotenuse (x y : Float) : Float :=
  if x.isInf || y.isInf then 1 / 0
  else if x.isNaN || y.isNaN then 0 / 0
  else if x.abs < y.abs then lengthOfLegs y.abs x.abs
  else lengthOfLegs x.abs y.abs

end FontTrace
