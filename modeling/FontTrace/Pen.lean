import FontTrace.Trace.Operand

/-!
# FontTrace.Pen

Pens by their boundary, as the compiler shows it.  The number of joins tells
what a pen is: eight make an ellipse, a cycle of two is a straight line, and
anything else is taken for a convex polygon.  A pen all of whose points are the
same leaves no ink of its own.
-/

namespace FontTrace

/-- An elliptical pen nib; the angle of its long axis is in radians. -/
structure EllipticalPen where
  width : Float
  minorWidth : Float
  angle : Float
deriving DecidableEq, Repr

/-- A pen. -/
inductive Pen where
  | none
  | elliptical (nib : EllipticalPen)
  /-- A straight line of some width, turned by an angle in radians. -/
  | razor (width angle : Float)
  /-- A closed polygon, clockwise. -/
  | polygon (boundary : Contour)
deriving DecidableEq, Repr

namespace Pen

/-- The two ways in which the compiler shows the pen without extent. -/
def emptyPens : List String := ["(0,0) .. cycle", "(0,0)..controls (0,0) and (0,0) ..cycle"]

/-- The direction of the line between two points, as the angle of a line. -/
def lineAngle (a b : Point) : Float :=
  let d := b.sub a
  if d.x == 0 then pi / 2 else (d.y / d.x).atan

/-- The pen with the given boundary. -/
def ofPath (p : Path) : Pen :=
  let stop (j : Join) : Point := j.stop.getD p.start
  match p.joins with
  | [_, j₁, _, j₃, _, j₅, _, _] =>
    let d := (stop j₃).sub p.start
    .elliptical ⟨p.start.distance (stop j₃), (stop j₁).distance (stop j₅), Float.atan2 d.y d.x⟩
  | [j₀, j₁] =>
    if j₁.stop.isNone then
      .razor (p.start.distance (stop j₀)) (lineAngle p.start (stop j₀))
    else .polygon (Contour.polygon [p.start, stop j₀]).reversed
  | joins => .polygon (Contour.polygon (p.start :: joins.dropLast.map stop)).reversed

/-- A pen operand. -/
def read (text : String) : Except OperandError Pen :=
  if emptyPens.contains (trimmed text) then .ok .none
  else do
    let p ← Operand.path (trimmed text)
    return if p.points.all (·.same p.start) then .none else ofPath p

end Pen

end FontTrace
