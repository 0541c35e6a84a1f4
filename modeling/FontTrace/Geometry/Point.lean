import FontTrace.Number.Binary
import FontTrace.Number.Order

/-!
# FontTrace.Geometry.Point

Points of the plane, affine maps and boxes.  The order of the floating-point
operations is part of every definition here: coordinates end up in the font to
the last bit.
-/

namespace FontTrace

/-- A point of the plane. -/
structure Point where
  x : Float
  y : Float
deriving DecidableEq, Repr, Inhabited

namespace Point

/-- Equality of coordinates as numbers: the two zeros are equal. -/
def same (p q : Point) : Bool := p.x == q.x && p.y == q.y

/-- Coordinatewise sum. -/
def add (p q : Point) : Point := ⟨p.x + q.x, p.y + q.y⟩

/-- Coordinatewise difference. -/
def sub (p q : Point) : Point := ⟨p.x - q.x, p.y - q.y⟩

/-- Coordinatewise multiple. -/
def scale (s : Float) (p : Point) : Point := ⟨s * p.x, s * p.y⟩

/-- The Euclidean distance. -/
def distance (p q : Point) : Float :=
  let d := q.sub p
  Float.sqrt (d.x * d.x + d.y * d.y)

end Point

/-! ## affine maps -/

/-- The map `(x, y) ↦ (a x + c y + e, b x + d y + f)`. -/
structure Affine where
  a : Float
  b : Float
  c : Float
  d : Float
  e : Float
  f : Float
deriving DecidableEq, Repr

namespace Affine

/-- The map that moves nothing. -/
def identity : Affine := ⟨1, 0, 0, 1, 0, 0⟩

/-- The image of a point. -/
def apply (m : Affine) (p : Point) : Point :=
  ⟨m.a * p.x + m.c * p.y + m.e, m.b * p.x + m.d * p.y + m.f⟩

/-- First `n`, then `m`. -/
def after (m n : Affine) : Affine :=
  ⟨m.a * n.a + m.c * n.b, m.b * n.a + m.d * n.b,
   m.a * n.c + m.c * n.d, m.b * n.c + m.d * n.d,
   m.a * n.e + m.c * n.f + m.e, m.b * n.e + m.d * n.f + m.f⟩

/-- The translation by `(x, y)`. -/
def translation (x y : Float) : Affine := ⟨1, 0, 0, 1, x, y⟩

/-- Different factors on the two axes. -/
def scaling (x y : Float) : Affine := ⟨x, 0, 0, y, 0, 0⟩

/-- The same factor on both axes. -/
def uniformScaling (s : Float) : Affine := scaling s s

/-- The rotation by an angle in radians. -/
def rotation (angle : Float) : Affine :=
  ⟨angle.cos, angle.sin, -angle.sin, angle.cos, 0, 0⟩

/-- The slant `x' = x + s y`. -/
def slant (s : Float) : Affine := ⟨1, 0, s, 1, 0, 0⟩

/-- Whether two maps have equal coefficients as numbers. -/
def same (m n : Affine) : Bool :=
  m.a == n.a && m.b == n.b && m.c == n.c && m.d == n.d && m.e == n.e && m.f == n.f

end Affine

/-- The circle constant. -/
def pi : Float := 3.14159265358979323846

/-- An angle in radians from one in degrees. -/
def radians (degrees : Float) : Float := degrees * (pi / 180)

/-- An angle in degrees from one in radians. -/
def degrees (radians : Float) : Float := radians * 57.2957795130823208767981548141051703

/-- The rotation by an angle in degrees. -/
def Affine.rotationByDegrees (angle : Float) : Affine := Affine.rotation (radians angle)

/-! ## boxes -/

/-- The rectangle between two corners. -/
structure Box where
  x0 : Float
  y0 : Float
  x1 : Float
  y1 : Float
deriving DecidableEq, Repr

namespace Box

/-- The box that holds one point. -/
def ofPoint (p : Point) : Box := ⟨p.x, p.y, p.x, p.y⟩

/-- The smallest box around a box and a point. -/
def including (b : Box) (p : Point) : Box :=
  ⟨lower b.x0 p.x, lower b.y0 p.y, upper b.x1 p.x, upper b.y1 p.y⟩

/-- The smallest box around two boxes. -/
def union (b c : Box) : Box :=
  ⟨lower b.x0 c.x0, lower b.y0 c.y0, upper b.x1 c.x1, upper b.y1 c.y1⟩

/-- The part that two boxes share; it has no width or no height if there is none. -/
def intersection (b c : Box) : Box :=
  let x0 := upper b.x0 c.x0
  let y0 := upper b.y0 c.y0
  ⟨x0, y0, upper (lower b.x1 c.x1) x0, upper (lower b.y1 c.y1) y0⟩

/-- Every side moved outwards. -/
def grow (b : Box) (dx dy : Float) : Box := ⟨b.x0 - dx, b.y0 - dy, b.x1 + dx, b.y1 + dy⟩

/-- The extent along the x axis. -/
def width (b : Box) : Float := b.x1 - b.x0

/-- The extent along the y axis. -/
def height (b : Box) : Float := b.y1 - b.y0

/-- The area. -/
def area (b : Box) : Float := b.width * b.height

/-- The smallest box around points; no points have none. -/
def around? : List Point → Option Box
  | [] => none
  | p :: ps => some (ps.foldl including (ofPoint p))

/-- A nonempty list of boxes joined two by two from the left. -/
def reduce? (join : Box → Box → Box) : List Box → Option Box
  | [] => none
  | b :: bs => some (bs.foldl join b)

end Box

end FontTrace
