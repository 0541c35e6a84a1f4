import FontTrace.Geometry.Contour

/-!
# FontTrace.Geometry.Curve

The curve that a contour draws, as straight, quadratic and cubic pieces, and
what is measured on it: the signed area, extreme points and winding numbers.

Between two neighbouring nodes on the curve, no control point makes a straight
piece, one a quadratic piece, and more a cubic piece on the first and the last
of them.  `Contour.drawing?` gives the pieces in order; a closed contour ends
where it starts, if need be by one more straight piece (`Drawing.loop`).
-/

namespace FontTrace

/-! ## roots -/

/-- The real roots of `c₀ + c₁ t + c₂ t²` in ascending order. -/
def quadraticRoots (c0 c1 c2 : Float) : List Float :=
  let recip := 1 / c2
  let s0 := c0 * recip
  let s1 := c1 * recip
  if !s0.isFinite || !s1.isFinite then
    -- the leading coefficient is zero or too small to divide by
    let root := -c0 / c1
    if root.isFinite then [root] else if c0 == 0 && c1 == 0 then [0] else []
  else
    let arg := s1 * s1 - 4 * s0
    let pair (r1 : Float) : List Float :=
      let r2 := s0 / r1
      if r2.isFinite then (if r2 > r1 then [r1, r2] else [r2, r1]) else [r1]
    if !arg.isFinite then pair (-s1)
    else if arg < 0 then []
    else if arg == 0 then [-0.5 * s1]
    else pair (-0.5 * (s1 + withSignOf arg.sqrt s1))

/-- The real roots of `c₀ + c₁ t + c₂ t² + c₃ t³`, by the depressed cubic: the
sign of the discriminant tells whether they come from cube roots, from a
square root, or from a third of an angle. -/
def cubicRoots (c0 c1 c2 c3 : Float) : List Float :=
  let recip := 1 / c3
  let third : Float := 1 / 3
  let s2 := c2 * (third * recip)
  let s1 := c1 * (third * recip)
  let s0 := c0 * recip
  if !(s0.isFinite && s1.isFinite && s2.isFinite) then quadraticRoots c0 c1 c2
  else
    let d0 := mulAdd (-s2) s2 s1
    let d1 := mulAdd (-s1) s2 s0
    let d2 := s2 * s0 - s1 * s1
    let d := 4 * d0 * d2 - d1 * d1
    let de := mulAdd (-2 * s2) d0 d1
    if d < 0 then
      let sq := Float.sqrt (-0.25 * d)
      let r := -0.5 * de
      [(r + sq).cbrt + (r - sq).cbrt - s2]
    else if d == 0 then
      let t := withSignOf (Float.sqrt (-d0)) de
      [t - s2, -2 * t - s2]
    else
      let angle := Float.atan2 d.sqrt (-de) * third
      let r0 := angle.cos
      let ss3 := angle.sin * Float.sqrt 3
      let t := 2 * Float.sqrt (-d0)
      [mulAdd t r0 (-s2), mulAdd t (0.5 * (-r0 + ss3)) (-s2), mulAdd t (0.5 * (-r0 - ss3)) (-s2)]

/-! ## pieces -/

/-- One piece of a curve. -/
inductive Piece where
  | line (a b : Point)
  | quad (a c b : Point)
  | cubic (a c d b : Point)
deriving DecidableEq, Repr

namespace Piece

/-- The piece between two points with the given control points. -/
def through (a : Point) : List Point → Point → Piece
  | [], b => .line a b
  | [c], b => .quad a c b
  | c :: d :: ds, b => .cubic a c ((d :: ds).getLastD d) b

/-- Where the piece begins. -/
def first : Piece → Point
  | .line a _ | .quad a _ _ | .cubic a _ _ _ => a

/-- Where the piece ends. -/
def last : Piece → Point
  | .line _ b | .quad _ _ b | .cubic _ _ _ b => b

/-- The control points, in order. -/
def controls : Piece → List Point
  | .line _ _ => []
  | .quad _ c _ => [c]
  | .cubic _ c d _ => [c, d]

/-- The piece traversed backwards. -/
def reversed : Piece → Piece
  | .line a b => .line b a
  | .quad a c b => .quad b c a
  | .cubic a c d b => .cubic b d c a

@[simp] theorem reversed_reversed (p : Piece) : p.reversed.reversed = p := by
  cases p <;> rfl

/-- The signed area between the piece and the origin: positive where
the piece turns counter-clockwise around it. -/
def area : Piece → Float
  | .line a b => (a.x * b.y - a.y * b.x) * 0.5
  | .quad a c b =>
    (a.x * (2 * c.y + b.y) + 2 * c.x * (b.y - a.y) - b.x * (a.y + 2 * c.y)) * (1 / 6)
  | .cubic a c d b =>
    (a.x * (6 * c.y + 3 * d.y + b.y) +
        3 * (c.x * (-2 * a.y + d.y + b.y) - d.x * (a.y + c.y - 2 * b.y)) -
        b.x * (a.y + 3 * c.y + 6 * d.y)) * (1 / 20)

/-! ### parameters -/

/-- The point at a parameter between 0 and 1. -/
def pointAt (p : Piece) (t : Float) : Point :=
  let mt := 1 - t
  match p with
  | .line a b => a.add ((b.sub a).scale t)
  | .quad a c b => (a.scale (mt * mt)).add (((c.scale (mt * 2)).add (b.scale t)).scale t)
  | .cubic a c d b =>
    (a.scale (mt * mt * mt)).add
      (((c.scale (mt * mt * 3)).add (((d.scale (mt * 3)).add (b.scale t)).scale t)).scale t)

/-- The part between two parameters. -/
def between (p : Piece) (t0 t1 : Float) : Piece :=
  let q0 := p.pointAt t0
  let q1 := p.pointAt t1
  match p with
  | .line _ _ => .line q0 q1
  | .quad a c b =>
    let u := c.sub a
    let v := b.sub c
    .quad q0 (q0.add ((u.add ((v.sub u).scale t0)).scale (t1 - t0))) q1
  | .cubic a c d b =>
    let slope : Piece := .quad ((c.sub a).scale 3) ((d.sub c).scale 3) ((b.sub d).scale 3)
    let s := (t1 - t0) * (1 / 3)
    .cubic q0 (q0.add ((slope.pointAt t0).scale s)) (q1.sub ((slope.pointAt t1).scale s)) q1

/-- Whether a parameter lies strictly inside the piece. -/
def inside (t : Float) : Bool := t > 0 && t < 1

/-- The parameters in ascending order; the order among equal ones is kept. -/
def ascending (ts : List Float) : List Float := ts.mergeSort fun s t => s ≤ t

/-- The parameters at which the piece turns horizontally or vertically. -/
def extrema : Piece → List Float
  | .line _ _ => []
  | .quad a c b =>
    let u := c.sub a
    let v := b.sub c
    let turn (d0 d1 : Float) : List Float :=
      if d1 - d0 != 0 then [-d0 / (d1 - d0)].filter inside else []
    ascending (turn u.x v.x ++ turn u.y v.y)
  | .cubic a c d b =>
    let u := c.sub a
    let v := d.sub c
    let w := b.sub d
    let turn (d0 d1 d2 : Float) : List Float :=
      (quadraticRoots d0 (2 * (d1 - d0)) (d0 - 2 * d1 + d2)).filter inside
    ascending (turn u.x v.x w.x ++ turn u.y v.y w.y)

/-- The parts of a piece between the given parameters, from 0 to 1. -/
def cutAt (p : Piece) (t0 : Float) : List Float → List Piece
  | [] => [p.between t0 1]
  | t :: ts => p.between t0 t :: cutAt p t ts

/-! ### winding -/

/-- Whether a ray from `p` to the left meets a piece that rises or falls
throughout, where its height is that of `p`. -/
def leftOf (p : Point) (sign : Float) : Piece → Bool
  | .line a b =>
    let u := b.y - a.y
    let v := a.x - b.x
    let w := u * a.x + v * a.y
    (u * p.x + v * p.y - w) * sign ≤ 0
  | .quad a c b =>
    let u := b.y - 2 * c.y + a.y
    let v := 2 * (c.y - a.y)
    match (quadraticRoots (a.y - p.y) v u).find? fun t => 0 ≤ t && t ≤ 1 with
    | some t => p.x ≥ ((Piece.quad a c b).pointAt t).x
    | none => false
  | .cubic a c d b =>
    let k3 := b.y - 3 * d.y + 3 * c.y - a.y
    let k2 := 3 * (d.y - 2 * c.y + a.y)
    let k1 := 3 * (c.y - a.y)
    match (cubicRoots (a.y - p.y) k1 k2 k3).find? fun t => 0 ≤ t && t ≤ 1 with
    | some t => p.x ≥ ((Piece.cubic a c d b).pointAt t).x
    | none => false

/-- What a piece that rises or falls throughout adds to the winding number of
a point: one for falling and minus one for rising past it on its left. -/
def monotoneWinding (p : Point) (q : Piece) : Int :=
  let a := q.first
  let b := q.last
  let turn : Int :=
    if b.y > a.y then (if p.y < a.y || p.y ≥ b.y then 0 else -1)
    else if b.y < a.y then (if p.y < b.y || p.y ≥ a.y then 0 else 1)
    else 0
  if turn = 0 then 0
  else
    let least := q.controls.foldl (fun m c => lower m c.x) (lower a.x b.x)
    let most := q.controls.foldl (fun m c => upper m c.x) (upper a.x b.x)
    if p.x < least then 0
    else if p.x ≥ most then turn
    else if leftOf p (Float.ofInt turn) q then turn
    else 0

/-- What a piece adds to the winding number of a point. -/
def winding (p : Point) (q : Piece) : Int :=
  (q.cutAt 0 q.extrema).foldl (fun n r => n + r.monotoneWinding p) 0

end Piece

/-! ## drawings -/

/-- The pieces that a contour draws from its first node on the curve on. -/
structure Drawing where
  start : Point
  pieces : List Piece
  closed : Bool
deriving DecidableEq, Repr

/-- The pieces through the given nodes, from a point with some control points
pending behind it; and what is pending at the end. -/
def piecesFrom (a : Point) (pending : List Point) : List Node → List Piece × Point × List Point
  | [] => ([], a, pending)
  | n :: ns =>
    if n.onCurve then
      let (ps, rest) := piecesFrom n.pos [] ns
      (Piece.through a pending n.pos :: ps, rest)
    else piecesFrom a (pending ++ [n.pos]) ns

namespace Drawing

/-- The drawing of nodes of which the first lies on the curve.  Control points
at the end belong to the closing piece, if there is one. -/
def ofNodes (start : Point) (nodes : List Node) (closed : Bool) : Drawing :=
  let (ps, last, pending) := piecesFrom start [] nodes
  let closing :=
    if closed && !pending.isEmpty then [Piece.through last pending start] else []
  ⟨start, ps ++ closing, closed⟩

/-- Where the last piece ends. -/
def finish (d : Drawing) : Point := (d.pieces.getLast?.map Piece.last).getD d.start

/-- The pieces of the whole loop: a closed drawing that ends elsewhere than it
starts gets a straight piece back. -/
def loop (d : Drawing) : List Piece :=
  if d.closed && !d.finish.same d.start then d.pieces ++ [.line d.finish d.start] else d.pieces

/-- The area inside the pieces. -/
def area (d : Drawing) : Float := d.loop.foldl (fun s p => s + p.area) 0

/-- How often the drawing winds around a point. -/
def winding (d : Drawing) (p : Point) : Int := d.loop.foldl (fun n q => n + q.winding p) 0

end Drawing

namespace Contour

/-- What a contour draws, as a closed or as an open one; without a node on the
curve it draws nothing.  The nodes before the first one on the curve belong to
the end of a closed drawing, and to nothing in an open one. -/
def drawingAs? (c : Contour) (closed : Bool) : Option Drawing :=
  match c.nodes.span fun n => !n.onCurve with
  | (_, []) => none
  | (before, first :: rest) =>
    some (Drawing.ofNodes first.pos (if closed then rest ++ before else rest) closed)

/-- What a contour draws. -/
def drawing? (c : Contour) : Option Drawing := c.drawingAs? c.closed

/-- The area that a contour encloses if it is closed: positive if it runs
counter-clockwise, `y` pointing upwards. -/
def signedArea (c : Contour) : Float := ((c.drawingAs? true).map Drawing.area).getD 0

/-- Whether a contour runs clockwise. -/
def isClockwise (c : Contour) : Bool := c.signedArea < 0

end Contour

end FontTrace
