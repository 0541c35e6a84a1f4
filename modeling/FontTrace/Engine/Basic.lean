import FontTrace.Engine
import FontTrace.Geometry.Curve

/-!
# FontTrace.Engine.Basic

The engine that comes with the library.  It does what needs no boolean path
operations: orientation by nesting depth, extreme points, canonical order and
merging of points.  Overlaps and intersections stay as they are, and strokes
are refused.

It has no state: every operation below is a function on contours, and
`Engine.basic` only wraps them.
-/

namespace FontTrace

/-! ## orientation -/

/-- Contours whose area is smaller than this have no orientation. -/
def smallestArea : Float := 1e-9

namespace Contour

/-- Whether a contour has an orientation to correct. -/
def isOriented (c : Contour) : Bool := c.closed && !(c.signedArea.abs < smallestArea)

/-- The position of the first node on the curve. -/
def firstPoint? (c : Contour) : Option Point := (c.nodes.find? (·.onCurve)).map (·.pos)

/-- Whether a closed contour winds around a point. -/
def encloses (c : Contour) (p : Point) : Bool :=
  c.closed && c.drawing?.any fun d => d.winding p != 0

end Contour

/-- How many contours of the outline, the `i`-th excepted, enclose a point. -/
def nestingDepth (o : Outline) (i : Nat) (p : Point) : Nat :=
  o.zipIdx.countP fun (c, j) => j != i && c.encloses p

/-- A contour oriented by how many other contours of the outline enclose its
first point: clockwise if an even number does. -/
def orientAt (o : Outline) (c : Contour) (i : Nat) : Contour :=
  match c.firstPoint? with
  | none => c
  | some p =>
    if c.isOriented && (c.isClockwise != (nestingDepth o i p % 2 == 0)) then c.reversed else c

/-- Every contour oriented by its depth among the contours of the outline. -/
def orientByNesting (o : Outline) : Outline := o.zipIdx.map fun (c, i) => orientAt o c i

/-! ## extreme points -/

/-- Parameters closer than this to an end, or to each other, are not told apart. -/
def parameterGap : Float := 1e-6

/-- The parameters in ascending order without those close to the one before. -/
def thinned (kept : Float) : List Float → List Float
  | [] => []
  | t :: ts => if (t - kept).abs < parameterGap then thinned kept ts else t :: thinned t ts

/-- The parameters at which a piece is cut. -/
def cutParameters (p : Piece) : List Float :=
  let ts := (p.extrema.filter fun t => t > parameterGap && t < 1 - parameterGap).mergeSort
    fun s t => totalKey s ≤ totalKey t
  match ts with
  | [] => []
  | t :: ts => t :: thinned t ts

/-- The nodes of cubic pieces, each without its first point. -/
def cubicNodes (ps : List Piece) : List Node :=
  ps.flatMap fun p => p.controls.map .off ++ [.on p.last]

/-- The nodes of a contour that goes on from the point `a` with some control
points pending, with every cubic segment cut at its extremes. -/
def extremaFrom (a : Point) (pending : List Point) : List Node → List Node × List Point
  | [] => ([], pending)
  | n :: ns =>
    if n.onCurve then
      let (rest, left) := extremaFrom n.pos [] ns
      match pending with
      | [c, d] =>
        let p := Piece.cubic a c d n.pos
        (cubicNodes (p.cutAt 0 (cutParameters p)) ++ rest, left)
      | cs => (cs.map .off ++ n :: rest, left)
    else extremaFrom a (pending ++ [n.pos]) ns

/-- A contour with nodes at the extremes of its cubic segments.  A closed one
starts with its first node on the curve and its closing segment is cut too; an
open one that starts off the curve stays as it is. -/
def addExtremaTo (c : Contour) : Contour :=
  match c.firstOnCurve? with
  | none => c
  | some start =>
    let c := c.startingAt start
    match c.nodes with
    | [] => c
    | first :: rest =>
      if c.closed then
        let (nodes, pending) := extremaFrom first.pos [] (rest ++ [first])
        { c with nodes := (first :: nodes).dropLast ++ pending.map .off }
      else if start = 0 then
        { c with nodes := first :: (extremaFrom first.pos [] rest).1 }
      else c

/-! ## canonical order -/

/-- By `x` first and `y` second. -/
def pointLe (p q : Point) : Bool :=
  totalKey p.x < totalKey q.x || (totalKey p.x == totalKey q.x && totalKey p.y ≤ totalKey q.y)

/-- A closed contour that starts with its least node on the curve. -/
def startAtLeast (c : Contour) : Contour :=
  if c.closed then
    let points : List (Point × Nat) :=
      c.nodes.zipIdx.filterMap fun (n, i) => if n.onCurve then some (n.pos, i) else none
    match leastBy? (fun p q => pointLe p.1 q.1) points with
    | some (_, i) => c.startingAt i
    | none => c
  else c

/-- By the first node; contours without nodes come last. -/
def contourLe (c d : Contour) : Bool :=
  match c.nodes, d.nodes with
  | a :: _, b :: _ => pointLe a.pos b.pos
  | [], _ :: _ => false
  | _, [] => true

/-- Every closed contour starts with its least node, and the contours are
sorted by their first nodes. -/
def canonicalOrder (o : Outline) : Outline := (o.map startAtLeast).mergeSort contourLe

/-! ## merging -/

/-- The contour without the node on the curve at the given place.  With two
control points on either side the outer one of each pair stays, so that the
joined segment is a cubic one; otherwise all control points around go. -/
def mergeAt (c : Contour) (i : Nat) : Contour :=
  match c.nodes[i]? with
  | none => c
  | some node =>
    if !node.onCurve || c.onCurveCount < 2 then c
    else
      let around : List (Node × Nat) := c.nodes.zipIdx
      let behind := around.drop (i + 1)
      let before := (around.take i).reverse
      -- the places of the control points next to the node, nearest first
      let controls (side : List (Node × Nat)) : List Nat :=
        (side.takeWhile fun (p : Node × Nat) => !p.1.onCurve).map (·.2)
      let after := controls (if c.closed then behind ++ before.reverse else behind)
      let ahead := controls (if c.closed then before ++ behind.reverse else before)
      let removed :=
        if ahead.length = 2 ∧ after.length = 2 then i :: (ahead.take 1 ++ after.take 1)
        else i :: (ahead ++ after)
      let kept := around.filter fun (p : Node × Nat) => !removed.contains p.2
      let merged : Contour := ⟨kept.map (·.1), c.closed⟩
      match merged.firstOnCurve? with
      | some start => merged.startingAt start
      | none => merged

/-! ## the engine -/

/-- The engine of the functions above. -/
def Engine.basic : Engine Unit where
  removeOverlap o := pure o
  correctDirection o := pure (orientByNesting o)
  intersect o := pure o
  addExtrema c := pure (addExtremaTo c)
  strokeElliptical _ _ _ := pure (.error (.unsupported "elliptical pens"))
  strokeConvex _ _ _ := pure (.error (.unsupported "polygonal pens"))
  canonicalize o := pure (canonicalOrder o)
  mergePoint c i := pure (mergeAt c i)

end FontTrace
