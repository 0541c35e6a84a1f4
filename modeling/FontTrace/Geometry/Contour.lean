import FontTrace.Geometry.Point

/-!
# FontTrace.Geometry.Contour

Contours as lists of nodes, and outlines as lists of contours.  A node lies on
the curve or is a control point of the segment around it.  A closed contour
never repeats its first node at the end: the control points of its closing
segment trail after the last node on the curve.

* `reversed_reversed` — reversing twice gives the contour back;
* `nodes_append` and its neighbours — every operation in terms of the node list.
-/

namespace FontTrace

/-- One node of a contour. -/
structure Node where
  pos : Point
  onCurve : Bool
deriving DecidableEq, Repr, Inhabited

namespace Node

/-- A node on the curve. -/
def on (p : Point) : Node := ⟨p, true⟩

/-- A control point. -/
def off (p : Point) : Node := ⟨p, false⟩

/-- The image of a node. -/
def map (f : Point → Point) (n : Node) : Node := ⟨f n.pos, n.onCurve⟩

end Node

/-- A loop of the outline, or an open path. -/
structure Contour where
  nodes : List Node
  closed : Bool
deriving DecidableEq, Repr, Inhabited

/-- The nodes `first` to `last`, both included, going on at the front if `last`
stands before `first`.  A `last` past the end counts as the last node. -/
def cyclicSlice {α : Type} (xs : List α) (first last : Nat) : List α :=
  if xs.length ≤ first then []
  else
    let last := min last (xs.length - 1)
    if first ≤ last then (xs.drop first).take (last - first + 1)
    else xs.drop first ++ xs.take (last + 1)

/-- The list that starts with the element at the given place and goes on at
the front. -/
def rotatedTo {α : Type} (xs : List α) (start : Nat) : List α :=
  xs.drop start ++ xs.take start

namespace Contour

/-- The open contour that consists of one point. -/
def start (p : Point) : Contour := ⟨[.on p], false⟩

/-- The closed polygon through points on the curve. -/
def polygon (ps : List Point) : Contour := ⟨ps.map .on, true⟩

/-- The clockwise rectangle with the sides of a box. -/
def rectangle (b : Box) : Contour :=
  polygon [⟨b.x0, b.y0⟩, ⟨b.x0, b.y1⟩, ⟨b.x1, b.y1⟩, ⟨b.x1, b.y0⟩]

/-- The contour continued by a straight segment. -/
def lineTo (c : Contour) (p : Point) : Contour := { c with nodes := c.nodes ++ [.on p] }

/-- The contour continued by a cubic segment. -/
def curveTo (c : Contour) (c1 c2 p : Point) : Contour :=
  { c with nodes := c.nodes ++ [.off c1, .off c2, .on p] }

/-- Whether the last node repeats the first one, both on the curve. -/
def repeatsStart (nodes : List Node) : Bool :=
  match nodes with
  | first :: second :: rest =>
    let last := (second :: rest).getLastD second
    last.onCurve && first.onCurve && last.pos.same first.pos
  | _ => false

/-- The contour as a closed one, without a last node that repeats the first. -/
def close (c : Contour) : Contour :=
  ⟨if repeatsStart c.nodes then c.nodes.dropLast else c.nodes, true⟩

/-- How many nodes there are. -/
def size (c : Contour) : Nat := c.nodes.length

/-- The places of the nodes on the curve. -/
def onCurveIndices (c : Contour) : List Nat :=
  c.nodes.zipIdx.filterMap fun (n, i) => if n.onCurve then some i else none

/-- The place of the `n`-th node on the curve. -/
def onCurveIndex? (c : Contour) (n : Nat) : Option Nat := c.onCurveIndices[n]?

/-- How many nodes lie on the curve. -/
def onCurveCount (c : Contour) : Nat := c.nodes.countP (·.onCurve)

/-- The place of the first node on the curve. -/
def firstOnCurve? (c : Contour) : Option Nat := c.nodes.findIdx? (·.onCurve)

/-- The contour traversed backwards.  A closed one keeps its first node. -/
def reversed (c : Contour) : Contour :=
  if c.closed then
    match c.nodes with
    | [] => c
    | first :: rest => { c with nodes := first :: rest.reverse }
  else { c with nodes := c.nodes.reverse }

/-- The image of a contour. -/
def map (f : Point → Point) (c : Contour) : Contour := { c with nodes := c.nodes.map (·.map f) }

/-- The image under an affine map. -/
def transform (m : Affine) (c : Contour) : Contour := c.map m.apply

/-- A closed contour with another of its nodes in front. -/
def startingAt (c : Contour) (i : Nat) : Contour :=
  if c.closed && i < c.nodes.length then { c with nodes := rotatedTo c.nodes i } else c

/-- The contour without the nodes `first` to `last`, both included.  Places
out of order or out of range remove nothing. -/
def without (c : Contour) (first last : Nat) : Contour :=
  if first ≤ last ∧ last < c.nodes.length then
    { c with nodes := c.nodes.take first ++ c.nodes.drop (last + 1) }
  else c

/-- The contour with the nodes of another behind its own. -/
def append (c d : Contour) : Contour := { c with nodes := c.nodes ++ d.nodes }

/-- The smallest box around all nodes, control points included. -/
def box? (c : Contour) : Option Box := Box.around? (c.nodes.map (·.pos))

/-! ## laws -/

@[simp] theorem closed_reversed (c : Contour) : c.reversed.closed = c.closed := by
  unfold reversed; split <;> (try split) <;> rfl

@[simp] theorem closed_startingAt (c : Contour) (i : Nat) :
    (c.startingAt i).closed = c.closed := by
  unfold startingAt; split <;> rfl

@[simp] theorem closed_close (c : Contour) : c.close.closed = true := rfl

@[simp] theorem nodes_append (c d : Contour) : (c.append d).nodes = c.nodes ++ d.nodes := rfl

@[simp] theorem reversed_reversed (c : Contour) : c.reversed.reversed = c := by
  obtain ⟨nodes, closed⟩ := c
  cases closed <;> cases nodes <;> simp [reversed]

@[simp] theorem size_reversed (c : Contour) : c.reversed.size = c.size := by
  obtain ⟨nodes, closed⟩ := c
  cases closed <;> cases nodes <;> simp [reversed, size]

theorem startingAt_perm (c : Contour) (i : Nat) : (c.startingAt i).nodes.Perm c.nodes := by
  unfold startingAt
  split
  · have h : (rotatedTo c.nodes i).Perm (c.nodes.take i ++ c.nodes.drop i) :=
      List.perm_append_comm
    rwa [List.take_append_drop] at h
  · exact List.Perm.refl _

end Contour

/-! ## outlines -/

/-- The contours of a picture or a glyph, in order. -/
abbrev Outline := List Contour

namespace Outline

/-- Every contour reversed. -/
def reversed (o : Outline) : Outline := o.map Contour.reversed

/-- The image under an affine map. -/
def transform (m : Affine) (o : Outline) : Outline := o.map (Contour.transform m)

/-- Whether every contour is closed. -/
def allClosed (o : Outline) : Bool := o.all (·.closed)

/-- The smallest box around all contours. -/
def box? (o : Outline) : Option Box := Box.reduce? Box.union (o.filterMap Contour.box?)

/-- Every coordinate rounded to the nearest integer. -/
def rounded (o : Outline) : Outline :=
  o.map (Contour.map fun p => ⟨roundWhole p.x, roundWhole p.y⟩)

@[simp] theorem reversed_reversed (o : Outline) : o.reversed.reversed = o := by
  simp [reversed, Function.comp_def]

end Outline

end FontTrace
