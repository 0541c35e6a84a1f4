import FontTrace.Pen

/-!
# FontTrace.Engine

The outline engine: boolean operations and strokes, which the replay of a
trace asks for and never does itself.  An engine is a record of operations on
a state of its own type, so that a statement about replays can quantify over
all engines, and so that an engine may keep a log of what it was asked.

Outer boundaries run clockwise.
-/

namespace FontTrace

/-- Why an engine does not stroke. -/
inductive EngineError where
  | unsupported (what : String)
  | rejected (reason : String)
deriving DecidableEq, Repr

/-- The error in words. -/
def EngineError.message : EngineError → String
  | .unsupported what => s!"the outline engine doesn't support {what}"
  | .rejected reason => s!"the outline engine rejected the stroke: {reason}"

/-- How a stroke is made: whether only the inside of the stroked loop is kept,
whether the result is simplified, and how accurate it is. -/
structure StrokeOptions where
  removeInternal : Bool := false
  simplify : Bool := false
  accuracy : Option Float := none
deriving DecidableEq, Repr

/-- The operations of an outline engine with states in `σ`. -/
structure Engine (σ : Type) where
  /-- The union of overlapping contours. -/
  removeOverlap : Outline → StateM σ Outline
  /-- Every closed contour oriented by its nesting depth. -/
  correctDirection : Outline → StateM σ Outline
  /-- What all contours share. -/
  intersect : Outline → StateM σ Outline
  /-- Nodes on the curve at its horizontal and vertical extremes. -/
  addExtrema : Contour → StateM σ Contour
  /-- Paths drawn with an elliptical pen. -/
  strokeElliptical : Outline → EllipticalPen → StrokeOptions → StateM σ (Except EngineError Outline)
  /-- Paths drawn with a convex polygon as the pen. -/
  strokeConvex : Outline → Contour → StrokeOptions → StateM σ (Except EngineError Outline)
  /-- Canonical starting points, and the contours in canonical order. -/
  canonicalize : Outline → StateM σ Outline
  /-- The contour without the node at the given place, its two segments joined. -/
  mergePoint : Contour → Nat → StateM σ Contour

end FontTrace
