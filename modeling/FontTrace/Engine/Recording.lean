import FontTrace.Engine.Basic

/-!
# FontTrace.Engine.Recording

An engine with easily predicted answers that writes down what it was asked.
Unions and intersections are those of bounding boxes, and a stroke is the
bounding box of the path grown by half the pen.  A number of convex strokes
can be made to fail.
-/

namespace FontTrace

/-- The operations of an engine, as entries of a log. -/
inductive EngineCall where
  | removeOverlap | correctDirection | intersect | addExtrema
  | strokeElliptical | strokeConvex | canonicalize | mergePoint
deriving DecidableEq, Repr

/-- What was asked so far, and how many convex strokes are still to fail. -/
structure CallLog where
  calls : List EngineCall := []
  failing : Nat := 0
deriving DecidableEq, Repr

/-- The log with one more entry. -/
def CallLog.add (log : CallLog) (call : EngineCall) : CallLog :=
  { log with calls := log.calls ++ [call] }

/-- An answer that is given along with an entry. -/
def recorded {α : Type} (call : EngineCall) (answer : α) : StateM CallLog α :=
  fun log => (answer, log.add call)

/-- The rectangle around the outline with every side moved outwards. -/
def grownBox (o : Outline) (dx dy : Float) : Outline :=
  (o.box?.map fun b => Contour.rectangle (b.grow dx dy)).toList

/-- The rectangle around all closed contours, and the open ones behind it. -/
def boxUnion (o : Outline) : Outline :=
  let (closed, opened) := o.partition (·.closed)
  ((Outline.box? closed).map Contour.rectangle).toList ++ opened

/-- The rectangle that all bounding boxes share, if it has an area. -/
def boxIntersection (o : Outline) : Outline :=
  (((Box.reduce? Box.intersection (o.filterMap Contour.box?)).filter fun b => b.area > 0).map
    Contour.rectangle).toList

/-- The engine of bounding boxes. -/
def Engine.recording : Engine CallLog where
  removeOverlap o := recorded .removeOverlap (boxUnion o)
  correctDirection o := recorded .correctDirection (orientByNesting o)
  intersect o := recorded .intersect (boxIntersection o)
  addExtrema c := recorded .addExtrema (addExtremaTo c)
  strokeElliptical o pen _ :=
    recorded .strokeElliptical (.ok (grownBox o (pen.width / 2) (pen.width / 2)))
  strokeConvex o pen _ := fun log =>
    let log := log.add .strokeConvex
    if 0 < log.failing then
      (.error (.rejected "pen is not convex"), { log with failing := log.failing - 1 })
    else
      let b := pen.box?.getD ⟨0, 0, 0, 0⟩
      (.ok (grownBox o (b.width / 2) (b.height / 2)), log)
  canonicalize o := recorded .canonicalize (canonicalOrder o)
  mergePoint c i := recorded .mergePoint (mergeAt c i)

end FontTrace
