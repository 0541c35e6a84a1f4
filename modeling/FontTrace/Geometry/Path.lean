import FontTrace.Geometry.Collinear

/-!
# FontTrace.Geometry.Path

Paths as the compiler shows them: a starting point and cubic joins, the last of
which closes the path if it is a cycle.

* `Path.reversed` — the same path traversed backwards;
* `Path.toContour` — the contour a path draws, with straight joins as lines if
  a threshold for straightness is given.
-/

namespace FontTrace

/-- One cubic join.  Without an end point it leads back to the start. -/
structure Join where
  c1 : Point
  c2 : Point
  stop : Option Point
deriving DecidableEq, Repr

/-- A path. -/
structure Path where
  start : Point
  joins : List Join
deriving DecidableEq, Repr

namespace Path

/-- Whether the path leads back to its start. -/
def isCyclic (p : Path) : Bool := p.joins.getLast?.any (·.stop.isNone)

/-- Every point of the path, control points included, in order. -/
def points (p : Path) : List Point :=
  p.start :: p.joins.flatMap fun j => j.c1 :: j.c2 :: j.stop.toList

/-- The points on the path, without the start of a cycle at its end. -/
def knots (p : Path) : List Point := p.start :: p.joins.filterMap (·.stop)

/-- Joins in reverse order, with the given ends. -/
def reversedJoins (joins : List Join) (stops : List (Option Point)) : List Join :=
  List.zipWith (fun j stop => ⟨j.c2, j.c1, stop⟩) joins.reverse stops

/-- The path traversed backwards: a cycle keeps its starting point, and each
join ends where the join before it in the old order ended. -/
def reversed (p : Path) : Path :=
  if p.joins.isEmpty then p
  else if p.isCyclic then
    ⟨p.start, reversedJoins p.joins ((p.joins.reverse.drop 1).map (·.stop) ++ [none])⟩
  else
    ⟨p.knots.getLastD p.start,
     reversedJoins p.joins ((p.knots.take p.joins.length).reverse.map some)⟩

/-- Whether a join is as good as a straight line. -/
def isStraight (threshold : Option Float) (a c1 c2 b : Point) : Bool :=
  threshold.any fun t => isCollinear t [.on a, .off c1, .off c2, .on b]

/-- A contour continued by the joins of a path that starts at `start`; `last`
is where the contour has come to.  A join back to the start closes it, and
nothing follows. -/
def extend (threshold : Option Float) (start : Point) : Contour → Point → List Join → Contour
  | c, _, [] => c
  | c, last, j :: js =>
    let stop := j.stop.getD start
    let c :=
      if isStraight threshold last j.c1 j.c2 stop then c.lineTo stop
      else c.curveTo j.c1 j.c2 stop
    if j.stop.isNone then c.close else extend threshold start c stop js

/-- The contour a path draws; with a threshold, joins that are straight up to
it become lines. -/
def toContour (p : Path) (threshold : Option Float) : Contour :=
  extend threshold p.start (Contour.start p.start) p.start p.joins

@[simp] theorem reversed_of_nil (z : Point) : reversed ⟨z, []⟩ = ⟨z, []⟩ := rfl

theorem length_reversedJoins (joins : List Join) (stops : List (Option Point)) :
    (reversedJoins joins stops).length = min joins.length stops.length := by
  simp [reversedJoins]

end Path

end FontTrace
