import FontTrace.Geometry.Contour

/-!
# FontTrace.Geometry.Collinear

Whether points lie on a common straight line, as far as the passes over a
contour are concerned: a least-squares line is fitted, along the axis on which
the points spread more, and no point may stray from it by the threshold.
-/

namespace FontTrace

/-- The sum of a list, added up from the left. -/
def total (xs : List Float) : Float := xs.foldl (· + ·) 0

/-- The mean square of the distances from `mean`. -/
def spread (xs : List Float) (mean : Float) : Float :=
  total (xs.map fun x => (x - mean) * (x - mean)) / Float.ofNat xs.length

/-- How far the points stray from their least-squares line `y = beta x + alpha`. -/
def largestStray (xs ys : List Float) (xMean yMean : Float) : Float :=
  let sxy := total (List.zipWith (fun x y => (x - xMean) * (y - yMean)) xs ys)
  let sxx := total (xs.map fun x => (x - xMean) * (x - xMean))
  let beta := sxy / sxx
  let alpha := yMean - beta * xMean
  let norm := Float.sqrt (beta * beta + 1)
  (List.zipWith (fun x y => (-beta * x + y - alpha).abs / norm) xs ys).foldl upper 0

/-- Whether all points stay within `threshold` of one straight line.  Points
that hardly spread at all do. -/
def isCollinear (threshold : Float) (nodes : List Node) : Bool :=
  if nodes.isEmpty then true
  else
    let xs := nodes.map (·.pos.x)
    let ys := nodes.map (·.pos.y)
    let count := Float.ofNat nodes.length
    let xMean := total xs / count
    let yMean := total ys / count
    let xSpread := spread xs xMean
    let ySpread := spread ys yMean
    if xSpread < 0.01 && ySpread < 0.01 then true
    else if xSpread < ySpread then largestStray ys xs yMean xMean < threshold
    else largestStray xs ys xMean yMean < threshold

end FontTrace
