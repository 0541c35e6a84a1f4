import FontTrace.Command.Picture
import FontTrace.Engine.Scaled
import FontTrace.Geometry.Curve
import FontTrace.Settings

/-!
# FontTrace.Replay.Stroke

The contours that a path leaves in a picture: filled, or drawn with a pen.
Elliptical and polygonal pens are strokes of the engine; if it refuses, the
path itself is left.  A pen without height cannot be stroked by an engine, so
its bands are made here: one for every segment, between two shifted copies of
the segment.
-/

namespace FontTrace

variable {σ : Type}

/-! ## razors -/

/-- The places of the nodes on the curve at which a segment of the contour starts. -/
def segmentStarts (c : Contour) : List Nat :=
  c.onCurveIndices.filter fun i => c.closed || i + 1 < c.size

/-- The place where the segment from the `i`-th node on ends: the next node on
the curve, with at most two control points in between. -/
def segmentEnd? (c : Contour) (i : Nat) : Option Nat :=
  ([i + 1, i + 2, i + 3].map (· % c.size)).find? fun j => c.nodes[j]?.any (·.onCurve)

/-- The clockwise band between a segment moved right and moved left by `half`. -/
def band (half : Float) (segment : List Node) : Contour :=
  let c : Contour := ⟨segment, false⟩
  let right := c.transform (Affine.translation half 0)
  let left := c.reversed.transform (Affine.translation (-half) 0)
  let b : Contour := ⟨right.nodes ++ left.nodes, true⟩
  if b.isClockwise then b else b.reversed

/-- The bands of all segments of a contour, in order. -/
def bands (half : Float) (c : Contour) : Outline :=
  (segmentStarts c).filterMap fun i =>
    (segmentEnd? c i).map fun j => band half (cyclicSlice c.nodes i j)

/-- The ink that a horizontal razor of some width leaves along a contour. -/
def razorInk (e : Engine σ) (cfg : Settings) (width : Float) (c : Contour) :
    StateT σ Noted Outline := do
  let c ← silently (e.addExtrema c)
  removeOverlapScaled e cfg.geometry.removeOverlapScale false (bands (width / 2) c)

/-- The ink that a razor leaves: every contour is turned so that the razor is
horizontal, and the ink of all of them is turned back. -/
def strokeRazor (e : Engine σ) (cfg : Settings) (width angle : Float) (o : Outline) :
    StateT σ Noted Outline := do
  let ink ← o.foldlM
    (fun ink c => do
      return ink ++ (← razorInk e cfg width (c.transform (Affine.rotation (-angle)))))
    []
  return Outline.transform (Affine.rotation angle) ink

/-! ## other pens -/

/-- A report in a computation with a state. -/
def report (n : Notice) : StateT σ Noted Unit := fun s => do
  note n
  return ((), s)

/-- The ink of an elliptical pen, or the path if the engine refuses. -/
def strokeEllipse (e : Engine σ) (nib : EllipticalPen) (opts : StrokeOptions) (o : Outline) :
    StateT σ Noted Outline := do
  match ← silently (e.strokeElliptical o nib opts) with
  | .ok ink => return ink
  | .error err =>
    report (.unstroked err)
    return o

/-- The ink of a polygonal pen: the other orientation of the polygon gets a
second try, and the path is left if that is refused too. -/
def strokePolygon (e : Engine σ) (boundary : Contour) (opts : StrokeOptions) (o : Outline) :
    StateT σ Noted Outline := do
  match ← silently (e.strokeConvex o boundary opts) with
  | .ok ink => return ink
  | .error first =>
    match ← silently (e.strokeConvex o boundary.reversed opts) with
    | .ok ink => return ink
    | .error second =>
      report (.penRejected first second)
      return o

/-- How strokes are made; for a filled path only their inside is kept. -/
def strokeOptions (cfg : Settings) (filled : Bool) : StrokeOptions :=
  ⟨filled, cfg.strokeSimplify, cfg.strokeAccuracy⟩

/-- The ink that a pen leaves along paths, directions corrected. -/
def drawWith (e : Engine σ) (cfg : Settings) (pen : Pen) (filled : Bool) (o : Outline) :
    StateT σ Noted Outline := do
  let ink ← match pen with
    | .none => pure o
    | .elliptical nib => strokeEllipse e nib (strokeOptions cfg filled) o
    | .razor width angle => strokeRazor e cfg width angle o
    | .polygon boundary => strokePolygon e boundary (strokeOptions cfg filled) o
  correctDirectionScaled e cfg.geometry.correctDirectionScale ink

/-! ## ink -/

/-- Whether a filled contour has to be reversed, so that what the compiler
fills counter-clockwise comes out clockwise; none if it leaves nothing. -/
def fillReversed? (weight : Int) (turning : Option Turning) : Option Bool :=
  let bySign : Option Bool := if 0 < weight then some true else if weight < 0 then some false else none
  match turning with
  | some ⟨check, number⟩ =>
    if 0 < check then
      if decide (0 < weight) = decide (0 < number) then some true
      else if decide (weight < 0) = decide (0 < number) then some false
      else none
    else bySign
  | none => bySign

/-- As many copies of a path's contour as the weight says, its sign left aside. -/
def copies (cfg : Settings) (weight : Int) (p : Path) : Outline :=
  List.replicate weight.natAbs (p.toContour cfg.makeLinesThreshold)

/-- The contours of a filled path without a pen. -/
def fillInk (cfg : Settings) (k : Stroke) : Outline :=
  match fillReversed? k.weight k.turning with
  | some true => copies cfg k.weight k.path.reversed
  | some false => copies cfg k.weight k.path
  | none => []

/-- The contours that a path leaves in a picture.  A path that is only drawn
leaves nothing without a pen. -/
def Stroke.ink (e : Engine σ) (cfg : Settings) (k : Stroke) : StateT σ Noted Outline :=
  match k.pen, k.filled with
  | .none, true => pure (fillInk cfg k)
  | .none, false => pure []
  | pen, true => drawWith e cfg pen true (copies cfg k.weight k.path.reversed)
  | pen, false => drawWith e cfg pen false (copies cfg k.weight k.path)

end FontTrace
