import FontTrace.Notice

/-!
# FontTrace.Engine.Scaled

Engine operations on enlarged outlines.  Small outlines lose points in overlap
removal and direction correction; working at a larger scale avoids that.
-/

namespace FontTrace

variable {σ : Type}

/-- An operation on the outline enlarged by a factor, and the result brought
back.  A factor of zero or one leaves the outline at its size. -/
def scaled (factor : Float) (op : Outline → StateM σ Outline) (o : Outline) : StateM σ Outline :=
  if factor == 0 || factor == 1 then op o
  else do
    let o ← op (o.transform (Affine.uniformScaling factor))
    return o.transform (Affine.uniformScaling (1 / factor))

/-- The contours merged one at a time, each into the union of those before it. -/
def mergeOneByOne (e : Engine σ) (factor : Float) (o : Outline) : StateM σ Outline :=
  o.foldlM (fun merged c => scaled factor e.removeOverlap (merged ++ [c])) []

/-- Overlap removal at a larger scale.  If the engine opens contours of an
outline that had none open and `pairwise` asks for it, the contours of the
outline are merged one at a time instead. -/
def removeOverlapScaled (e : Engine σ) (factor : Float) (pairwise : Bool) (o : Outline) :
    StateT σ Noted Outline := do
  noteIf (!Outline.allClosed o) .openContours
  let union ← silently (scaled factor e.removeOverlap o)
  if pairwise && Outline.allClosed o && !Outline.allClosed union then
    silently (mergeOneByOne e factor o)
  else return union

/-- Direction correction at a larger scale. -/
def correctDirectionScaled (e : Engine σ) (factor : Float) (o : Outline) :
    StateT σ Noted Outline :=
  silently (scaled factor e.correctDirection o)

end FontTrace
