import FontTrace.Replay.State
import FontTrace.Replay.Stroke

/-!
# FontTrace.Replay.Picture

What commands do to pictures.

A picture is a field of winding numbers, and `cull` keeps or drops the places
with winding numbers in a range.  With contours only some of it can be done:
dropping all positive or all negative places, overlap removal (dropping zero
alone), and keeping all places that are covered at least so many times.
-/

namespace FontTrace

variable {σ : Type}

/-! ## culling -/

/-- All ways to choose so many elements of a list, in the order of their places. -/
def choices {α : Type} : Nat → List α → List (List α)
  | 0, _ => [[]]
  | _ + 1, [] => []
  | k + 1, x :: xs =>
    if xs.length < k then []
    else (choices k xs).map (x :: ·) ++ choices (k + 1) xs

/-- What contours have in common: the first of them, cut down by each of the
others. -/
def commonPart (e : Engine σ) : Outline → StateT σ Noted Outline
  | [] => pure []
  | c :: cs => cs.foldlM (fun common d => silently (e.intersect (common ++ [d]))) [c]

/-- The places that at least `depth` contours cover, as often as the weight says. -/
def keepOverlaps (e : Engine σ) (depth : Nat) (weight : Int) (o : Outline) :
    StateT σ Noted Outline := do
  let kept ← (choices depth o).foldlM (fun kept cs => do return kept ++ (← commonPart e cs)) []
  let kept ← silently (e.removeOverlap kept)
  let kept := if weight < 0 then Outline.reversed kept else kept
  return (List.replicate weight.natAbs kept).flatten

/-- The contours whose direction does not have to be corrected, or those whose
direction has to be; overlaps are removed first. -/
def dropBySign (e : Engine σ) (cfg : Settings) (dropPositive dropNegative : Bool) (o : Outline) :
    StateT σ Noted Outline := do
  let o ← removeOverlapScaled e cfg.geometry.removeOverlapScale true o
  let fixed ← correctDirectionScaled e cfg.geometry.correctDirectionScale o
  let kept (c : Contour) (d : Contour) : Bool :=
    let same := c.isClockwise == d.isClockwise
    !(dropPositive && same || dropNegative && !same)
  return ((o.zip fixed).filter fun p => kept p.1 p.2).map (·.1)

/-- The union of all contours, directions corrected. -/
def unite (e : Engine σ) (cfg : Settings) (o : Outline) : StateT σ Noted Outline := do
  let o ← removeOverlapScaled e cfg.geometry.removeOverlapScale true o
  correctDirectionScaled e cfg.geometry.correctDirectionScale o

namespace CullRange

/-- Whether every positive winding number of a picture of `count` contours is dropped. -/
def dropsPositive (r : CullRange) (count : Int) : Bool :=
  (r.mode == .dropping && r.low == 1 && count ≤ r.high) ||
    (r.mode == .keeping && r.low ≤ -count && r.high == 0)

/-- Whether every negative winding number of a picture of `count` contours is dropped. -/
def dropsNegative (r : CullRange) (count : Int) : Bool :=
  (r.mode == .dropping && count ≤ -r.low && r.high == 0) ||
    (r.mode == .keeping && r.low == 1 && count ≤ r.high)

/-- How an outline is culled, if the range is one of those that can be done. -/
def cull (e : Engine σ) (cfg : Settings) (r : CullRange) (weight : Int) (o : Outline) :
    Except Skip (StateT σ Noted Outline) :=
  let count : Int := o.length
  let positive := r.dropsPositive count
  let negative := r.dropsNegative count
  if positive || negative then .ok (dropBySign e cfg positive negative o)
  else if r.mode == .dropping && r.low == 0 && r.high == 0 then .ok (unite e cfg o)
  else if r.mode == .keeping && r.low == 0 && r.high == 0 then .error .cullKeepingZero
  else if r.mode == .keeping && 1 ≤ r.low then .ok (keepOverlaps e r.low.toNat weight o)
  else .error (.unsupportedCull r.mode.name r.low r.high)

end CullRange

/-! ## pictures -/

/-- A new outline for a picture, by the engine. -/
def redraw (name : String) (f : Outline → Except Skip (StateT σ Noted Outline)) : Update σ :=
  fun s =>
    match Pictures.get s.pictures name with
    | .error k => pure (.error k)
    | .ok p =>
      match f p.outline with
      | .error k => pure (.error k)
      | .ok draw => do
        let (o, engine) ← draw s.engine
        return .ok { s with
          pictures := Table.put s.pictures name { p with outline := o }
          engine := engine }

/-- A change of the pictures alone. -/
def rearrange (f : Pictures → Except Skip Pictures) : Update σ :=
  fun s => pure ((f s.pictures).map s.withPictures)

/-- One picture given to all targets, one after the other. -/
def assignAll (e : PictureEquation) (ps : Pictures) : Except Skip Pictures :=
  e.targets.foldlM
    (fun ps target =>
      if e.negated then Pictures.negateAssign ps target e.source
      else Pictures.assign ps target e.source)
    ps

/-- What a command on pictures does.  The operators that an equation leaves out
are no matter here. -/
def PictureCommand.perform (e : Engine σ) (cfg : Settings) : PictureCommand → Update σ
  | .declare names => rearrange fun ps => .ok (names.foldl Pictures.declare ps)
  | .equate eqn => rearrange (assignAll eqn)
  | .addPicture target source m reversed =>
    rearrange fun ps => Pictures.accumulate ps target source m reversed
  | .addPath target k =>
    redraw target fun o => .ok do return o ++ (← k.ink e cfg)
  | .cull name range weight => redraw name (range.cull e cfg weight)

end FontTrace
