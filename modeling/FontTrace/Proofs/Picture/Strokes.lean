import FontTrace.Engine.Recording
import FontTrace.Proofs.Picture.Culling
import FontTrace.Proofs.Picture.Fill

/-!
# FontTrace.Proofs.Picture.Strokes

Strokes and the sign of their weight.  A pen makes as many copies of a path as the weight says,
its sign left aside, and the directions of the ink are corrected: a stroke of the opposite weight
is the same stroke, for every engine.

* `ink_neg` — the ink of a pen does not depend on the sign;
* `draws_iff` — a stroke puts its ink behind the contours of the target, and changes nothing else
  but the engine;
* `isQuad_drawWith` — with the engine of boxes, all ink of a pen that it takes are polygons of
  four corners;
* `stroke_reversed_iff` — so the opposite weight reverses the ink only if every contour of it is
  its own reverse.
-/

namespace FontTrace

variable {σ : Type} {e : Engine σ} {cfg : Settings}

/-! ## the sign of a weight -/

theorem ink_of_pen (path : Path) (filled : Bool) {pen : Pen} (hpen : pen ≠ .none) (weight : Int)
    (turning : Option Turning) :
    Stroke.ink e cfg ⟨path, filled, pen, weight, turning⟩ =
      drawWith e cfg pen filled (copies cfg weight (path.turned filled)) := by
  cases filled <;> cases pen <;> first | exact absurd rfl hpen | rfl

/-- With a pen, a weight counts the copies and no more. -/
theorem ink_neg (path : Path) (filled : Bool) {pen : Pen} (hpen : pen ≠ .none) (weight : Int)
    (turning : Option Turning) :
    Stroke.ink e cfg ⟨path, filled, pen, -weight, turning⟩ =
      Stroke.ink e cfg ⟨path, filled, pen, weight, turning⟩ := by
  rw [ink_of_pen path filled hpen, ink_of_pen path filled hpen, copies_neg]

/-! ## the picture a stroke is added to -/

/-- A path leaves these contours and this state of the engine, and reports this: the contours come
behind those of the target, nothing is left out, and nothing else has changed. -/
def Draws (e : Engine σ) (cfg : Settings) (s : State σ) (target : String) (p : Picture)
    (k : Stroke) (o : Outline) (t : σ) (notices : List Notice) : Prop :=
  perform e cfg (.picture (.addPath target k)) s =
    ⟨({ s.addInk target p o with engine := t }, none), notices⟩

section Target

variable {s : State σ} {target : String} {p : Picture} {k : Stroke}

theorem draws_ink (hp : Pictures.get s.pictures target = .ok p) (k : Stroke) :
    Draws e cfg s target p k (k.ink e cfg s.engine).value.1 (k.ink e cfg s.engine).value.2
      (k.ink e cfg s.engine).notices := by
  have hredraw : (PictureCommand.addPath target k).perform e cfg s =
      ⟨.ok { s.addInk target p (k.ink e cfg s.engine).value.1 with
        engine := (k.ink e cfg s.engine).value.2 }, (k.ink e cfg s.engine).notices⟩ := by
    rw [PictureCommand.perform, redraw, hp]
    exact Noted.ext rfl ((List.append_nil _).trans (List.append_nil _))
  show performPicture e cfg _ s = _
  unfold performPicture atomically
  rw [hredraw]
  exact Noted.ext rfl ((List.append_nil _).trans (List.append_nil _))

theorem draws_iff (hp : Pictures.get s.pictures target = .ok p) {o : Outline} {t : σ}
    {notices : List Notice} :
    Draws e cfg s target p k o t notices ↔ k.ink e cfg s.engine = ⟨(o, t), notices⟩ := by
  constructor
  · intro h
    have hdrawn := (draws_ink hp k).symm.trans h
    have hstate := congrArg (fun x => x.value.1) hdrawn
    have hfind := congrArg (fun s : State σ => Table.find? s.pictures target) hstate
    have hink : (k.ink e cfg s.engine).value.1 = o := by
      simpa [State.addInk, State.withPictures] using hfind
    have hengine : (k.ink e cfg s.engine).value.2 = t := congrArg State.engine hstate
    have hnotices : (k.ink e cfg s.engine).notices = notices := congrArg (·.notices) hdrawn
    exact Noted.ext (Prod.ext hink hengine) hnotices
  · intro h
    have hdrawn : Draws e cfg s target p k _ _ _ := draws_ink hp k
    rwa [h] at hdrawn

end Target

/-! ## polygons of four corners -/

namespace Contour

/-- A closed polygon of four corners. -/
def IsQuad (c : Contour) : Prop := ∃ z₁ z₂ z₃ z₄, c = polygon [z₁, z₂, z₃, z₄]

theorem isQuad_rectangle (b : Box) : (rectangle b).IsQuad := ⟨_, _, _, _, rfl⟩

theorem IsQuad.transform {c : Contour} (h : c.IsQuad) (m : Affine) : (c.transform m).IsQuad := by
  obtain ⟨z₁, z₂, z₃, z₄, rfl⟩ := h
  exact ⟨m.apply z₁, m.apply z₂, m.apply z₃, m.apply z₄, rfl⟩

theorem IsQuad.reversed {c : Contour} (h : c.IsQuad) : c.reversed.IsQuad := by
  obtain ⟨z₁, z₂, z₃, z₄, rfl⟩ := h
  exact ⟨z₁, z₄, z₃, z₂, rfl⟩

/-- The second and the last corner change places. -/
theorem reversed_quad_eq_iff {z₁ z₂ z₃ z₄ : Point} :
    (polygon [z₁, z₂, z₃, z₄]).reversed = polygon [z₁, z₂, z₃, z₄] ↔ z₂ = z₄ := by
  have hback : (polygon [z₁, z₂, z₃, z₄]).reversed = polygon [z₁, z₄, z₃, z₂] := rfl
  rw [hback]
  constructor
  · intro h
    have hcorners : z₄ = z₂ ∧ z₂ = z₄ := by simpa [polygon, Node.on] using h
    exact hcorners.2
  · rintro rfl
    rfl

end Contour

/-! ## what the engine makes of contours -/

section Operations

variable {P Q : Contour → Prop} {o : Outline}

theorem forall_transform (h : ∀ m c, P c → P (c.transform m)) (ho : ∀ c ∈ o, P c) (m : Affine) :
    ∀ c ∈ o.transform m, P c := by
  intro d hd
  obtain ⟨c, hc, rfl⟩ := List.mem_map.mp hd
  exact h m c (ho c hc)

theorem forall_scaled {op : Outline → StateM σ Outline} (hP : ∀ m c, P c → P (c.transform m))
    (hQ : ∀ m c, Q c → Q (c.transform m))
    (hop : ∀ o t, (∀ c ∈ o, P c) → ∀ c ∈ (op o t).1, Q c) (factor : Float) (ho : ∀ c ∈ o, P c)
    (t : σ) : ∀ c ∈ (scaled factor op o t).1, Q c := by
  unfold scaled
  split
  · exact hop o t ho
  · exact forall_transform hQ (hop _ t (forall_transform hP ho _)) _

/-- Contours are turned round or stay as they are. -/
theorem forall_orientByNesting (h : ∀ c, P c → P c.reversed) (ho : ∀ c ∈ o, P c) :
    ∀ c ∈ orientByNesting o, P c := by
  intro d hd
  obtain ⟨⟨c, i⟩, hc, rfl⟩ := List.mem_map.mp hd
  have hmem : P c := ho c (List.fst_mem_of_mem_zipIdx hc)
  show P (orientAt o c i)
  unfold orientAt
  split
  · exact hmem
  · split
    · exact h c hmem
    · exact hmem

/-- Of closed contours, the rectangle around them is left. -/
theorem isQuad_boxUnion (h : ∀ c ∈ o, c.closed = true) : ∀ c ∈ boxUnion o, c.IsQuad := by
  intro c hc
  have hopen : o.filter (not ∘ Contour.closed) = [] := by
    rw [List.filter_eq_nil_iff]
    intro d hd
    simp [h d hd]
  rw [boxUnion, List.partition_eq_filter_filter, hopen] at hc
  obtain hc | hc := List.mem_append.mp hc
  · obtain ⟨b, -, rfl⟩ := Option.map_eq_some_iff.mp (Option.mem_toList.mp hc)
    exact Contour.isQuad_rectangle b
  · cases hc

theorem isQuad_grownBox {dx dy : Float} : ∀ c ∈ grownBox o dx dy, c.IsQuad := by
  intro c hc
  obtain ⟨b, -, rfl⟩ := Option.map_eq_some_iff.mp (Option.mem_toList.mp hc)
  exact Contour.isQuad_rectangle _

end Operations

/-! ## ink -/

/-- Whatever the state, all contours that are computed have a property. -/
def Yields (x : StateT σ Noted Outline) (P : Contour → Prop) : Prop := ∀ t, ∀ c ∈ (x t).value.1, P c

section Ink

variable {P : Contour → Prop} {o : Outline}

/-- What is computed for one contour after the other comes one behind the other. -/
theorem yields_foldlM {f : Contour → StateT σ Noted Outline} (h : ∀ c, Yields (f c) P)
    (o ink : Outline) (hink : ∀ c ∈ ink, P c) :
    Yields (o.foldlM (fun ink c => do return ink ++ (← f c)) ink) P := by
  induction o generalizing ink with
  | nil => exact fun _ => hink
  | cons c o ih =>
      intro t
      rw [List.foldlM_cons]
      refine ih _ ?_ _
      intro d hd
      obtain hd | hd := List.mem_append.mp hd
      · exact hink d hd
      · exact h c t d hd

theorem yields_correctDirection (hback : ∀ c, P c → P c.reversed)
    (hmap : ∀ m c, P c → P (c.transform m)) (ho : ∀ c ∈ o, P c) (factor : Float) :
    Yields (correctDirectionScaled Engine.recording factor o) P := fun t =>
  forall_scaled hmap hmap (fun _ _ hall => forall_orientByNesting hback hall) factor ho t

/-! ### razors -/

theorem closed_bands (half : Float) (c : Contour) : ∀ b ∈ bands half c, b.closed = true := by
  intro b hb
  obtain ⟨i, -, hi⟩ := List.mem_filterMap.mp hb
  obtain ⟨j, -, rfl⟩ := Option.map_eq_some_iff.mp hi
  unfold band
  simp only
  split
  · rfl
  · rw [Contour.closed_reversed]

theorem closed_transform (m : Affine) (c : Contour) (h : c.closed = true) :
    (c.transform m).closed = true := h

/-- The bands of a contour are closed, so their union is a rectangle. -/
theorem yields_razorInk (cfg : Settings) (width : Float) (c : Contour) :
    Yields (razorInk Engine.recording cfg width c) Contour.IsQuad := by
  intro t
  have hclosed := closed_bands (width / 2) (addExtremaTo c)
  exact forall_scaled closed_transform (fun m _ h => h.transform m) (fun _ _ => isQuad_boxUnion)
    cfg.geometry.removeOverlapScale hclosed _

theorem yields_strokeRazor (cfg : Settings) (width angle : Float) (o : Outline) :
    Yields (strokeRazor Engine.recording cfg width angle o) Contour.IsQuad := by
  intro t
  have hink := yields_foldlM
    (fun c => yields_razorInk cfg width (c.transform (Affine.rotation (-angle)))) o [] (by simp) t
  exact forall_transform (fun m _ h => h.transform m) hink (Affine.rotation angle)

/-! ### polygons -/

theorem strokeConvex_of_failing {log : CallLog} (h : 0 < log.failing) (o : Outline) (nib : Contour)
    (opts : StrokeOptions) :
    Engine.recording.strokeConvex o nib opts log = (.error (.rejected "pen is not convex"),
      { log.add .strokeConvex with failing := log.failing - 1 }) :=
  if_pos h

theorem exists_strokeConvex {log : CallLog} (h : log.failing = 0) (o : Outline) (nib : Contour)
    (opts : StrokeOptions) : ∃ dx dy, Engine.recording.strokeConvex o nib opts log =
      (.ok (grownBox o dx dy), log.add .strokeConvex) :=
  ⟨_, _, if_neg (show ¬0 < log.failing by omega)⟩

theorem silently_bind {α β : Type} (f : StateM σ α) (g : α → StateT σ Noted β) (t : σ) :
    (silently f >>= g) t = g (f t).1 (f t).2 :=
  Noted.ext rfl (List.nil_append _)

theorem strokePolygon_of_ok {boundary : Contour} {opts : StrokeOptions} {ink : Outline} {t t' : σ}
    (h : e.strokeConvex o boundary opts t = (.ok ink, t')) :
    strokePolygon e boundary opts o t = pure (ink, t') := by
  unfold strokePolygon
  rw [silently_bind, h]
  rfl

/-- Refused once, a pen is tried the other way round. -/
theorem strokePolygon_of_error {boundary : Contour} {opts : StrokeOptions} {err : EngineError}
    {ink : Outline} {t t' t'' : σ} (h : e.strokeConvex o boundary opts t = (.error err, t'))
    (h' : e.strokeConvex o boundary.reversed opts t' = (.ok ink, t'')) :
    strokePolygon e boundary opts o t = pure (ink, t'') := by
  unfold strokePolygon
  rw [silently_bind, h]
  show (silently (e.strokeConvex o boundary.reversed opts) >>= _) t' = _
  rw [silently_bind, h']
  rfl

/-- How many convex strokes are still to fail does not matter before the second one. -/
def Takes (pen : Pen) (log : CallLog) : Prop :=
  ∀ boundary, pen = .polygon boundary → log.failing ≤ 1

theorem isQuad_strokePolygon (boundary : Contour) (opts : StrokeOptions) (o : Outline)
    {log : CallLog} (h : log.failing ≤ 1) :
    ∀ c ∈ (strokePolygon Engine.recording boundary opts o log).value.1, c.IsQuad := by
  rcases Nat.eq_zero_or_pos log.failing with hzero | hpos
  · obtain ⟨dx, dy, hstroke⟩ := exists_strokeConvex hzero o boundary opts
    rw [strokePolygon_of_ok hstroke]
    exact isQuad_grownBox
  · have herror := strokeConvex_of_failing hpos o boundary opts
    let refused : CallLog := { log.add .strokeConvex with failing := log.failing - 1 }
    have hlast : refused.failing = 0 := by
      show log.failing - 1 = 0
      omega
    obtain ⟨dx, dy, hstroke⟩ := exists_strokeConvex hlast o boundary.reversed opts
    rw [strokePolygon_of_error herror hstroke]
    exact isQuad_grownBox

theorem isQuad_drawWith (cfg : Settings) {pen : Pen} (hpen : pen ≠ .none) (filled : Bool)
    (o : Outline) {log : CallLog} (h : Takes pen log) :
    ∀ c ∈ (drawWith Engine.recording cfg pen filled o log).value.1, c.IsQuad := by
  have hcorrect {ink : Outline} (hink : ∀ c ∈ ink, c.IsQuad) (log' : CallLog) :=
    yields_correctDirection (fun _ h => h.reversed) (fun m _ h => h.transform m) hink
      cfg.geometry.correctDirectionScale log'
  cases pen with
  | none => exact absurd rfl hpen
  | elliptical nib => exact hcorrect isQuad_grownBox _
  | razor width angle => exact hcorrect (yields_strokeRazor cfg width angle o log) _
  | polygon boundary => exact hcorrect (isQuad_strokePolygon boundary _ o (h boundary rfl)) _

end Ink

/-! ## opposite weights -/

/-- What a stroke with a pen leaves, and the stroke of the opposite weight. -/
structure StrokesAlike (cfg : Settings) (s : State CallLog) (target : String) (p : Picture)
    (k : Int → Stroke) (pen : Pen) (weight : Int) (o : Outline) (t : CallLog)
    (notices : List Notice) : Prop where
  drawn : Draws Engine.recording cfg s target p (k weight) o t notices
  /-- Both leave the same, with the same calls and reports. -/
  opposite : Draws Engine.recording cfg s target p (k (-weight)) o t notices
  /-- So the opposite weight reverses the contours if and only if none of them changes by that. -/
  reversed_iff : (∃ t' notices',
    Draws Engine.recording cfg s target p (k (-weight)) o.reversed t' notices') ↔
      ∀ c ∈ o, c.reversed = c
  /-- If the pen is taken, each is a polygon of four corners, which changes unless two of them are
  in one place. -/
  corners : Takes pen s.engine → ∀ c ∈ o, ∃ z₁ z₂ z₃ z₄,
    c = .polygon [z₁, z₂, z₃, z₄] ∧ (c.reversed = c ↔ z₂ = z₄)

theorem Outline.reversed_eq_self_iff {o : Outline} : o.reversed = o ↔ ∀ c ∈ o, c.reversed = c := by
  have hid : o.reversed = o ↔ o.map Contour.reversed = o.map id := by
    rw [List.map_id]
    rfl
  rw [hid, List.map_inj_left]
  rfl

/-- Every path, filled or only drawn, with every pen but the empty one, in a picture that is
there, whatever the state of the engine. -/
theorem stroke_reversed_iff (cfg : Settings) {s : State CallLog} {target : String} {p : Picture}
    (hp : Pictures.get s.pictures target = .ok p) (path : Path) (filled : Bool) {pen : Pen}
    (hpen : pen ≠ .none) (turning : Option Turning) (weight : Int) :
    ∃ o t notices, StrokesAlike cfg s target p (fun w => ⟨path, filled, pen, w, turning⟩) pen weight
      o t notices := by
  let k (w : Int) : Stroke := ⟨path, filled, pen, w, turning⟩
  let ink := (k weight).ink Engine.recording cfg s.engine
  have hopposite : (k (-weight)).ink Engine.recording cfg s.engine = ink :=
    congrFun (ink_neg path filled hpen weight turning) s.engine
  refine ⟨ink.value.1, ink.value.2, ink.notices, (draws_iff hp).mpr rfl,
    (draws_iff hp).mpr hopposite, ?_, fun htakes c hc => ?_⟩
  · rw [← Outline.reversed_eq_self_iff]
    constructor
    · rintro ⟨t', notices', hdrawn⟩
      have hink := hopposite.symm.trans ((draws_iff hp).mp hdrawn)
      exact (congrArg (·.value.1) hink).symm
    · intro hsame
      rw [hsame]
      exact ⟨ink.value.2, ink.notices, (draws_iff hp).mpr hopposite⟩
  · have hquad : c.IsQuad := by
      refine isQuad_drawWith cfg hpen filled (copies cfg weight (path.turned filled)) htakes c ?_
      rwa [← ink_of_pen path filled hpen weight turning]
    obtain ⟨z₁, z₂, z₃, z₄, rfl⟩ := hquad
    exact ⟨z₁, z₂, z₃, z₄, rfl, Contour.reversed_quad_eq_iff⟩

/-- A point drawn with a square pen: both weights leave the square. -/
theorem stroke_reversed_iff_of_point :
    let s := (State.initial {} {} .unicode).withPictures [("p", {})]
    let pen : Pen := .polygon (Contour.polygon [⟨-1, -1⟩, ⟨1, -1⟩, ⟨1, 1⟩, ⟨-1, 1⟩]).reversed
    Takes pen s.engine ∧ ∃ o t notices, StrokesAlike {} s "p" {}
      (fun w => ⟨⟨⟨0, 0⟩, []⟩, false, pen, w, none⟩) pen 1 o t notices := by
  intro s pen
  have hpen : pen ≠ .none := by simp [pen]
  refine ⟨fun _ _ => Nat.zero_le 1, ?_⟩
  exact stroke_reversed_iff {} (s := s) rfl ⟨⟨0, 0⟩, []⟩ false hpen none 1

/-- A line drawn with a square pen: the opposite weight leaves the same rectangle, clockwise, and
so does not take away what the weight leaves. -/
theorem stroke_of_opposite_weight :
    let s := (State.initial {} {} .unicode).withPictures [("p", {})]
    let path : Path := ⟨⟨0, 0⟩, [⟨⟨0, 0⟩, ⟨10, 0⟩, some ⟨10, 0⟩⟩]⟩
    let pen : Pen := .polygon (Contour.polygon [⟨-1, -1⟩, ⟨1, -1⟩, ⟨1, 1⟩, ⟨-1, 1⟩]).reversed
    let c : Contour := .rectangle ⟨-1, -1, 11, 1⟩
    Operand.path "(0,0)..controls (0,0) and (10,0) ..(10,0)" = .ok path ∧
    (∀ w ∈ [1, -1], Draws Engine.recording {} s "p" {} ⟨path, false, pen, w, none⟩ [c]
      ⟨[.strokeConvex, .correctDirection], 0⟩ []) ∧
    c.isClockwise = true ∧ Outline.reversed [c] ≠ [c] := by
  intro s path pen c
  refine ⟨path_of_path? (by decide +kernel), fun w hw => (draws_iff rfl).mpr ?_,
    by decide +kernel, by decide +kernel⟩
  revert w
  decide +kernel

end FontTrace
