import FontTrace.Engine.Basic
import FontTrace.Proofs.Geometry.Reversal
import FontTrace.Replay

/-!
# FontTrace.Proofs.Picture.Fill

The orientation of filled contours.  The compiler shows the weight of a fill
and, if it checks, the sign of the turning number; a contour has to come out the
same whichever way round its path was drawn.

* `fillInk_of_check`, `fillInk_of_unchecked` — which of the two directions is taken;
* `perform_fill` — a fill without a pen puts its contours behind those of the
  target, and does nothing else;
* `fill_orientation` — the direction of the path does not matter, and the sign of
  the weight does.
-/

namespace FontTrace

variable {σ : Type}

/-! ## the direction that is taken -/

namespace Path

/-- A path that is filled without a pen. -/
def filled (p : Path) (turning : Option Turning) (weight : Int) : Stroke :=
  ⟨p, true, .none, weight, turning⟩

/-- The path, or the path backwards. -/
def turned (p : Path) (back : Bool) : Path := if back then p.reversed else p

theorem turned_cases (p : Path) (back : Bool) :
    p.turned back = p ∨ p.turned back = p.reversed := by
  cases back with
  | true => exact .inr rfl
  | false => exact .inl rfl

theorem reversed_turned {p : Path} (h : p.ClosesLast) (back : Bool) :
    (p.turned back).reversed = p.turned (!back) := by
  cases back with
  | true => exact reversed_reversed h
  | false => rfl

theorem turned_reversed {p : Path} (h : p.ClosesLast) (back : Bool) :
    p.reversed.turned back = p.turned (!back) := by
  cases back with
  | true => exact reversed_reversed h
  | false => rfl

end Path

/-- There is no turning number that counts. -/
def Unchecked (turning : Option Turning) : Prop := ∀ t ∈ turning, t.check ≤ 0

theorem copies_zero (cfg : Settings) (p : Path) : copies cfg 0 p = [] := rfl

theorem copies_neg (cfg : Settings) (weight : Int) (p : Path) :
    copies cfg (-weight) p = copies cfg weight p := by
  rw [copies, copies, Int.natAbs_neg]

theorem copies_inj {cfg : Settings} {weight : Int} (h : weight ≠ 0) {p q : Path} :
    copies cfg weight p = copies cfg weight q ↔
      p.toContour cfg.makeLinesThreshold = q.toContour cfg.makeLinesThreshold := by
  simp [copies, List.replicate_inj, h]

/-- With a turning number, the two signs have to agree for the path to be taken backwards. -/
theorem fillInk_of_check (cfg : Settings) (p : Path) {check : Int} (h : 0 < check)
    (number weight : Int) :
    fillInk cfg (p.filled (some ⟨check, number⟩) weight) =
      copies cfg weight (p.turned (decide (0 < weight) == decide (0 < number))) := by
  rcases Int.lt_trichotomy weight 0 with hw | rfl | hw
  · have hw' : ¬ 0 < weight := Int.not_lt.mpr (Int.le_of_lt hw)
    by_cases hn : 0 < number <;>
      simp [fillInk, fillReversed?, Path.filled, Path.turned, h, hw, hw', hn]
  · by_cases hn : 0 < number <;>
      simp [fillInk, fillReversed?, Path.filled, copies_zero, h, hn]
  · have hw' : ¬ weight < 0 := Int.not_lt.mpr (Int.le_of_lt hw)
    by_cases hn : 0 < number <;>
      simp [fillInk, fillReversed?, Path.filled, Path.turned, h, hw, hw', hn]

/-- Without one, the weight says it alone. -/
theorem fillReversed?_of_unchecked {turning : Option Turning} (h : Unchecked turning)
    (weight : Int) :
    fillReversed? weight turning =
      if 0 < weight then some true else if weight < 0 then some false else none := by
  cases turning with
  | none => rfl
  | some t =>
      have ht : ¬ 0 < t.check := Int.not_lt.mpr (h t rfl)
      rw [fillReversed?, if_neg ht]

theorem fillInk_of_unchecked (cfg : Settings) (p : Path) {turning : Option Turning}
    (h : Unchecked turning) (weight : Int) :
    fillInk cfg (p.filled turning weight) =
      copies cfg weight (p.turned (decide (0 < weight))) := by
  have hback := fillReversed?_of_unchecked h weight
  rcases Int.lt_trichotomy weight 0 with hw | rfl | hw
  · have hw' : ¬ 0 < weight := Int.not_lt.mpr (Int.le_of_lt hw)
    simp [fillInk, Path.filled, Path.turned, hback, hw, hw']
  · simp [fillInk, Path.filled, copies_zero, hback]
  · simp [fillInk, Path.filled, Path.turned, hback, hw]

/-! ## the picture it is added to -/

/-- The state with contours behind those of a picture. -/
def State.addInk (s : State σ) (target : String) (p : Picture) (o : Outline) : State σ :=
  s.withPictures (Table.put s.pictures target { p with outline := p.outline ++ o })

/-- A fill without a pen changes the target alone, and asks no engine. -/
theorem perform_fill (e : Engine σ) (cfg : Settings) {s : State σ} {target : String} {p : Picture}
    (hp : Pictures.get s.pictures target = .ok p) (path : Path) (turning : Option Turning)
    (weight : Int) :
    perform e cfg (.picture (.addPath target (path.filled turning weight))) s =
      pure (s.addInk target p (fillInk cfg (path.filled turning weight)), none) := by
  have hredraw : (PictureCommand.addPath target (path.filled turning weight)).perform e cfg s =
      pure (.ok (s.addInk target p (fillInk cfg (path.filled turning weight)))) := by
    rw [PictureCommand.perform, redraw, hp]
    rfl
  show performPicture e cfg _ s = _
  unfold performPicture atomically
  rw [hredraw]
  rfl

theorem State.addInk_inj {s : State σ} {target : String} {p : Picture} {o o' : Outline} :
    s.addInk target p o = s.addInk target p o' ↔ o = o' := by
  refine ⟨fun h => ?_, fun h => h ▸ rfl⟩
  have hfind := congrArg (fun s : State σ => Table.find? s.pictures target) h
  simpa [addInk, State.withPictures] using hfind

/-! ## orientation -/

/-- A path leaves these contours: they come behind those of the target, nothing
is left out, and nothing else has changed. -/
def Leaves (e : Engine σ) (cfg : Settings) (s : State σ) (target : String) (p : Picture)
    (k : Stroke) (o : Outline) : Prop :=
  perform e cfg (.picture (.addPath target k)) s = pure (s.addInk target p o, none)

theorem leaves_filled_iff {e : Engine σ} {cfg : Settings} {s : State σ} {target : String}
    {p : Picture} (hp : Pictures.get s.pictures target = .ok p) {path : Path}
    {turning : Option Turning} {weight : Int} {o : Outline} :
    Leaves e cfg s target p (path.filled turning weight) o ↔
      o = fillInk cfg (path.filled turning weight) := by
  rw [Leaves, perform_fill e cfg hp]
  constructor
  · intro h
    exact (State.addInk_inj.mp (congrArg (fun x => x.value.1) h)).symm
  · rintro rfl
    rfl

/-- What the contours of a filled path have to do with the direction in which it
was drawn, with the turning number that is shown and with the weight. -/
structure FillOrientation (e : Engine σ) (cfg : Settings) (s : State σ) (target : String)
    (p : Picture) (path : Path) (check number weight : Int) : Prop where
  /-- Whatever is shown, the contour of the path, or of the path backwards, is left as
  often as the weight says. -/
  copies : ∀ turning, ∃ q, (q = path ∨ q = path.reversed) ∧
    Leaves e cfg s target p (path.filled turning weight)
      (List.replicate weight.natAbs (q.toContour cfg.makeLinesThreshold))
  /-- No other picture has changed. -/
  elsewhere : ∀ o other, other ≠ target →
    Pictures.get (s.addInk target p o).pictures other = Pictures.get s.pictures other
  /-- The path drawn the other way round turns the other way round, and leaves the same. -/
  backwards : ∀ o,
    Leaves e cfg s target p (path.filled (some ⟨check, number⟩) weight) o ↔
      Leaves e cfg s target p (path.reversed.filled (some ⟨check, -number⟩) weight) o
  /-- The opposite weight leaves the contours the other way round. -/
  opposite : weight ≠ 0 → ∀ q, q = path ∨ q = path.reversed →
    Leaves e cfg s target p (path.filled (some ⟨check, number⟩) weight)
      (FontTrace.copies cfg weight q) →
    Leaves e cfg s target p (path.filled (some ⟨check, number⟩) (-weight))
      (FontTrace.copies cfg weight q.reversed)
  /-- Without a turning number that counts, positive weights alone turn the path round. -/
  unchecked : ∀ turning, Unchecked turning →
    (fillReversed? weight turning = some true ↔ 0 < weight) ∧
      Leaves e cfg s target p (path.filled turning weight)
        (FontTrace.copies cfg weight (if 0 < weight then path.reversed else path))

theorem decide_pos_neg {n : Int} (h : n ≠ 0) : decide (0 < -n) = !decide (0 < n) := by
  rw [← decide_not, decide_eq_decide]
  omega

theorem exists_fillInk (cfg : Settings) (path : Path) (turning : Option Turning) (weight : Int) :
    ∃ back, fillInk cfg (path.filled turning weight) = copies cfg weight (path.turned back) := by
  by_cases h : Unchecked turning
  · exact ⟨_, fillInk_of_unchecked cfg path h weight⟩
  · obtain ⟨⟨check, number⟩, rfl, hcheck⟩ : ∃ t ∈ turning, ¬ t.check ≤ 0 := by
      simpa [Unchecked] using h
    exact ⟨_, fillInk_of_check cfg path (Int.not_le.mp hcheck) number weight⟩

theorem fillInk_reversed (cfg : Settings) {path : Path} (h : path.ClosesLast) {check : Int}
    (hcheck : 0 < check) {number : Int} (hnumber : number ≠ 0) (weight : Int) :
    fillInk cfg (path.reversed.filled (some ⟨check, -number⟩) weight) =
      fillInk cfg (path.filled (some ⟨check, number⟩) weight) := by
  rw [fillInk_of_check cfg _ hcheck, fillInk_of_check cfg _ hcheck, Path.turned_reversed h,
    decide_pos_neg hnumber]
  cases decide (0 < weight) <;> cases decide (0 < number) <;> rfl

theorem fillInk_neg (cfg : Settings) {path : Path} (h : path.ClosesLast) {check : Int}
    (hcheck : 0 < check) (number : Int) {weight : Int} (hweight : weight ≠ 0) {q : Path}
    (hq : q = path ∨ q = path.reversed)
    (hink : copies cfg weight q = fillInk cfg (path.filled (some ⟨check, number⟩) weight)) :
    copies cfg weight q.reversed = fillInk cfg (path.filled (some ⟨check, number⟩) (-weight)) := by
  obtain ⟨back, rfl⟩ : ∃ back, q = path.turned back := by
    rcases hq with rfl | rfl
    · exact ⟨false, rfl⟩
    · exact ⟨true, rfl⟩
  rw [fillInk_of_check cfg _ hcheck, copies_inj hweight] at hink
  rw [fillInk_of_check cfg _ hcheck, copies_neg, copies_inj hweight, Path.reversed_turned h,
    decide_pos_neg hweight]
  -- `back` is the direction that was taken, or both draw the same contour
  cases back <;> cases hw : decide (0 < weight) <;> cases hn : decide (0 < number) <;>
    rw [hw, hn] at hink <;> first | rfl | exact hink.symm

/-- Every path that the compiler shows, filled without a pen in a picture that is there. -/
theorem fill_orientation (e : Engine σ) (cfg : Settings) {s : State σ} {target text : String}
    {p : Picture} {path : Path} (hp : Pictures.get s.pictures target = .ok p)
    (hpath : Operand.path text = .ok path) {check number : Int} (hcheck : 0 < check)
    (hnumber : number ≠ 0) (weight : Int) :
    FillOrientation e cfg s target p path check number weight where
  copies turning := by
    obtain ⟨back, hback⟩ := exists_fillInk cfg path turning weight
    exact ⟨path.turned back, path.turned_cases back, (leaves_filled_iff hp).mpr hback.symm⟩
  elsewhere o other h := by
    rw [State.addInk, State.withPictures, Pictures.get_put, if_neg h.symm]
  backwards o := by
    rw [leaves_filled_iff hp, leaves_filled_iff hp,
      fillInk_reversed cfg (Operand.closesLast_of_path hpath) hcheck hnumber]
  opposite hweight q hq h := by
    rw [leaves_filled_iff hp] at h ⊢
    exact fillInk_neg cfg (Operand.closesLast_of_path hpath) hcheck number hweight hq h
  unchecked turning h := by
    rw [leaves_filled_iff hp, fillInk_of_unchecked cfg path h, fillReversed?_of_unchecked h,
      Path.turned]
    by_cases hw : 0 < weight
    · simp [hw]
    · simp only [hw, if_false, decide_false, Bool.false_eq_true, iff_false, and_true]
      split <;> simp

/-- A triangle of weight two. -/
theorem fill_orientation_of_triangle :
    let text := "(0,0)..controls (1,0) and (2,0) ..(3,0)..controls (3,1) and (3,2) " ++
      "..(3,3)..controls (2,2) and (1,1) ..cycle"
    let triangle : Path := ⟨⟨0, 0⟩, [⟨⟨1, 0⟩, ⟨2, 0⟩, some ⟨3, 0⟩⟩,
      ⟨⟨3, 1⟩, ⟨3, 2⟩, some ⟨3, 3⟩⟩, ⟨⟨2, 2⟩, ⟨1, 1⟩, none⟩]⟩
    let s := (State.initial () {} .unicode).withPictures [("p", {})]
    Operand.path text = .ok triangle ∧
      FillOrientation Engine.basic {} s "p" {} triangle 1 1 2 := by
  intro text triangle s
  have hpath : Operand.path text = .ok triangle := by
    have hread : Operand.path? text.toList = some triangle := by decide +kernel
    rw [Operand.path, hread]
  exact ⟨hpath, fill_orientation Engine.basic {} rfl hpath (by decide) (by decide) 2⟩

end FontTrace
