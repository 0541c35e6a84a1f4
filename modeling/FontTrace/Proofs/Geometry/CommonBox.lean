import FontTrace.Engine.Recording
import FontTrace.Proofs.Number.Comparison

/-!
# FontTrace.Proofs.Geometry.CommonBox

The part that the boxes of several contours share.

* `ordered_commonBox` — its sides are in order, whatever the coordinates are;
* `box?_rectangle` — a rectangle whose sides are apart has itself as its box;
* `commonBox?_concat` — one more contour cuts the part down, whichever contours it is shared by;
* `boxIntersection_of_sharesArea` — the engine of boxes keeps the part if it has an area, and
  the part can be read off what it keeps.
-/

namespace FontTrace

/-! ## sides in order -/

namespace Box

/-- No side lies beyond its opposite. -/
def Ordered (b : Box) : Prop := ¬ b.x1 < b.x0 ∧ ¬ b.y1 < b.y0

theorem not_upper_lt_lower {x y : Float} (h : ¬ y < x) (z : Float) :
    ¬ upper y z < lower x z := by
  rcases upper_cases y z with hupper | ⟨hupper, hyz⟩ <;>
    rcases lower_cases x z with hlower | ⟨hlower, hzx⟩ <;> rw [hupper, hlower]
  · exact lt_irrefl z
  · exact hzx
  · exact hyz
  · exact h

theorem not_upper_lt (x y : Float) : ¬ upper x y < y := by
  rcases upper_cases x y with hupper | ⟨hupper, hxy⟩ <;> rw [hupper]
  · exact lt_irrefl y
  · exact hxy

theorem ordered_including {b : Box} (h : b.Ordered) (p : Point) : (b.including p).Ordered :=
  ⟨not_upper_lt_lower h.1 p.x, not_upper_lt_lower h.2 p.y⟩

theorem ordered_around {ps : List Point} {b : Box} (h : around? ps = some b) : b.Ordered := by
  cases ps with
  | nil => cases h
  | cons p ps =>
      obtain rfl := Option.some.inj h
      have hpoint : (ofPoint p).Ordered := ⟨lt_irrefl _, lt_irrefl _⟩
      exact List.foldlRecOn ps including hpoint fun _ hb p _ => ordered_including hb p

theorem ordered_intersection (b c : Box) : (b.intersection c).Ordered :=
  ⟨not_upper_lt _ _, not_upper_lt _ _⟩

theorem ordered_reduce? {bs : List Box} (hbs : ∀ b ∈ bs, b.Ordered) {b : Box}
    (h : reduce? intersection bs = some b) : b.Ordered := by
  cases bs with
  | nil => cases h
  | cons c bs =>
      obtain rfl := Option.some.inj h
      have hfirst : c.Ordered := hbs c List.mem_cons_self
      exact List.foldlRecOn bs intersection hfirst fun b _ c _ => ordered_intersection b c

theorem reduce?_concat (join : Box → Box → Box) (bs : List Box) (c : Box) :
    reduce? join (bs ++ [c]) = some (((reduce? join bs).map (join · c)).getD c) := by
  cases bs with
  | nil => rfl
  | cons b bs => simp [reduce?, List.foldl_append]

end Box

/-- A rectangle whose sides are apart has itself as its box. -/
theorem box?_rectangle {b : Box} (hx : b.x0 < b.x1) (hy : b.y0 < b.y1) :
    (Contour.rectangle b).box? = some b := by
  simp [Contour.rectangle, Contour.polygon, Contour.box?, Box.around?, Box.including, Box.ofPoint,
    Node.on, lower_of_lt, upper_of_lt, upper_of_gt, hx, hy]

/-! ## common boxes -/

/-- What the boxes of all contours share. -/
def commonBox? (o : Outline) : Option Box :=
  Box.reduce? Box.intersection (o.filterMap Contour.box?)

/-- Whether the boxes of all contours share a rectangle with an area. -/
def sharesArea (o : Outline) : Bool := (commonBox? o).any fun b => 0 < b.area

/-- One more contour cuts down what the others share. -/
theorem commonBox?_concat (o : Outline) (c : Contour) :
    commonBox? (o ++ [c]) =
      match c.box? with
      | none => commonBox? o
      | some b => some (((commonBox? o).map (·.intersection b)).getD b) := by
  rw [commonBox?, List.filterMap_append]
  cases hc : c.box? with
  | none => simp [hc, commonBox?]
  | some b =>
      have hbox : [c].filterMap Contour.box? = [b] := by simp [hc]
      rw [hbox, Box.reduce?_concat]
      rfl

theorem ordered_commonBox {o : Outline} {b : Box} (h : commonBox? o = some b) : b.Ordered := by
  refine Box.ordered_reduce? (fun c hc => ?_) h
  obtain ⟨d, -, hd⟩ := List.mem_filterMap.mp hc
  exact Box.ordered_around hd

theorem commonBox?_singleton (c : Contour) : commonBox? [c] = c.box? := by
  rw [commonBox?]
  cases hc : c.box? with
  | none => simp [hc, Box.reduce?]
  | some b => simp [hc, Box.reduce?]

theorem boxIntersection_eq (o : Outline) : boxIntersection o =
    (((commonBox? o).filter fun b => 0 < b.area).map Contour.rectangle).toList := rfl

/-- The engine of boxes keeps what is shared, and its box with it. -/
theorem boxIntersection_of_sharesArea {o : Outline} (h : sharesArea o = true) :
    ∃ b, boxIntersection o = [.rectangle b] ∧ commonBox? o = some b ∧
      (Contour.rectangle b).box? = some b := by
  obtain ⟨b, hb, harea⟩ := (Option.any_eq_true _ _).mp h
  have hordered := ordered_commonBox hb
  have hapart := lt_of_area_pos hordered.1 hordered.2 (of_decide_eq_true harea)
  have hkept : boxIntersection o = [.rectangle b] := by
    rw [boxIntersection_eq, hb, Option.filter_some, if_pos harea]
    rfl
  exact ⟨b, hkept, hb, box?_rectangle hapart.1 hapart.2⟩

theorem boxIntersection_of_not_sharesArea {o : Outline} (h : sharesArea o = false) :
    boxIntersection o = [] := by
  cases hb : commonBox? o with
  | none => simp [boxIntersection_eq, hb]
  | some b =>
      have harea : ¬ 0 < b.area := by simpa [sharesArea, hb] using h
      simp [boxIntersection_eq, hb, harea]

end FontTrace
