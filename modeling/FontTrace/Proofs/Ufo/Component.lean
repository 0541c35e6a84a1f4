import FontTrace.Command.Edit
import FontTrace.Proofs.Number.Exact
import FontTrace.Ufo
import Mathlib.Tactic.Linarith
import Mathlib.Tactic.Ring

/-!
# FontTrace.Proofs.Ufo.Component

References as components: what a transformation that the compiler shows does to points,
and what the component does that is made of it.  Points and coefficients are exact here.

* `readTransform_iff` — the texts that are read, and the order of their numbers;
* `image_component` — a component has the two mixed coefficients exchanged;
* `component_keeps_geometry_iff` — it moves points to the same places if and only if
  these are equal.
-/

namespace FontTrace

/-! ## transformations that the compiler shows -/

namespace Transform

variable {α β : Type}

/-- The coefficients in the order in which they are shown. -/
def shown (t : Transform α) : List α := [t.tx, t.ty, t.xx, t.xy, t.yx, t.yy]

/-- The transformation with other coefficients. -/
def map (f : α → β) (t : Transform α) : Transform β :=
  ⟨f t.xx, f t.xy, f t.yx, f t.yy, f t.tx, f t.ty⟩

/-- The image of a point. -/
def apply [Add α] [Mul α] (t : Transform α) (p : α × α) : α × α :=
  (t.tx + t.xx * p.1 + t.xy * p.2, t.ty + t.yx * p.1 + t.yy * p.2)

/-- The image of a point under the exact transformation. -/
def image (t : Transform Float) (p : ℚ × ℚ) : ℚ × ℚ := (t.map exactValue).apply p

end Transform

/-- A text shows a transformation: six numbers in parentheses, with commas between them. -/
def ShowsTransform (text : String) (t : Transform Float) : Prop :=
  ∃ fields : List (List Char), (∀ field ∈ fields, ',' ∉ field) ∧
    trimBlanks text.toList = '(' :: ([','].intercalate fields ++ [')']) ∧
    fields.map Operand.number? = t.shown.map some

theorem number_eq_ok_iff {text : List Char} {x : Float} :
    Operand.number (String.ofList text) = .ok x ↔ Operand.number? text = some x := by
  rw [Operand.number, String.toList_ofList]
  cases Operand.number? text <;> simp

/-- A list of texts is read if and only if each of them is. -/
theorem mapM_number_eq_ok_iff {texts : List (List Char)} {xs : List Float} :
    texts.mapM (fun t => Operand.number (String.ofList t)) = .ok xs ↔
      texts.map Operand.number? = xs.map some := by
  induction texts generalizing xs with
  | nil => cases xs <;> simp [pure, Except.pure]
  | cons text texts ih =>
      rw [List.mapM_cons, List.map_cons]
      constructor
      · intro h
        cases hx : Operand.number (String.ofList text) with
        | error cause => simp [hx, bind, Except.bind] at h
        | ok x =>
            cases hrest : texts.mapM fun t => Operand.number (String.ofList t) with
            | error cause => simp [hx, hrest, bind, Except.bind] at h
            | ok rest =>
                have hxs : x :: rest = xs := by
                  simpa [hx, hrest, bind, Except.bind, pure, Except.pure] using h
                rw [← hxs, List.map_cons, number_eq_ok_iff.mp hx, ih.mp hrest]
      · intro h
        cases xs with
        | nil => simp at h
        | cons x rest =>
            obtain ⟨hx, hrest⟩ := List.cons.inj h
            rw [number_eq_ok_iff.mpr hx, ih.mpr hrest]
            rfl

/-- What follows the parenthesis in front of a text that is closed by one. -/
theorem strip_parenthesis_iff {text rest : List Char} :
    (strip ['('] text).filter (·.getLast? == some ')') = some rest ↔
      ∃ inner, rest = inner ++ [')'] ∧ text = '(' :: rest := by
  rw [Option.filter_eq_some_iff, strip_eq_some_iff, beq_iff_eq, List.getLast?_eq_some_iff]
  constructor
  · intro ⟨htext, inner, hrest⟩
    exact ⟨inner, hrest, htext⟩
  · intro ⟨inner, hrest, htext⟩
    exact ⟨htext, inner, hrest⟩

/-- The texts that are read as transformations are those that show one. -/
theorem readTransform_iff {text : String} {t : Transform Float} :
    GlyphEdit.readTransform text = .ok t ↔ ShowsTransform text t := by
  unfold GlyphEdit.readTransform
  constructor
  · intro h
    split at h
    · cases h
    · next cs hcs =>
      obtain ⟨inner, rfl, htext⟩ := strip_parenthesis_iff.mp hcs
      rw [List.dropLast_concat] at h
      cases hnumbers : (piecesBetween ',' inner).mapM
          fun t => Operand.number (String.ofList t) with
      | error cause => simp [hnumbers, bind, Except.bind] at h
      | ok xs =>
          refine ⟨piecesBetween ',' inner, fun _ => not_mem_of_mem_piecesBetween, ?_, ?_⟩
          · rw [intercalate_piecesBetween, htext]
          · rw [mapM_number_eq_ok_iff.mp hnumbers]
            rw [hnumbers] at h
            rcases xs with _ | ⟨tx, _ | ⟨ty, _ | ⟨xx, _ | ⟨xy, _ | ⟨yx, _ | ⟨yy, _ | ⟨_, _⟩⟩⟩⟩⟩⟩⟩ <;>
              simp [bind, Except.bind, pure, Except.pure] at h
            subst h
            rfl
  · intro ⟨fields, hcommas, htext, hfields⟩
    have hstrip : (strip ['('] (trimBlanks text.toList)).filter (·.getLast? == some ')') =
        some ([','].intercalate fields ++ [')']) := strip_parenthesis_iff.mpr ⟨_, rfl, htext⟩
    have hpieces : piecesBetween ',' ([','].intercalate fields) = fields := by
      cases fields with
      | nil => simp [Transform.shown] at hfields
      | cons first others => exact piecesBetween_intercalate hcommas
    rw [hstrip]
    dsimp only
    rw [List.dropLast_concat, hpieces, mapM_number_eq_ok_iff.mpr hfields]
    rfl

/-- Every coefficient that is read has a value. -/
theorem ofFloat?_isSome_of_shows {text : String} {t : Transform Float}
    (h : ShowsTransform text t) : ∀ x ∈ t.shown, (BinaryFraction.ofFloat? x).isSome = true := by
  intro x hx
  obtain ⟨fields, -, -, hfields⟩ := h
  have hmem : some x ∈ fields.map Operand.number? := by
    rw [hfields]
    exact List.mem_map_of_mem hx
  obtain ⟨field, -, hnumber⟩ := List.mem_map.mp hmem
  rw [ofFloat?_isSome_iff]
  exact (Option.filter_eq_some_iff.mp hnumber).2

/-! ## components -/

namespace Ufo

/-- The transformation with other coefficients. -/
def ComponentTransform.map {α β : Type} (f : α → β) (t : ComponentTransform α) :
    ComponentTransform β :=
  ⟨f t.xScale, f t.xyScale, f t.yxScale, f t.yScale, f t.xOffset, f t.yOffset⟩

/-- The image of a point under the exact transformation. -/
def Component.image (c : Component) (p : ℚ × ℚ) : ℚ × ℚ := (c.transform.map exactValue).apply p

theorem component?_of_isName {r : Reference} (h : isName r.glyph = true) :
    (component? r).value = some ⟨r.glyph, componentTransform r.transform⟩ := by
  rw [component?, if_pos h]
  rfl

/-- A component has the two mixed coefficients exchanged. -/
theorem image_component (base : String) (t : Transform Float) (p : ℚ × ℚ) :
    Component.image ⟨base, componentTransform t⟩ p =
      (exactValue t.tx + exactValue t.xx * p.1 + exactValue t.yx * p.2,
        exactValue t.ty + exactValue t.xy * p.1 + exactValue t.yy * p.2) := by
  simp only [Component.image, ComponentTransform.map, componentTransform,
    ComponentTransform.apply, Prod.mk.injEq]
  constructor <;> ring

/-- A component moves a point where the transformation does if and only if the mixed
coefficients are equal or the point is the origin. -/
theorem image_component_eq_iff (base : String) (t : Transform Float) (p : ℚ × ℚ) :
    Component.image ⟨base, componentTransform t⟩ p = t.image p ↔
      exactValue t.xy = exactValue t.yx ∨ p = (0, 0) := by
  obtain ⟨x, y⟩ := p
  rw [image_component]
  simp only [Transform.image, Transform.map, Transform.apply, Prod.mk.injEq]
  generalize exactValue t.xy = xy
  generalize exactValue t.yx = yx
  constructor
  · intro ⟨hx, hy⟩
    have hx' : (xy - yx) * y = 0 := by linarith
    have hy' : (xy - yx) * x = 0 := by linarith
    rcases mul_eq_zero.mp hx' with hsame | hzero
    · exact .inl (sub_eq_zero.mp hsame)
    · rcases mul_eq_zero.mp hy' with hsame | hzero'
      · exact .inl (sub_eq_zero.mp hsame)
      · exact .inr ⟨hzero', hzero⟩
  · intro h
    rcases h with rfl | ⟨rfl, rfl⟩
    · exact ⟨rfl, rfl⟩
    · constructor <;> ring

/-- A reference with a transformation that is read has a component with the same
finite coefficients.  It moves all points where the transformation does if and only if
the two mixed coefficients are equal, and otherwise none but the origin. -/
theorem component_keeps_geometry_iff {text : String} {t : Transform Float}
    (h : GlyphEdit.readTransform text = .ok t) {glyph : String} (hglyph : isName glyph = true) :
    ShowsTransform text t ∧
    (∀ x ∈ t.shown, (BinaryFraction.ofFloat? x).isSome = true) ∧
    ∃ c, (component? ⟨glyph, t⟩).value = some c ∧ c.base = glyph ∧
      ((∀ p, c.image p = t.image p) ↔ exactValue t.xy = exactValue t.yx) ∧
      (exactValue t.xy ≠ exactValue t.yx → ∀ p, c.image p = t.image p → p = (0, 0)) := by
  have hshows := readTransform_iff.mp h
  refine ⟨hshows, ofFloat?_isSome_of_shows hshows, _, component?_of_isName hglyph, rfl, ?_, ?_⟩
  · constructor
    · intro hall
      have hone := (image_component_eq_iff glyph t (0, 1)).mp (hall (0, 1))
      simpa using hone
    · intro hsame p
      exact (image_component_eq_iff glyph t p).mpr (.inl hsame)
  · intro hne p hp
    exact ((image_component_eq_iff glyph t p).mp hp).resolve_left hne

/-- A letter that is scaled and shifted. -/
theorem component_of_scaled_letter :
    let t : Transform Float := ⟨2, 0, 0, 3, 10, 20⟩
    GlyphEdit.readTransform "(10,20,2,0,0,3)" = .ok t ∧ isName "B" = true ∧
      ∃ c, (component? ⟨"B", t⟩).value = some c ∧ ∀ p, c.image p = t.image p := by
  intro t
  have hread : GlyphEdit.readTransform "(10,20,2,0,0,3)" = .ok t := by decide +kernel
  have hname : isName "B" = true := by decide +kernel
  obtain ⟨-, -, c, hc, -, hiff, -⟩ := component_keeps_geometry_iff hread hname
  exact ⟨hread, hname, c, hc, hiff.mpr rfl⟩

/-- A letter that is slanted: the component slants it the other way, along the vertical. -/
theorem component_of_slanted_letter :
    let t : Transform Float := ⟨1, 0.5, 0, 1, 0, 0⟩
    GlyphEdit.readTransform "(0,0,1,0.5,0,1)" = .ok t ∧
      ∃ c, (component? ⟨"B", t⟩).value = some c ∧
        t.image (1, 2) = (2, 2) ∧ c.image (1, 2) = (1, 5 / 2) := by
  intro t
  have hread : GlyphEdit.readTransform "(0,0,1,0.5,0,1)" = .ok t := by decide +kernel
  have hname : isName "B" = true := by decide +kernel
  have hparts : BinaryFraction.ofFloat? 0 = some ⟨false, 0, -1074⟩ ∧
      BinaryFraction.ofFloat? 1 = some ⟨false, 2 ^ 52, -52⟩ ∧
      BinaryFraction.ofFloat? 0.5 = some ⟨false, 2 ^ 52, -53⟩ := by decide +kernel
  obtain ⟨hzero, hone, hhalf⟩ := hparts
  have hzero : exactValue 0 = 0 := by simp [exactValue, hzero, BinaryFraction.value]
  have hone : exactValue 1 = 1 := by
    simp only [exactValue, hone, BinaryFraction.value, Option.map_some, Option.getD_some]
    norm_num
  have hhalf : exactValue 0.5 = 1 / 2 := by
    simp only [exactValue, hhalf, BinaryFraction.value, Option.map_some, Option.getD_some]
    norm_num
  refine ⟨hread, _, component?_of_isName hname, ?_, ?_⟩
  · simp only [Transform.image, Transform.map, Transform.apply, t, hzero, hone, hhalf]
    norm_num
  · simp only [image_component, t, hzero, hone, hhalf]
    norm_num

end Ufo

end FontTrace
