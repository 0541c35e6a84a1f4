import FontTrace.Proofs.Replay.Effect

/-!
# FontTrace.Proofs.Font.Glyphs

The glyphs of a font during a replay.  Glyphs come from shipments and from the
font parameter for the word space, and both put a glyph in by its name.

* `PutInPlace` — glyphs with one put in, and no other glyph moved or changed;
* `glyphs_perform`, `glyphs_follow` — what putting glyphs in keeps, every command and
  every replay keep.
-/

namespace FontTrace

variable {σ : Type}

/-! ## putting a glyph in -/

/-- Glyphs with one put in: in the place of the glyph of its name, or behind all
others if there is none.  No other glyph is moved or changed. -/
inductive PutInPlace (g : Glyph) : List Glyph → List Glyph → Prop where
  | replaced (before : List Glyph) (old : Glyph) (after : List Glyph) (name : old.name = g.name)
      (others : ∀ h ∈ before, h.name ≠ g.name) :
      PutInPlace g (before ++ old :: after) (before ++ g :: after)
  | appended (glyphs : List Glyph) (others : ∀ h ∈ glyphs, h.name ≠ g.name) :
      PutInPlace g glyphs (glyphs ++ [g])

namespace PutInPlace

variable {g h : Glyph} {glyphs glyphs' : List Glyph}

theorem cons (hput : PutInPlace g glyphs glyphs') (hname : h.name ≠ g.name) :
    PutInPlace g (h :: glyphs) (h :: glyphs') := by
  cases hput with
  | replaced before old after name others =>
      exact .replaced (h :: before) old after name (by simpa using ⟨hname, others⟩)
  | appended _ others => exact .appended (h :: glyphs) (by simpa using ⟨hname, others⟩)

theorem nodup (hput : PutInPlace g glyphs glyphs') (hnodup : (glyphs.map (·.name)).Nodup) :
    (glyphs'.map (·.name)).Nodup := by
  cases hput with
  | replaced before old after name others =>
      rw [List.map_append, List.map_cons] at hnodup ⊢
      rwa [← name]
  | appended _ others =>
      rw [List.map_append, List.map_singleton, List.nodup_append]
      refine ⟨hnodup, by simp, ?_⟩
      intro a ha b hb hab
      obtain ⟨h, hh, rfl⟩ := List.mem_map.mp ha
      exact others h hh (hab.trans (List.mem_singleton.mp hb))

/-- Every glyph behind it was there before, or is the one that was put in. -/
theorem mem (hput : PutInPlace g glyphs glyphs') (hh : h ∈ glyphs') : h = g ∨ h ∈ glyphs := by
  cases hput with
  | replaced before old after name others =>
      simp only [List.mem_append, List.mem_cons] at hh ⊢
      rcases hh with hh | hh | hh
      · exact .inr (.inl hh)
      · exact .inl hh
      · exact .inr (.inr (.inr hh))
  | appended _ others =>
      rcases List.mem_append.mp hh with hh | hh
      · exact .inr hh
      · exact .inl (List.mem_singleton.mp hh)

end PutInPlace

theorem putInPlace_putIn (glyphs : List Glyph) (g : Glyph) :
    PutInPlace g glyphs (Font.putIn glyphs g) := by
  induction glyphs with
  | nil => exact .appended [] (by simp)
  | cons h glyphs ih =>
      by_cases hname : h.name = g.name
      · rw [Font.putIn, if_pos hname]
        exact .replaced [] h glyphs hname (by simp)
      · rw [Font.putIn, if_neg hname]
        exact ih.cons hname

/-! ## commands -/

/-- What putting glyphs in keeps that refer to others only if another glyph does
so already. -/
def KeptByPutting (P : List Glyph → Prop) : Prop :=
  ∀ (glyphs : List Glyph) (g : Glyph),
    (g.references = [] ∨ ∃ old ∈ glyphs, g.references = old.references) →
      P glyphs → P (Font.putIn glyphs g)

variable {P : List Glyph → Prop}

theorem KeptByPutting.withSpace (hput : KeptByPutting P) {f : Font} (h : P f.glyphs)
    (width : Int) : P (f.withSpace width).glyphs := by
  refine hput _ _ ?_ h
  cases hfind : f.glyph? "space" with
  | none => exact .inl rfl
  | some g => exact .inr ⟨g, List.mem_of_find?_eq_some hfind, rfl⟩

theorem KeptByPutting.fontParams (hput : KeptByPutting P) (cfg : Settings)
    (params : List FontParam) {s : State σ} (h : P s.font.glyphs) :
    P (params.foldl (FontParam.apply cfg) s).font.glyphs := by
  induction params generalizing s with
  | nil => exact h
  | cons p params ih =>
      refine ih ?_
      -- Parameters of math fonts go beside the font and leave the font itself alone.
      have hfont : (p.apply cfg s).font = p.applyToFont cfg s.font := by
        unfold FontParam.apply
        dsimp only
        split
        · split <;> rfl
        · split <;> rfl
        · rfl
      rw [hfont, FontParam.applyToFont]
      split
      · exact h
      · split
        · exact hput.withSpace h p.units
        · split <;> exact h

/-- What putting glyphs in keeps, every command keeps. -/
theorem glyphs_perform (hput : KeptByPutting P) (e : Engine σ) (cfg : Settings) (c : Command)
    (s : State σ) (h : P s.font.glyphs) : P (perform e cfg c s).value.1.font.glyphs := by
  cases c with
  | picture p =>
      obtain ⟨ps, engine, hs⟩ := exists_perform_picture e cfg p s
      rw [hs]
      exact h
  | edit x =>
      obtain ⟨ps, engine, hs⟩ := exists_perform_edit e cfg x s
      rw [hs]
      exact h
  | ship x =>
      show P (ship e cfg x s).value.1.font.glyphs
      rw [value_ship]
      cases hg : (s.shipOutcome cfg x).glyph? with
      | some g =>
          obtain ⟨ps, engine, o, hs⟩ := State.exists_afterGlyph e cfg s g
          rw [State.afterShipment_of_some hg, hs]
          exact hput s.font.glyphs (s.glyphOf cfg g o) (.inl rfl) h
      | none =>
          obtain ⟨ps, engine, hs⟩ := State.exists_afterNoGlyph e cfg s x
          rw [State.afterShipment_of_none hg, hs]
          exact h
  | fontdimen params => exact hput.fontParams cfg params h
  | designSize size =>
      show P (s.withDesignSize size).font.glyphs
      unfold State.withDesignSize
      split <;> exact h
  | font edit =>
      show P (edit.apply s).font.glyphs
      cases edit <;> exact h
  | _ => exact h

theorem glyphs_follow (hput : KeptByPutting P) (e : Engine σ) (cfg : Settings) (script : Script)
    {s : State σ} (h : P s.font.glyphs) : P (s.follow e cfg script).value.font.glyphs :=
  follow_keeps (P := fun s => P s.font.glyphs) (fun _ _ h => h) (glyphs_perform hput e cfg)
    script h

/-! ## what is kept -/

theorem keptByPutting_nodup : KeptByPutting fun glyphs => (glyphs.map (·.name)).Nodup :=
  fun glyphs g _ h => (putInPlace_putIn glyphs g).nodup h

/-- No glyph refers to another one before the end. -/
theorem keptByPutting_references :
    KeptByPutting fun glyphs => ∀ g ∈ glyphs, g.references = [] := by
  intro glyphs g hg h g' hg'
  rcases (putInPlace_putIn glyphs g).mem hg' with rfl | hold
  · rcases hg with hnone | ⟨old, hold, heq⟩
    · exact hnone
    · rw [heq, h old hold]
  · exact h g' hold

/-- A glyph that is there stays there, as far as its name is concerned. -/
theorem keptByPutting_name (name : String) :
    KeptByPutting fun glyphs => (glyphs.find? fun g => g.name == name).isSome := by
  intro glyphs g _ h
  rw [Font.find?_putIn]
  split
  · rfl
  · exact h

end FontTrace
