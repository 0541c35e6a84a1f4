import FontTrace.Proofs.Ligature.Finish

/-!
# FontTrace.Proofs.Font.Roster

Which glyphs a font has, and which of them an operand names.  That depends on
the names and the codes of the glyphs and on nothing else of them, and finishing
a font changes none of these.

* `SameRoster.resolve` — in fonts with the same roster, operands name the same glyphs;
* `SameGlyphs` — the same for any value of glyphs, with a lemma for each part of finishing
  that says which values it keeps;
* `sameRoster_finish` — a finished font has the roster of the one before.
-/

namespace FontTrace

variable {σ : Type}

/-! ## names of operands -/

/-- The name of the glyph that an operand stands for. -/
def Font.operandName (cfg : Settings) (f : Font) (operand : CharRef) : String :=
  (f.resolve cfg.generalizedCode operand).value

/-- Fonts with the same glyphs, as far as operands are concerned. -/
structure SameRoster (f f' : Font) : Prop where
  glyphs : f'.glyphs.map (fun g => (g.name, g.code)) = f.glyphs.map fun g => (g.name, g.code)
  encoding : f'.encoding = f.encoding

namespace SameRoster

variable {f f' : Font}

theorem hasGlyph (h : SameRoster f f') : f'.hasGlyph = f.hasGlyph := by
  have hroster : ∀ (f : Font) (name : String), f.hasGlyph name =
      (f.glyphs.map fun g => (g.name, g.code)).any fun p => p.1 == name := by
    intro f name
    rw [Bool.eq_iff_iff]
    simp [Font.hasGlyph, Font.glyph?, List.find?_isSome]
  funext name
  rw [hroster, hroster, h.glyphs]

theorem nameAt (h : SameRoster f f') : f'.nameAt = f.nameAt := by
  have hroster : ∀ (f : Font) (code : Int), f.nameAt code =
      (((f.glyphs.map fun g => (g.name, g.code)).find? fun p => p.2 == some code).map (·.1)).getD
        (f.encoding.slot code).name := by
    intro f code
    rw [Font.nameAt, Font.glyphAt?, List.find?_map]
    simp only [Function.comp_def]
    cases f.glyphs.find? fun g => g.code == some code <;> rfl
  funext code
  rw [hroster, hroster, h.glyphs, h.encoding]

/-- An operand names the same glyph. -/
theorem resolve (h : SameRoster f f') : f'.resolve = f.resolve := by
  funext generalized operand
  unfold Font.resolve
  rw [h.nameAt, h.hasGlyph]

theorem operandName (h : SameRoster f f') (cfg : Settings) :
    f'.operandName cfg = f.operandName cfg := by
  funext operand
  rw [Font.operandName, Font.operandName, h.resolve]

end SameRoster

/-! ## values of glyphs -/

/-- Fonts with the same glyphs, as far as one value of them is concerned. -/
structure SameGlyphs {β : Type} (get : Glyph → β) (f f' : Font) : Prop where
  glyphs : f'.glyphs.map (fun g => (g.name, get g)) = f.glyphs.map fun g => (g.name, get g)
  encoding : f'.encoding = f.encoding

section SameGlyphs

variable {β : Type} {get : Glyph → β} {f f' f'' : Font}

namespace SameGlyphs

theorem refl (f : Font) : SameGlyphs get f f := ⟨rfl, rfl⟩

theorem trans (h : SameGlyphs get f f') (h' : SameGlyphs get f' f'') : SameGlyphs get f f'' :=
  ⟨h'.glyphs.trans h.glyphs, h'.encoding.trans h.encoding⟩

theorem sameRoster (h : SameGlyphs Glyph.code f f') : SameRoster f f' := ⟨h.glyphs, h.encoding⟩

/-- A glyph that is found by its name has the same value. -/
theorem glyph? (h : SameGlyphs get f f') (name : String) :
    (f'.glyph? name).map get = (f.glyph? name).map get := by
  have hvalue : ∀ f : Font, (f.glyph? name).map get =
      ((f.glyphs.map fun g => (g.name, get g)).find? fun p => p.1 == name).map (·.2) := by
    intro f
    rw [Font.glyph?, List.find?_map, Option.map_map]
    rfl
  rw [hvalue, hvalue, h.glyphs]

end SameGlyphs

theorem glyph?_changeGlyph (f : Font) (changed : String) (change : Glyph → Glyph)
    (name : String) : (f.changeGlyph changed change).glyph? name =
      (f.glyph? name).map fun g => if changed = name then { change g with name := g.name } else g := by
  unfold Font.changeGlyph
  by_cases h : changed = name
  · subst h
    cases hfind : f.glyph? changed with
    | none => exact hfind
    | some g =>
        have hname : g.name = changed := key_of_find? hfind
        dsimp only
        rw [Font.find?_putGlyph, if_pos hname, Option.map_some, if_pos rfl]
  · simp only [if_neg h, Option.map_id']
    split
    · next g hfind =>
      have hname : g.name = changed := key_of_find? hfind
      rw [Font.find?_putGlyph, if_neg (hname ▸ h)]
    · rfl

/-- A glyph that replaces another one with the same value. -/
theorem map_putIn {glyphs : List Glyph} {g g' : Glyph}
    (hfind : glyphs.find? (fun h => h.name == g'.name) = some g) (hget : get g' = get g) :
    (Font.putIn glyphs g').map get = glyphs.map get := by
  induction glyphs with
  | nil => cases hfind
  | cons h glyphs ih =>
      rw [List.find?_cons] at hfind
      by_cases hname : h.name = g'.name
      · simp only [hname, beq_self_eq_true, Option.some.injEq] at hfind
        rw [Font.putIn, if_pos hname, List.map_cons, List.map_cons, hget, hfind]
      · rw [beq_false_of_ne hname] at hfind
        simp [Font.putIn, hname, ih hfind]

theorem sameGlyphs_changeGlyph (f : Font) (name : String) {change : Glyph → Glyph}
    (hget : ∀ g, get { change g with name := g.name } = get g) :
    SameGlyphs get f (f.changeGlyph name change) := by
  unfold Font.changeGlyph
  split
  · next g hfind =>
    have hname : g.name = name := key_of_find? hfind
    refine ⟨map_putIn (g := g) ?_ (by simp [hget]), rfl⟩
    rw [hname]
    exact hfind
  · exact SameGlyphs.refl f

/-- What every step of a fold leaves of the glyphs, the whole fold does. -/
theorem sameGlyphs_foldlM {α γ : Type} (font : γ → Font) {step : γ → α → Noted γ}
    (h : ∀ b a, SameGlyphs get (font b) (font (step b a).value)) (as : List α) (b : γ) :
    SameGlyphs get (font b) (font (as.foldlM step b).value) :=
  foldlM_invariant (P := fun b' => SameGlyphs get (font b) (font b'))
    (fun b' a hb => hb.trans (h b' a)) as (SameGlyphs.refl _)

/-! ## finishing a font -/

theorem sameGlyphs_buildLigatures (cfg : Settings) (rules : List LigatureRule) (f : Font) :
    SameGlyphs get f (buildLigatures cfg rules f).value := by
  rw [value_buildLigatures]
  exact ⟨rfl, rfl⟩

theorem sameGlyphs_placeAccent (hget : ∀ g t, get { g with topAccent := t } = get g)
    (cfg : Settings) (explicit : List String) (f : Font) (p : KernPair CharRef) :
    SameGlyphs get f (placeAccent cfg explicit f p).value := by
  rw [placeAccent, Noted.value_bind]
  split
  · exact SameGlyphs.refl f
  · split
    · exact sameGlyphs_changeGlyph f _ fun g => hget g _
    · exact SameGlyphs.refl f

theorem sameGlyphs_placeAccents (hget : ∀ g t, get { g with topAccent := t } = get g)
    (cfg : Settings) (explicit : List String) (kerns : List (KernPair CharRef)) (f : Font) :
    SameGlyphs get f (placeAccents cfg explicit kerns f).value :=
  sameGlyphs_foldlM id (sameGlyphs_placeAccent hget cfg explicit) _ f

theorem sameGlyphs_addPair (cfg : Settings) (f : Font) (p : KernPair String) :
    SameGlyphs get f (addPair cfg f p).value := by
  unfold addPair
  split <;> exact ⟨rfl, rfl⟩

theorem sameGlyphs_buildKerning (cfg : Settings) (kerns : List (KernPair CharRef)) (f : Font) :
    SameGlyphs get f (buildKerning cfg kerns f).value := by
  unfold buildKerning
  dsimp only
  split
  · exact SameGlyphs.refl f
  · rw [Noted.value_bind]
    split
    · exact ⟨rfl, rfl⟩
    · exact sameGlyphs_foldlM id (sameGlyphs_addPair cfg) _ f

theorem sameGlyphs_extensible (hget : ∀ g cs, get { g with verticalComponents := cs } = get g)
    (cfg : Settings) (bases : List (String × String)) (state : List Charlist × Font)
    (x : Extensible) : SameGlyphs get state.2 (x.build cfg bases state).value.2 := by
  obtain ⟨cs, f⟩ := state
  rw [Extensible.build, Noted.value_bind]
  dsimp only
  split <;> exact sameGlyphs_changeGlyph f _ fun g => hget g _

theorem sameGlyphs_charlist (hget : ∀ g vs, get { g with verticalVariants := vs } = get g)
    (cfg : Settings) (f : Font) (c : Charlist) : SameGlyphs get f (c.build cfg f).value :=
  sameGlyphs_changeGlyph f _ fun g => hget g _

theorem sameGlyphs_buildVariants (hvariants : ∀ g vs, get { g with verticalVariants := vs } = get g)
    (hcomponents : ∀ g cs, get { g with verticalComponents := cs } = get g) (cfg : Settings)
    (t : Tables) (f : Font) : SameGlyphs get f (buildVariants cfg t f).value := by
  have hextensibles : SameGlyphs get f (buildExtensibles cfg t f).value.2 := by
    rw [buildExtensibles, Noted.value_bind]
    exact sameGlyphs_foldlM Prod.snd (sameGlyphs_extensible hcomponents cfg _) _ (t.charlists, f)
  rw [buildVariants, Noted.value_bind]
  exact hextensibles.trans (sameGlyphs_foldlM id (sameGlyphs_charlist hvariants cfg) _ _)

theorem sameGlyphs_buildTables (haccent : ∀ g t, get { g with topAccent := t } = get g)
    (hvariants : ∀ g vs, get { g with verticalVariants := vs } = get g)
    (hcomponents : ∀ g cs, get { g with verticalComponents := cs } = get g) (cfg : Settings)
    (s : State σ) : SameGlyphs get s.font (buildTables cfg s).value := by
  rw [buildTables, Noted.value_bind, Noted.value_bind, Noted.value_bind]
  exact (sameGlyphs_buildLigatures cfg _ _).trans <|
    (sameGlyphs_placeAccents haccent cfg _ _ _).trans <|
    (sameGlyphs_buildKerning cfg _ _).trans <|
    sameGlyphs_buildVariants hvariants hcomponents cfg _ _

/-- Values that no step changes, behind all steps. -/
theorem map_mapM {α : Type} (get : α → β) {f : α → StateM σ α}
    (hget : ∀ a t, get ((f a).run t).1 = get a) (as : List α) (t : σ) :
    ((as.mapM f).run t).1.map get = as.map get := by
  induction as generalizing t with
  | nil => rfl
  | cons a as ih =>
      rw [List.mapM_cons]
      show get ((f a).run t).1 :: (((as.mapM f).run ((f a).run t).2).1.map get) = _
      rw [hget, ih, List.map_cons]

theorem sameGlyphs_postProcessFont (hget : ∀ g o, get { g with outline := o } = get g)
    (e : Engine σ) (f : Font) (engine : σ) :
    SameGlyphs get f ((postProcessFont e f).run engine).1 := by
  have hrounded : ∀ glyphs : List Glyph, (if f.info.postProcess.round then
      glyphs.map fun g => { g with outline := Outline.rounded g.outline }
      else glyphs).map (fun g => (g.name, get g)) = glyphs.map fun g => (g.name, get g) := by
    intro glyphs
    split
    · rw [List.map_map]
      exact List.map_congr_left fun g _ => congrArg (Prod.mk g.name) (hget g _)
    · rfl
  unfold postProcessFont
  dsimp only
  split
  · refine ⟨(hrounded _).trans ?_, rfl⟩
    refine map_mapM (fun g : Glyph => (g.name, get g)) (fun g t => ?_) f.glyphs engine
    exact congrArg (Prod.mk g.name) (hget g _)
  · exact ⟨hrounded f.glyphs, rfl⟩

theorem sameGlyphs_attachReferences (hget : ∀ g rs, get { g with references := rs } = get g)
    (references : List PendingReference) (f : Font) :
    SameGlyphs get f (references.foldlM attachReference f).value :=
  sameGlyphs_foldlM id
    (fun f r => sameGlyphs_changeGlyph f r.glyph fun g =>
      hget g (g.references ++ [⟨r.target, r.transform⟩])) references f

theorem sameGlyphs_addReplacements (cfg : Settings) (replacements : List Replacement) (f : Font) :
    SameGlyphs get f (replacements.foldlM (addReplacement cfg) f).value := by
  refine sameGlyphs_foldlM id (fun f r => ?_) replacements f
  unfold addReplacement
  split <;> exact ⟨rfl, rfl⟩

end SameGlyphs

/-- Behind the tables a glyph gets no values but an outline and references. -/
theorem sameGlyphs_finish {β : Type} {get : Glyph → β}
    (houtline : ∀ g o, get { g with outline := o } = get g)
    (hreferences : ∀ g rs, get { g with references := rs } = get g) (e : Engine σ)
    (cfg : Settings) (s : State σ) :
    SameGlyphs get (buildTables cfg s).value (finish e cfg s).value.1 := by
  have hfinished := (sameGlyphs_postProcessFont houtline e (buildTables cfg s).value s.engine).trans <|
    (sameGlyphs_attachReferences hreferences s.tables.references _).trans <|
    sameGlyphs_addReplacements cfg s.tables.replacements _
  obtain ⟨info, hfinish⟩ := exists_finish e cfg s
  rw [hfinish]
  exact ⟨hfinished.glyphs, hfinished.encoding⟩

/-- Finishing a font changes neither the names nor the codes of its glyphs. -/
theorem sameRoster_finish (e : Engine σ) (cfg : Settings) (s : State σ) :
    SameRoster s.font (finish e cfg s).value.1 :=
  SameGlyphs.sameRoster <|
    (sameGlyphs_buildTables (fun _ _ => rfl) (fun _ _ => rfl) (fun _ _ => rfl) cfg s).trans
      (sameGlyphs_finish (fun _ _ => rfl) (fun _ _ => rfl) e cfg s)

end FontTrace
