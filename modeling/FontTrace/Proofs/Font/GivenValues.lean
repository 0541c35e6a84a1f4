import FontTrace.Proofs.Font.Roster
import FontTrace.Proofs.Shipment.Reshipping

/-!
# FontTrace.Proofs.Font.GivenValues

Values that a trace gives, and values that are computed when it gives none.  Extents are
computed with every shipment, accents with the kerns against the skew character and math
constants when the font is finished; each has its own note of what was given.

* `Script.lastGiven`, `Script.accent` — what the commands of a script have given;
* `keeps_follow` — a replay has what was given last, and the note that it was given;
* `accent_follow` — a glyph keeps its accent until a glyph of its name is committed;
* `info_finish` — of the font-wide values, finishing changes math constants that were not
  given, and nothing else;
* `given_values_kept` — the finished font has what was given.
-/

namespace FontTrace

variable {σ : Type}

/-! ## what commands give -/

namespace Command

/-- The value of a math constant that a command gives. -/
def mathConstant? (name : String) : Command → Option Int
  | .font (.mathConstant other value) => if other = name then some value else none
  | _ => none

/-- The value of a length that a command gives. -/
def metric? (m : FontMetric) : Command → Option Int
  | .font (.metric other value) => if other = m then some value else none
  | _ => none

/-- The accent that is given for the next glyph, after a command. -/
def accentAfter (given : Option Int) : Command → Option Int
  | .ship _ => none
  | .glyph (.topAccent position) => some position
  | _ => given

end Command

namespace Script

/-- The last value of a kind that the commands of a script give. -/
def lastGiven (cfg : Settings) (value? : Command → Option Int) (script : Script) : Option Int :=
  (script.filterMap fun k => (k.command? cfg).bind value?).getLast?

/-- The accent that is given for the next glyph, after a script. -/
def accent (cfg : Settings) (script : Script) : Option Int :=
  (script.filterMap (·.command? cfg)).foldl Command.accentAfter none

theorem lastGiven_concat (cfg : Settings) (value? : Command → Option Int) (script : Script)
    (k : Construct) : lastGiven cfg value? (script ++ [k]) =
      ((k.command? cfg).bind value? <|> lastGiven cfg value? script) := by
  rw [lastGiven, List.filterMap_append]
  cases h : (k.command? cfg).bind value? with
  | none => simp [h, lastGiven]
  | some v => simp [h]

end Script

/-! ## finishing a font -/

theorem info_changeGlyph (f : Font) (name : String) (change : Glyph → Glyph) :
    (f.changeGlyph name change).info = f.info := by
  unfold Font.changeGlyph
  split <;> rfl

theorem info_placeAccent (cfg : Settings) (explicit : List String) (f : Font)
    (p : KernPair CharRef) : (placeAccent cfg explicit f p).value.info = f.info := by
  rw [placeAccent, Noted.value_bind]
  split
  · rfl
  · split
    · exact info_changeGlyph f _ _
    · rfl

theorem info_addPair (cfg : Settings) (f : Font) (p : KernPair String) :
    (addPair cfg f p).value.info = f.info := by
  unfold addPair
  split <;> rfl

theorem info_buildKerning (cfg : Settings) (kerns : List (KernPair CharRef)) (f : Font) :
    (buildKerning cfg kerns f).value.info = f.info := by
  unfold buildKerning
  dsimp only
  split
  · rfl
  · rw [Noted.value_bind]
    split
    · rfl
    · exact foldlM_keeps (info_addPair cfg) _ f

theorem info_extensible (cfg : Settings) (bases : List (String × String))
    (state : List Charlist × Font) (x : Extensible) :
    (x.build cfg bases state).value.2.info = state.2.info := by
  obtain ⟨cs, f⟩ := state
  rw [Extensible.build, Noted.value_bind]
  dsimp only
  split <;> exact info_changeGlyph f _ _

theorem info_buildVariants (cfg : Settings) (t : Tables) (f : Font) :
    (buildVariants cfg t f).value.info = f.info := by
  have hextensibles : (buildExtensibles cfg t f).value.2.info = f.info := by
    rw [buildExtensibles, Noted.value_bind]
    exact foldlM_keeps (g := fun state : List Charlist × Font => state.2.info)
      (info_extensible cfg _) _ _
  rw [buildVariants, Noted.value_bind, ← hextensibles]
  exact foldlM_keeps (fun f c => info_changeGlyph f _ _) _ _

theorem info_buildTables (cfg : Settings) (s : State σ) :
    (buildTables cfg s).value.info = s.font.info := by
  rw [buildTables, Noted.value_bind, Noted.value_bind, Noted.value_bind, info_buildVariants,
    info_buildKerning, value_buildLigatures]
  exact foldlM_keeps (info_placeAccent cfg _) _ _

theorem info_postProcessFont (e : Engine σ) (f : Font) (engine : σ) :
    ((postProcessFont e f).run engine).1.info = f.info := by
  unfold postProcessFont
  dsimp only
  split <;> rfl

theorem info_addReplacement (cfg : Settings) (f : Font) (r : Replacement) :
    (addReplacement cfg f r).value.info = f.info := by
  unfold addReplacement
  split <;> rfl

/-- Of the font-wide values, finishing changes no others than math constants. -/
theorem info_finish (e : Engine σ) (cfg : Settings) (s : State σ) :
    (finish e cfg s).value.1.info =
      if cfg.setMathDefaults then withMathDefaults s s.font.info else s.font.info := by
  have hbefore := (info_postProcessFont e (buildTables cfg s).value s.engine).trans
    (info_buildTables cfg s)
  rw [finish, Noted.value_bind]
  rcases hpost : (postProcessFont e (buildTables cfg s).value).run s.engine with ⟨f, engine⟩
  rw [hpost] at hbefore
  have hattached : (s.tables.references.foldlM attachReference f).value.info = s.font.info :=
    (foldlM_keeps (fun f r => info_changeGlyph f _ _) _ f).trans hbefore
  have hreplaced : (s.tables.replacements.foldlM (addReplacement cfg)
      (s.tables.references.foldlM attachReference f).value).value.info = s.font.info :=
    (foldlM_keeps (info_addReplacement cfg) _ _).trans hattached
  dsimp only
  rw [Noted.value_bind, Noted.value_bind, Noted.value_pure, ← hreplaced]
  dsimp only
  split <;> rfl

/-- A math constant that was given has no default. -/
theorem find?_withMathDefaults {s : State σ} {name : String}
    (h : name ∈ s.explicit.mathConstants) (i : FontInfo) :
    Table.find? (withMathDefaults s i).mathConstants name = Table.find? i.mathConstants name := by
  refine List.foldlRecOn (motive := fun t => Table.find? t name = Table.find? i.mathConstants name)
    _ _ rfl fun t ht c _ => ?_
  split
  · exact ht
  · next hfree =>
    have hne : c.1 ≠ name := fun hname => hfree (by simpa [hname] using h)
    exact (Table.find?_put_of_ne t hne c.2).trans ht

/-! ## what a replay has -/

/-- A command that draws, or that computes values of the font from what it gives. -/
def Command.isQuiet : Command → Bool
  | .picture _ | .edit _ | .fontdimen _ | .designSize _ => true
  | _ => false

/-- Such a command leaves what was given as it is, and does not give anything itself. -/
theorem quiet_perform (e : Engine σ) (cfg : Settings) (c : Command) (s : State σ)
    (h : c.isQuiet = true) :
    SameMetrics s.font (perform e cfg c s).value.1.font ∧
      (perform e cfg c s).value.1.explicit = s.explicit ∧
      (perform e cfg c s).value.1.scratch = s.scratch := by
  cases c with
  | picture p =>
      obtain ⟨ps, engine, hs⟩ := exists_perform_picture e cfg p s
      rw [hs]
      exact ⟨.refl _, rfl, rfl⟩
  | edit x =>
      obtain ⟨ps, engine, hs⟩ := exists_perform_edit e cfg x s
      rw [hs]
      exact ⟨.refl _, rfl, rfl⟩
  | fontdimen params =>
      obtain ⟨f, sigma, xi, hs, hf⟩ := exists_perform_fontdimen e cfg params s
      rw [hs]
      exact ⟨hf, rfl, rfl⟩
  | designSize size =>
      obtain ⟨f, hs, hf⟩ := exists_perform_designSize e cfg size s
      rw [hs]
      exact ⟨hf, rfl, rfl⟩
  | _ => cases h

/-- The values that were given last are those of the font, and noted as given. -/
structure Keeps (constants : String → Option Int) (metrics : FontMetric → Option Int)
    (s : State σ) : Prop where
  constant : ∀ name, ∀ v ∈ constants name,
    Table.find? s.font.info.mathConstants name = some v ∧ name ∈ s.explicit.mathConstants
  ascent : ∀ v ∈ metrics .ascent, s.font.info.ascent = v ∧ s.explicit.ascent = true
  descent : ∀ v ∈ metrics .descent, s.font.info.descent = v ∧ s.explicit.descent = true

namespace Keeps

variable {constants : String → Option Int} {metrics : FontMetric → Option Int} {s s' : State σ}

/-- Values that do not change are kept. -/
theorem of_eq (h : Keeps constants metrics s) (hsame : SameMetrics s.font s'.font)
    (hexplicit : s'.explicit = s.explicit) : Keeps constants metrics s' where
  constant name v hv := by
    rw [hsame.constants, hexplicit]
    exact h.constant name v hv
  ascent v hv := by
    rw [hsame.ascent, hexplicit]
    exact h.ascent v hv
  descent v hv := by
    rw [hsame.descent, hexplicit]
    exact h.descent v hv

/-- A shipment computes the extents that were not given. -/
theorem afterGlyph (h : Keeps constants metrics s) (e : Engine σ) (cfg : Settings)
    (g : ShippedGlyph) : Keeps constants metrics (s.afterGlyph e cfg g) := by
  obtain ⟨ps, engine, o, hs⟩ := State.exists_afterGlyph e cfg s g
  have hexplicit : ∃ accents, s.explicit.afterGlyph g.id.name s.scratch =
      { s.explicit with topAccents := accents } := by
    unfold Explicit.afterGlyph
    split <;> exact ⟨_, rfl⟩
  obtain ⟨accents, haccents⟩ := hexplicit
  rw [hs, haccents]
  refine ⟨h.constant, fun v hv => ⟨?_, (h.ascent v hv).2⟩, fun v hv => ⟨?_, (h.descent v hv).2⟩⟩
  · obtain ⟨hvalue, hgiven⟩ := h.ascent v hv
    simp [State.fontAfter, FontInfo.extendedBy, Font.putGlyph, hvalue, hgiven]
  · obtain ⟨hvalue, hgiven⟩ := h.descent v hv
    simp [State.fontAfter, FontInfo.extendedBy, Font.putGlyph, hvalue, hgiven]

theorem mathConstant (h : Keeps constants metrics s) (name : String) (value : Int) :
    Keeps (fun name' => (if name = name' then some value else none) <|> constants name') metrics
      ((FontEdit.mathConstant name value).apply s) := by
  refine ⟨fun name' v hv => ?_, h.ascent, h.descent⟩
  show Table.find? (Table.put s.font.info.mathConstants name value) name' = some v ∧
    name' ∈ addNew s.explicit.mathConstants name
  rw [Table.find?_put, mem_addNew]
  by_cases hname : name = name'
  · simp only [hname, if_true] at hv ⊢
    exact ⟨hv, .inr trivial⟩
  · simp only [hname, if_false] at hv ⊢
    obtain ⟨hfind, hmem⟩ := h.constant name' v hv
    exact ⟨hfind, .inl hmem⟩

theorem fontEdit (h : Keeps constants metrics s) (edit : FontEdit) :
    Keeps (fun name => Command.mathConstant? name (.font edit) <|> constants name)
      (fun m => Command.metric? m (.font edit) <|> metrics m) (edit.apply s) := by
  cases edit with
  | text field value =>
      cases field <;> exact h.of_eq ⟨rfl, rfl, rfl, rfl, fun _ _ h => h⟩ rfl
  | request what => exact h.of_eq ⟨rfl, rfl, rfl, rfl, fun _ _ h => h⟩ rfl
  | privateEntry key value known => exact h.of_eq ⟨rfl, rfl, rfl, rfl, fun _ _ h => h⟩ rfl
  | mathConstant name value => exact h.mathConstant name value
  | metric m value =>
      cases m with
      | ascent => exact ⟨h.constant, fun v hv => ⟨Option.some.inj hv, rfl⟩, h.descent⟩
      | descent => exact ⟨h.constant, h.ascent, fun v hv => ⟨Option.some.inj hv, rfl⟩⟩
      | _ => exact ⟨h.constant, h.ascent, h.descent⟩

/-- Every command has what it gives, and keeps what was given before. -/
theorem perform (h : Keeps constants metrics s) (e : Engine σ) (cfg : Settings) (c : Command) :
    Keeps (fun name => c.mathConstant? name <|> constants name)
      (fun m => c.metric? m <|> metrics m) (perform e cfg c s).value.1 := by
  have hquiet := quiet_perform e cfg c s
  cases c with
  | font edit => exact h.fontEdit edit
  | ship x =>
      show Keeps constants metrics (ship e cfg x s).value.1
      rw [value_ship]
      cases hg : (s.shipOutcome cfg x).glyph? with
      | some g =>
          rw [State.afterShipment_of_some hg]
          exact h.afterGlyph e cfg g
      | none =>
          obtain ⟨ps, engine, hs⟩ := State.exists_afterNoGlyph e cfg s x
          rw [State.afterShipment_of_none hg, hs]
          exact h.of_eq (.refl _) rfl
  | picture _ | edit _ | fontdimen _ | designSize _ =>
      obtain ⟨hfont, hexplicit, -⟩ := hquiet rfl
      exact h.of_eq hfont hexplicit
  | _ => exact ⟨h.constant, h.ascent, h.descent⟩

end Keeps

open Script in
/-- A replay has what was given last. -/
theorem keeps_follow (e : Engine σ) (engine : σ) (cfg : Settings) (encoding : Encoding)
    (script : Script) :
    Keeps (fun name => script.lastGiven cfg (·.mathConstant? name))
      (fun m => script.lastGiven cfg (·.metric? m))
      ((State.initial engine cfg encoding).follow e cfg script).value := by
  induction script using List.reverseRecOn with
  | nil => exact ⟨fun _ v hv => (by cases hv), fun v hv => (by cases hv), fun v hv => (by cases hv)⟩
  | append_singleton script k ih =>
      simp only [lastGiven_concat]
      rw [follow_append, follow_cons, follow_nil]
      generalize ((State.initial engine cfg encoding).follow e cfg script).value = s at ih ⊢
      rcases step_cases e cfg s k with ⟨hnone, reasons, hs⟩ | ⟨c, hsome, reasons, hs⟩
      · rw [hs, hnone]
        exact ih.of_eq (.refl _) rfl
      · rw [hs, hsome]
        exact (ih.perform e cfg c).of_eq (.refl _) rfl

/-! ## accents -/

theorem scratch_perform (e : Engine σ) (cfg : Settings) (c : Command) (s : State σ) :
    (perform e cfg c s).value.1.scratch.topAccent = c.accentAfter s.scratch.topAccent := by
  have hquiet := quiet_perform e cfg c s
  cases c with
  | ship x =>
      show (ship e cfg x s).value.1.scratch.topAccent = none
      rw [value_ship, (State.cleared_afterShipment e cfg s x).1]
  | glyph edit => cases edit <;> rfl
  | picture _ | edit _ | fontdimen _ | designSize _ =>
      obtain ⟨-, -, hscratch⟩ := hquiet rfl
      rw [hscratch]
      rfl
  | font edit => cases edit <;> rfl
  | _ => rfl

/-- The accent that waits for the next glyph is the one that was given for it. -/
theorem scratch_follow (e : Engine σ) (engine : σ) (cfg : Settings) (encoding : Encoding)
    (script : Script) :
    ((State.initial engine cfg encoding).follow e cfg script).value.scratch.topAccent =
      script.accent cfg := by
  induction script using List.reverseRecOn with
  | nil => rfl
  | append_singleton script k ih =>
      rw [follow_append, follow_cons, follow_nil, Script.accent, List.filterMap_append,
        List.foldl_append, ← Script.accent, ← ih]
      generalize ((State.initial engine cfg encoding).follow e cfg script).value = s at ih ⊢
      rcases step_cases e cfg s k with ⟨hnone, reasons, hs⟩ | ⟨c, hsome, reasons, hs⟩
      · rw [hs, List.filterMap_cons_none hnone]
        rfl
      · rw [hs, List.filterMap_cons_some hsome]
        exact scratch_perform e cfg c _

/-- The font has a glyph with the given accent. -/
def Font.HasAccent (f : Font) (name : String) (t : Option Int) : Prop :=
  (f.glyph? name).map (·.topAccent) = some t

/-- A glyph keeps its accent when no glyph of its name is committed. -/
theorem accent_perform (e : Engine σ) {cfg : Settings} {s : State σ} {name : String}
    {t : Option Int} (h : s.font.HasAccent name t) {c : Command}
    (hc : ∀ x, c = .ship x → ∀ g, (s.shipOutcome cfg x).glyph? = some g → g.id.name ≠ name) :
    (perform e cfg c s).value.1.font.HasAccent name t := by
  have hquiet := quiet_perform e cfg c s
  cases c with
  | ship x =>
      show (ship e cfg x s).value.1.font.HasAccent name t
      rw [value_ship]
      cases hg : (s.shipOutcome cfg x).glyph? with
      | some g =>
          obtain ⟨ps, engine, o, hs⟩ := State.exists_afterGlyph e cfg s g
          rw [State.afterShipment_of_some hg, hs]
          show ((s.fontAfter cfg (s.glyphOf cfg g o)).glyph? name).map _ = _
          have hname : (s.glyphOf cfg g o).name ≠ name := hc x rfl g hg
          rw [State.fontAfter, Font.find?_putGlyph, if_neg hname]
          exact h
      | none =>
          obtain ⟨ps, engine, hs⟩ := State.exists_afterNoGlyph e cfg s x
          rw [State.afterShipment_of_none hg, hs]
          exact h
  | picture _ | edit _ | fontdimen _ | designSize _ =>
      exact (hquiet rfl).1.accents name t h
  | font edit => cases edit <;> exact h
  | _ => exact h

theorem accent_step (e : Engine σ) {cfg : Settings} {s : State σ} {name : String} {t : Option Int}
    (h : s.font.HasAccent name t) {k : Construct}
    (hk : ∀ c ∈ k.commitment? cfg s, c.name ≠ name) :
    (State.step e cfg s k).value.font.HasAccent name t := by
  rcases step_cases e cfg s k with ⟨-, reasons, hs⟩ | ⟨c, hsome, reasons, hs⟩
  · rw [hs]
    exact h
  · rw [hs]
    refine accent_perform e h fun x hx g hg => ?_
    have hglyph : k.glyph? cfg s = some g := by
      rw [Construct.glyph?, Construct.shipment?_eq, hsome, hx]
      exact hg
    exact hk (s.commitment cfg g) (by rw [Construct.commitment?, hglyph]; rfl)

theorem accent_follow (e : Engine σ) {cfg : Settings} {script : Script} {s : State σ}
    {name : String} {t : Option Int} (h : s.font.HasAccent name t)
    (hscript : ∀ c ∈ script.commitments e cfg s, c.name ≠ name) :
    (s.follow e cfg script).value.font.HasAccent name t := by
  induction script generalizing s with
  | nil => exact h
  | cons k script ih =>
      rw [Script.commitments] at hscript
      rw [follow_cons]
      refine ih (accent_step e h fun c hc => ?_) fun c hc => ?_
      · exact hscript c (List.mem_append_left _ (Option.mem_toList.mpr hc))
      · exact hscript c (List.mem_append_right _ hc)

/-- A glyph that is committed with an accent given for it has that accent, and the note that it
was given. -/
theorem accent_of_glyph (e : Engine σ) {cfg : Settings} {s : State σ} {k : Construct}
    {g : ShippedGlyph} (hg : k.glyph? cfg s = some g) {t : Int}
    (ht : s.scratch.topAccent = some t) :
    (State.step e cfg s k).value.font.HasAccent g.id.name (some t) ∧
      g.id.name ∈ (State.step e cfg s k).value.explicit.topAccents := by
  obtain ⟨reasons, hstep⟩ := exists_step_of_glyph e hg
  obtain ⟨ps, engine, o, hs⟩ := State.exists_afterGlyph e cfg s g
  rw [hstep, hs]
  constructor
  · show ((s.fontAfter cfg (s.glyphOf cfg g o)).glyph? g.id.name).map _ = _
    have hname : (s.glyphOf cfg g o).name = g.id.name := rfl
    rw [State.fontAfter, Font.find?_putGlyph, if_pos hname]
    simp [State.glyphOf, glyphFor, topAccentFor, ht]
  · show g.id.name ∈ (s.explicit.afterGlyph g.id.name s.scratch).topAccents
    rw [Explicit.afterGlyph, if_pos (by rw [ht]; rfl), mem_addNew]
    exact .inr rfl

/-- An accent that was given stays behind the kerns against the skew character. -/
theorem accent_finish (e : Engine σ) (cfg : Settings) {s : State σ} {name : String}
    {t : Option Int} (h : s.font.HasAccent name t) (hgiven : name ∈ s.explicit.topAccents) :
    (finish e cfg s).value.1.HasAccent name t := by
  have hfinish := topAccent_finish e cfg s name
  simp only [List.contains_iff_mem.mpr hgiven, if_true] at hfinish
  exact hfinish.trans h

/-! ## the finished font -/

/-- A finished font has all that its trace gave, and nothing that was computed in its place. -/
structure KeepsGiven (e : Engine σ) (cfg : Settings) (start : State σ) (script : Script)
    (font : Font) : Prop where
  constant : ∀ name v, script.lastGiven cfg (·.mathConstant? name) = some v →
    Table.find? font.info.mathConstants name = some v
  ascent : ∀ v, script.lastGiven cfg (·.metric? .ascent) = some v → font.info.ascent = v
  descent : ∀ v, script.lastGiven cfg (·.metric? .descent) = some v → font.info.descent = v
  /-- The extents are those that were given last at any time, whatever was shipped. -/
  during : ∀ before after : Script, script = before ++ after →
    let info := (start.follow e cfg before).value.font.info
    (∀ v, before.lastGiven cfg (·.metric? .ascent) = some v → info.ascent = v) ∧
    (∀ v, before.lastGiven cfg (·.metric? .descent) = some v → info.descent = v)
  /-- A glyph whose accent was given with the last commitment of its name. -/
  accent : ∀ (before : Script) (k : Construct) (after : Script) (g : ShippedGlyph) (t : Int),
    script = before ++ k :: after →
    let s := (start.follow e cfg before).value
    k.glyph? cfg s = some g → before.accent cfg = some t →
    (∀ c ∈ after.commitments e cfg (State.step e cfg s k).value, c.name ≠ g.id.name) →
    font.HasAccent g.id.name (some t)

/-- Every trace, with whatever settings. -/
theorem given_values_kept (e : Engine σ) (engine : σ) (cfg : Settings) (encoding : Encoding)
    (records : List Record) :
    KeepsGiven e cfg (State.initial engine cfg encoding) (Script.ofRecords records)
      (fontOf e engine cfg encoding records).value := by
  let start := State.initial engine cfg encoding
  let script := Script.ofRecords records
  let s := (start.follow e cfg script).value
  have hfont : (fontOf e engine cfg encoding records).value = (finish e cfg s).value.1 := rfl
  have hkeeps : ∀ script : Script, Keeps (fun name => script.lastGiven cfg (·.mathConstant? name))
      (fun m => script.lastGiven cfg (·.metric? m)) (start.follow e cfg script).value :=
    keeps_follow e engine cfg encoding
  have hextents : (finish e cfg s).value.1.info.ascent = s.font.info.ascent ∧
      (finish e cfg s).value.1.info.descent = s.font.info.descent := by
    rw [info_finish]
    split <;> exact ⟨rfl, rfl⟩
  rw [hfont]
  refine ⟨fun name v hv => ?_, fun v hv => ?_, fun v hv => ?_, ?_, ?_⟩
  · obtain ⟨hfind, hgiven⟩ := (hkeeps script).constant name v hv
    rw [info_finish]
    split
    · exact (find?_withMathDefaults hgiven _).trans hfind
    · exact hfind
  · exact hextents.1.trans ((hkeeps script).ascent v hv).1
  · exact hextents.2.trans ((hkeeps script).descent v hv).1
  · rintro before after -
    have hbefore := hkeeps before
    exact ⟨fun v hv => (hbefore.ascent v hv).1, fun v hv => (hbefore.descent v hv).1⟩
  · intro before k after g t hscript s₀ hg haccent hlater
    rw [← scratch_follow e engine cfg encoding] at haccent
    obtain ⟨hplaced, hnoted⟩ := accent_of_glyph e hg haccent
    have hs : s = ((State.step e cfg s₀ k).value.follow e cfg after).value := by
      show (start.follow e cfg (Script.ofRecords records)).value = _
      rw [hscript, follow_append, follow_cons]
    -- The note stays for good, and the accent as long as no other glyph takes the place.
    have hputs := puts_follow e cfg (State.step e cfg s₀ k).value after
    refine accent_finish e cfg ?_ ?_
    · rw [hs]
      exact accent_follow e hplaced hlater
    · rw [hs]
      exact (hputs.accents g.id.name).mpr (.inl hnoted)

/-- A letter with an accent and a kern against the skew character, taller than the ascent that
the font gives, in a font that gives one of the constants with a default. -/
theorem given_values_kept_of_letter :
    let cfg : Settings :=
      { setTopAccent := true, skewchar := 127, extensions := { font := true, glyph := true } }
    let records : List Record :=
      [⟨"font_math_constant", none, "\"ScriptPercentScaleDown\">> 80"⟩,
        ⟨"font_ascent", none, "10>> 60"⟩, ⟨"picture", none, "\"p\""⟩,
        ⟨"glyph_top_accent", none, "10"⟩,
        ⟨"shipout", none, "10>> 65>> 0>> 65>> 70>> 2>> 0>> 0>> 0>> 0>> 0"⟩,
        ⟨"pic", none, "\"p\""⟩, ⟨"ligtable", none, "10>> \"A\""⟩, ⟨":", none, "127"⟩,
        ⟨"kern", none, "3"⟩]
    let font := (fontOf Engine.basic () cfg .unicode records).value
    Table.find? font.info.mathConstants "ScriptPercentScaleDown" = some 80 ∧
      font.info.ascent = 600 ∧ font.HasAccent "A" (some 10) := by
  intro cfg records font
  let script := Script.ofRecords records
  let start := State.initial () cfg .unicode
  let letter : ShippedGlyph :=
    ⟨⟨⟨65, 650, 700, 20, 0, 0, 0⟩, "p"⟩, ⟨"A", some 65, some 65⟩, none⟩
  let before := start.follow Engine.basic cfg (script.take 4)
  have hkept := given_values_kept Engine.basic () cfg .unicode records
  obtain ⟨hconstant, hascent, haccent, hletter, hlast⟩ :
      script.lastGiven cfg (·.mathConstant? "ScriptPercentScaleDown") = some 80 ∧
      script.lastGiven cfg (·.metric? .ascent) = some 600 ∧
      Script.accent cfg (script.take 4) = some 10 ∧
      (script[4]?.bind (·.glyph? cfg before.value)) = some letter ∧
      (script[4]?.map fun k => Script.commitments Engine.basic cfg
        (State.step Engine.basic cfg before.value k).value (script.drop 5)) = some [] := by
    decide +kernel
  obtain ⟨k, hk, hglyph⟩ := Option.bind_eq_some_iff.mp hletter
  obtain ⟨hlength, hplace⟩ := List.getElem?_eq_some_iff.mp hk
  have hscript : script = script.take 4 ++ k :: script.drop 5 := by
    rw [← hplace, ← List.drop_eq_getElem_cons hlength, List.take_append_drop]
  rw [hk, Option.map_some, Option.some.injEq] at hlast
  refine ⟨hkept.constant _ _ hconstant, hkept.ascent _ hascent, ?_⟩
  refine hkept.accent _ _ _ letter 10 hscript hglyph haccent fun c hc => ?_
  rw [hlast] at hc
  cases hc

end FontTrace
