import FontTrace.Proofs.Shipment.Outcome

/-!
# FontTrace.Proofs.Replay.Effect

Which parts of the state a construct may change.  Most commands say so
themselves; here are those that hide it behind an engine or a loop.

* `exists_perform_picture`, `exists_perform_edit` — drawing changes pictures and the engine;
* `SameMetrics` — what font parameters and the design size leave of the font;
* `lookups_perform` — lookups change in front of the end only if an anchor is given;
* `step_cases` — a construct does what its command does, or nothing;
* `follow_keeps` — what every command keeps, a replay keeps.
-/

namespace FontTrace

variable {σ : Type}

/-! ## drawing -/

theorem exists_value_atomically {u : Update σ} (hu : OnPictures u) (s : State σ) :
    ∃ ps engine, (atomically u s).value.1 = { s with pictures := ps, engine := engine } := by
  rw [value_atomically]
  cases hs : (u s).value with
  | error reason => exact ⟨s.pictures, s.engine, rfl⟩
  | ok s' => exact hu s s' hs

theorem exists_perform_picture (e : Engine σ) (cfg : Settings) (c : PictureCommand)
    (s : State σ) : ∃ ps engine,
      (perform e cfg (.picture c) s).value.1 = { s with pictures := ps, engine := engine } :=
  exists_value_atomically (onPictures_picture e cfg c) s

theorem exists_perform_edit (e : Engine σ) (cfg : Settings) (x : PictureEdit) (s : State σ) :
    ∃ ps engine,
      (perform e cfg (.edit x) s).value.1 = { s with pictures := ps, engine := engine } :=
  exists_value_atomically (onPictures_edit e x) s

/-! ## parameters of the font -/

/-- What the parameters and the design size of a font leave as it is. -/
structure SameMetrics (f f' : Font) : Prop where
  ascent : f'.info.ascent = f.info.ascent
  descent : f'.info.descent = f.info.descent
  constants : f'.info.mathConstants = f.info.mathConstants
  lookups : f'.lookups = f.lookups
  /-- A glyph that is there keeps its accent. -/
  accents : ∀ name t, (f.glyph? name).map (·.topAccent) = some t →
    (f'.glyph? name).map (·.topAccent) = some t

theorem SameMetrics.refl (f : Font) : SameMetrics f f := ⟨rfl, rfl, rfl, rfl, fun _ _ h => h⟩

theorem SameMetrics.trans {f f' f'' : Font} (h : SameMetrics f f') (h' : SameMetrics f' f'') :
    SameMetrics f f'' :=
  ⟨h'.ascent.trans h.ascent, h'.descent.trans h.descent, h'.constants.trans h.constants,
    h'.lookups.trans h.lookups, fun name t ht => h'.accents name t (h.accents name t ht)⟩

theorem sameMetrics_withSpace (f : Font) (width : Int) : SameMetrics f (f.withSpace width) := by
  refine ⟨rfl, rfl, rfl, rfl, fun name t h => ?_⟩
  rw [Font.withSpace, Font.find?_putGlyph]
  cases hspace : f.glyph? "space" with
  | none =>
      have hname : "space" ≠ name := by
        rintro rfl
        rw [hspace] at h
        cases h
      rw [Option.getD_none, if_neg hname]
      exact h
  | some g =>
      have hg : g.name = "space" := by simpa using List.find?_some hspace
      dsimp only [Option.getD_some]
      split
      · next hname =>
        rw [← hname, hg, hspace] at h
        exact h
      · exact h

theorem sameMetrics_applyToFont (cfg : Settings) (p : FontParam) (f : Font) :
    SameMetrics f (p.applyToFont cfg f) := by
  unfold FontParam.applyToFont
  split
  · exact ⟨rfl, rfl, rfl, rfl, fun _ _ h => h⟩
  · split
    · exact sameMetrics_withSpace f p.units
    · split <;> exact ⟨rfl, rfl, rfl, rfl, fun _ _ h => h⟩

theorem exists_fontParam (cfg : Settings) (p : FontParam) (s : State σ) :
    ∃ f sigma xi, p.apply cfg s = { s with font := f, sigma := sigma, xi := xi } ∧
      SameMetrics s.font f := by
  have hsame := sameMetrics_applyToFont cfg p s.font
  unfold FontParam.apply
  dsimp only
  split
  · split <;> exact ⟨_, _, _, rfl, hsame⟩
  · split <;> exact ⟨_, _, _, rfl, hsame⟩
  · exact ⟨_, _, _, rfl, hsame⟩

theorem exists_perform_fontdimen (e : Engine σ) (cfg : Settings) (params : List FontParam)
    (s : State σ) : ∃ f sigma xi,
      (perform e cfg (.fontdimen params) s).value.1 =
        { s with font := f, sigma := sigma, xi := xi } ∧ SameMetrics s.font f := by
  show ∃ f sigma xi, params.foldl (FontParam.apply cfg) s = _ ∧ _
  induction params generalizing s with
  | nil => exact ⟨s.font, s.sigma, s.xi, rfl, SameMetrics.refl _⟩
  | cons p params ih =>
      obtain ⟨f, sigma, xi, hp, hf⟩ := exists_fontParam cfg p s
      obtain ⟨f', sigma', xi', hps, hf'⟩ := ih (p.apply cfg s)
      refine ⟨f', sigma', xi', ?_, hf.trans (by rwa [hp] at hf')⟩
      rw [List.foldl_cons, hps, hp]

theorem exists_perform_designSize (e : Engine σ) (cfg : Settings) (size : Float) (s : State σ) :
    ∃ f, (perform e cfg (.designSize size) s).value.1 = s.withFont f ∧ SameMetrics s.font f := by
  show ∃ f, s.withDesignSize size = _ ∧ _
  unfold State.withDesignSize
  split
  · exact ⟨s.font, rfl, SameMetrics.refl _⟩
  · exact ⟨_, rfl, ⟨rfl, rfl, rfl, rfl, fun _ _ h => h⟩⟩

/-! ## lookups -/

/-- A command leaves the lookups alone, or puts an anchor class into one for marks. -/
theorem lookups_perform (e : Engine σ) (cfg : Settings) (c : Command) (s : State σ) :
    (perform e cfg c s).value.1.font.lookups = s.font.lookups ∨
      ∃ (feature : MarkFeature) (anchorClass : String),
        (perform e cfg c s).value.1.font.lookups =
          s.font.lookups.changeInRun cfg feature.lookup feature.lookup.subtableBase
            (·.addAnchorClass anchorClass) := by
  cases c with
  | picture p =>
      obtain ⟨ps, engine, hs⟩ := exists_perform_picture e cfg p s
      exact .inl (by rw [hs])
  | edit x =>
      obtain ⟨ps, engine, hs⟩ := exists_perform_edit e cfg x s
      exact .inl (by rw [hs])
  | ship x =>
      left
      show (ship e cfg x s).value.1.font.lookups = _
      rw [value_ship]
      cases hg : (s.shipOutcome cfg x).glyph? with
      | some g =>
          obtain ⟨ps, engine, o, hs⟩ := State.exists_afterGlyph e cfg s g
          rw [State.afterShipment_of_some hg, hs]
          rfl
      | none =>
          obtain ⟨ps, engine, hs⟩ := State.exists_afterNoGlyph e cfg s x
          rw [State.afterShipment_of_none hg, hs]
          rfl
  | fontdimen params =>
      obtain ⟨f, sigma, xi, hs, hf⟩ := exists_perform_fontdimen e cfg params s
      exact .inl (by rw [hs, hf.lookups])
  | designSize size =>
      obtain ⟨f, hs, hf⟩ := exists_perform_designSize e cfg size s
      exact .inl (by rw [hs, State.withFont, hf.lookups])
  | anchor feature a => exact .inr ⟨feature, a.anchorClass, rfl⟩
  | font edit => cases edit <;> exact .inl rfl
  | _ => exact .inl rfl

/-! ## constructs -/

/-- The command that a construct carries out. -/
def Construct.command? (cfg : Settings) (k : Construct) : Option Command :=
  match k.isDisabled cfg, k.command with
  | false, .ok c => some c
  | _, _ => none

theorem Construct.command?_eq_some {cfg : Settings} {k : Construct} {c : Command} :
    k.command? cfg = some c ↔ k.isDisabled cfg = false ∧ k.command = .ok c := by
  unfold command?
  cases k.isDisabled cfg <;> cases k.command <;> simp

theorem Construct.shipment?_eq (cfg : Settings) (k : Construct) :
    k.shipment? cfg = match k.command? cfg with
      | some (.ship x) => some x
      | _ => none := by
  unfold shipment? command?
  cases k.isDisabled cfg with
  | true => rfl
  | false =>
      cases k.command with
      | error reason => rfl
      | ok c => cases c <;> rfl

/-- A construct does what its command does, or nothing, and says why it is left out. -/
theorem step_cases (e : Engine σ) (cfg : Settings) (s : State σ) (k : Construct) :
    (k.command? cfg = none ∧
      ∃ reasons, (State.step e cfg s k).value = { s with skipped := reasons }) ∨
    ∃ c, k.command? cfg = some c ∧ ∃ reasons, (State.step e cfg s k).value =
      { (perform e cfg c s).value.1 with skipped := reasons } := by
  rw [value_step]
  unfold Construct.perform Construct.command?
  cases k.isDisabled cfg with
  | true => exact .inl ⟨rfl, _, rfl⟩
  | false =>
      cases k.command with
      | error reason => exact .inl ⟨rfl, _, rfl⟩
      | ok c => exact .inr ⟨c, rfl, _, rfl⟩

/-! ## replays -/

theorem follow_nil (e : Engine σ) (cfg : Settings) (s : State σ) :
    (s.follow e cfg []).value = s := rfl

theorem follow_cons (e : Engine σ) (cfg : Settings) (s : State σ) (k : Construct)
    (script : Script) : (s.follow e cfg (k :: script)).value =
      ((State.step e cfg s k).value.follow e cfg script).value := by
  rw [value_follow, value_follow, List.foldl_cons]

theorem follow_append (e : Engine σ) (cfg : Settings) (s : State σ) (script script' : Script) :
    (s.follow e cfg (script ++ script')).value =
      ((s.follow e cfg script).value.follow e cfg script').value := by
  rw [value_follow, value_follow, value_follow, List.foldl_append]

/-- What every command keeps, and what does not depend on the list of what was
left out, a replay keeps. -/
theorem follow_keeps {e : Engine σ} {cfg : Settings} {P : State σ → Prop}
    (hskipped : ∀ s reasons, P s → P { s with skipped := reasons })
    (hperform : ∀ c s, P s → P (perform e cfg c s).value.1) (script : Script) {s : State σ}
    (h : P s) : P (s.follow e cfg script).value := by
  induction script generalizing s with
  | nil => exact h
  | cons k script ih =>
      rw [follow_cons]
      refine ih ?_
      rcases step_cases e cfg s k with ⟨-, reasons, hs⟩ | ⟨c, -, reasons, hs⟩
      · rw [hs]
        exact hskipped s reasons h
      · rw [hs]
        exact hskipped _ reasons (hperform c s h)

/-- Every construct of a trace was read from its first record. -/
theorem Script.exists_construct {c : Cursor} {k : Construct} (h : k ∈ Script.ofCursor c) :
    ∃ c', k = (Script.construct k.head c').1 := by
  induction c using Script.ofCursor.induct with
  | case1 c hnil =>
      rw [Script.ofCursor, hnil] at h
      cases h
  | case2 c r rest hcons next ih =>
      obtain ⟨_, line⟩ := c
      cases hcons
      rw [Script.ofCursor_cons] at h
      rcases List.mem_cons.mp h with rfl | hk
      · exact ⟨_, rfl⟩
      · exact ih hk

end FontTrace
