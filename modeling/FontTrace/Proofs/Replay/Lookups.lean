import FontTrace.Proofs.Replay.Effect

/-!
# FontTrace.Proofs.Replay.Lookups

Lookups during a replay.  Glyphs, pictures and tables are made without a look at the
lookups of the font, so a state with other lookups goes the same way; only anchors put
something into them.

* `IgnoresLookups` — an update that does the same whatever the lookups are;
* `perform_withLookups` — all commands but anchors are such, and leave the lookups alone;
* `lookups_perform_of_not_anchor` — the last part on its own.
-/

namespace FontTrace

variable {σ : Type}

/-- The state with other lookups in its font. -/
def State.withLookups (s : State σ) (ls : Lookups) : State σ :=
  { s with font := { s.font with lookups := ls } }

/-- Whether a command gives an anchor. -/
def Command.isAnchor : Command → Bool
  | .anchor _ _ => true
  | _ => false

/-! ## updates -/

/-- An update that does the same whatever the lookups are. -/
def IgnoresLookups (u : Update σ) : Prop :=
  ∀ s ls, (u (s.withLookups ls)).value = (u s).value.map (·.withLookups ls)

theorem ignoresLookups_rearrange (f : Pictures → Except Skip Pictures) :
    IgnoresLookups (σ := σ) (rearrange f) := by
  intro s ls
  show (f s.pictures).map _ = ((f s.pictures).map _).map _
  cases f s.pictures <;> rfl

theorem ignoresLookups_redraw (name : String)
    (f : Outline → Except Skip (StateT σ Noted Outline)) : IgnoresLookups (redraw name f) := by
  intro s ls
  have hpictures : (s.withLookups ls).pictures = s.pictures := rfl
  unfold redraw
  rw [hpictures]
  cases Pictures.get s.pictures name with
  | error reason => rfl
  | ok p =>
      dsimp only
      cases f p.outline <;> rfl

theorem ignoresLookups_picture (e : Engine σ) (cfg : Settings) (c : PictureCommand) :
    IgnoresLookups (c.perform e cfg) := by
  cases c with
  | declare names => exact ignoresLookups_rearrange _
  | equate eqn => exact ignoresLookups_rearrange _
  | addPicture target source m reversed => exact ignoresLookups_rearrange _
  | addPath target k => exact ignoresLookups_redraw _ _
  | cull name range weight => exact ignoresLookups_redraw _ _

theorem ignoresLookups_edit (e : Engine σ) (edit : PictureEdit) :
    IgnoresLookups (edit.perform e) := by
  intro s ls
  have hpictures : (s.withLookups ls).pictures = s.pictures := rfl
  unfold PictureEdit.perform
  rw [hpictures]
  cases Pictures.get s.pictures edit.picture <;> rfl

theorem atomically_withLookups {u : Update σ} (hu : IgnoresLookups u) (s : State σ)
    (ls : Lookups) : (atomically u (s.withLookups ls)).value =
      ((atomically u s).value.1.withLookups ls, (atomically u s).value.2) := by
  rw [value_atomically, value_atomically, hu s ls]
  cases (u s).value <;> rfl

/-! ## shipments -/

namespace State

theorem tidy_withLookups (e : Engine σ) (cfg : Settings) (name : String) (s : State σ)
    (ls : Lookups) : (s.withLookups ls).tidy e cfg name =
      ((s.tidy e cfg name).1, (s.tidy e cfg name).2.withLookups ls) := by
  have hpictures : (s.withLookups ls).pictures = s.pictures := rfl
  rw [tidy, tidy, hpictures]
  cases Pictures.get s.pictures name <;> rfl

theorem afterShipment_withLookups (e : Engine σ) (cfg : Settings) (s : State σ) (ls : Lookups)
    (x : Except Skip Shipment) :
    (s.withLookups ls).afterShipment e cfg x = (s.afterShipment e cfg x).withLookups ls := by
  have houtcome : (s.withLookups ls).shipOutcome cfg x = s.shipOutcome cfg x := rfl
  have hcleared : (s.withLookups ls).cleared = s.cleared.withLookups ls := rfl
  rw [afterShipment, afterShipment, houtcome]
  cases (s.shipOutcome cfg x).glyph? with
  | some g =>
      dsimp only
      rw [afterGlyph, afterGlyph, hcleared, tidy_withLookups]
      rfl
  | none =>
      cases x with
      | error reason => rfl
      | ok sh => exact congrArg Prod.snd (tidy_withLookups e cfg sh.picture s.cleared ls)

end State

/-! ## commands -/

theorem fontParam_withLookups (cfg : Settings) (p : FontParam) (s : State σ) (ls : Lookups) :
    p.apply cfg (s.withLookups ls) = (p.apply cfg s).withLookups ls := by
  have hfont : p.applyToFont cfg { s.font with lookups := ls } =
      { p.applyToFont cfg s.font with lookups := ls } := by
    unfold FontParam.applyToFont
    split
    · rfl
    · split
      · rfl
      · split <;> rfl
  have hstate : (s.withLookups ls).withFont (p.applyToFont cfg (s.withLookups ls).font) =
      (s.withFont (p.applyToFont cfg s.font)).withLookups ls :=
    congrArg (s.withLookups ls).withFont hfont
  unfold FontParam.apply
  rw [hstate]
  dsimp only
  split
  · split <;> rfl
  · split <;> rfl
  · rfl

theorem fontParams_withLookups (cfg : Settings) (params : List FontParam) (s : State σ)
    (ls : Lookups) : params.foldl (FontParam.apply cfg) (s.withLookups ls) =
      (params.foldl (FontParam.apply cfg) s).withLookups ls := by
  induction params generalizing s with
  | nil => rfl
  | cons p params ih => rw [List.foldl_cons, fontParam_withLookups, ih, List.foldl_cons]

/-- A command that gives no anchor does the same whatever the lookups are, and leaves
them alone. -/
theorem perform_withLookups (e : Engine σ) (cfg : Settings) {c : Command}
    (h : c.isAnchor = false) (s : State σ) (ls : Lookups) :
    (perform e cfg c (s.withLookups ls)).value =
      ((perform e cfg c s).value.1.withLookups ls, (perform e cfg c s).value.2) := by
  cases c with
  | anchor feature a => cases h
  | picture c =>
      have hsame := atomically_withLookups (ignoresLookups_picture e cfg c) s ls
      show (performPicture e cfg c (s.withLookups ls)).value = _
      rw [performPicture, Noted.value_bind, hsame]
      rfl
  | edit edit => exact atomically_withLookups (ignoresLookups_edit e edit) s ls
  | ship x =>
      show (ship e cfg x (s.withLookups ls)).value =
        ((ship e cfg x s).value.1.withLookups ls, (ship e cfg x s).value.2)
      rw [value_ship, value_ship, State.afterShipment_withLookups]
      rfl
  | fontdimen params =>
      show (params.foldl (FontParam.apply cfg) (s.withLookups ls), none) = _
      rw [fontParams_withLookups]
      rfl
  | designSize size =>
      show ((s.withLookups ls).withDesignSize size, none) =
        ((s.withDesignSize size).withLookups ls, _)
      unfold State.withDesignSize
      split <;> rfl
  | font edit => cases edit <;> rfl
  | _ => rfl

/-- Lookups change in front of the end only if an anchor is given. -/
theorem lookups_perform_of_not_anchor (e : Engine σ) (cfg : Settings) {c : Command}
    (h : c.isAnchor = false) (s : State σ) :
    (perform e cfg c s).value.1.font.lookups = s.font.lookups := by
  have hsame := congrArg (fun r => r.1.font.lookups)
    (perform_withLookups e cfg h s s.font.lookups)
  exact hsame

end FontTrace
