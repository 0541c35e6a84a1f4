import FontTrace.Engine.Basic
import FontTrace.Proofs.Trace.Boundary
import FontTrace.Replay

/-!
# FontTrace.Proofs.Replay.Step

What one construct does to the state of a replay, and what it leaves alone.

* `BeforeLast` — where something is in a list for the last time;
* `frame_perform` — what only ligature tables may change;
* `Construct.perform_cases` — a construct is left out or is what its command is;
* `skipped_perform` — a command never touches the list of what was left out,
  and `value_step` — the reason of a construct comes behind it;
* `value_follow` — the notices of a replay do not influence where it ends;
* `eq_of_skip_construct` — a construct that is left out has changed nothing.
-/

namespace FontTrace

variable {σ : Type}

/-! ## the last time in a list -/

/-- What comes before the last time that something is in a list.  Where names are given
values one after the other, it is the last time that counts. -/
def BeforeLast {α : Type} (a : α) (as before : List α) : Prop :=
  ∃ after, as = before ++ a :: after ∧ a ∉ after

theorem exists_beforeLast {α : Type} {a : α} {as : List α} (h : a ∈ as) :
    ∃ before, BeforeLast a as before := by
  obtain ⟨back, front, hsplit, hback⟩ := List.eq_append_cons_of_mem (List.mem_reverse.mpr h)
  refine ⟨front.reverse, back.reverse, ?_, by simpa using hback⟩
  rw [← List.reverse_reverse as, hsplit]
  simp

theorem BeforeLast.mem {α : Type} {a : α} {as before : List α} (h : BeforeLast a as before) :
    a ∈ as := by
  obtain ⟨after, rfl, -⟩ := h
  exact List.mem_append_right before List.mem_cons_self

/-- The last time is at the end of a list, or it was the last time already. -/
theorem BeforeLast.of_concat {α : Type} {a b : α} {as before : List α}
    (h : BeforeLast a (as ++ [b]) before) :
    (b = a ∧ before = as) ∨ (b ≠ a ∧ BeforeLast a as before) := by
  obtain ⟨after, hsplit, hlast⟩ := h
  rcases List.eq_nil_or_concat after with rfl | ⟨after, last, rfl⟩
  · obtain ⟨hbefore, hb⟩ := List.append_inj' hsplit rfl
    exact .inl ⟨(List.cons.inj hb).1, hbefore.symm⟩
  · rw [List.concat_eq_append, ← List.cons_append, ← List.append_assoc] at hsplit
    obtain ⟨has, hb⟩ := List.append_inj' hsplit rfl
    rw [List.concat_eq_append, List.mem_append, List.mem_singleton, not_or] at hlast
    rw [(List.cons.inj hb).1]
    exact .inr ⟨Ne.symm hlast.2, after, has, hlast.1⟩

/-! ## the commands that a record may start -/

/-- What is made of the contents of a command. -/
theorem Command.exists_of_run_of {α : Type} {make : α → Command} {x : Reader Skip α} {c : Cursor}
    {cmd : Command} (h : ((Command.of make x).run c).1 = .ok cmd) : ∃ a, cmd = make a := by
  rw [Command.of, Reader.run_map] at h
  cases hx : (x.run c).1 with
  | ok a =>
      rw [hx] at h
      exact ⟨a, (Except.ok.inj h).symm⟩
  | error k =>
      rw [hx] at h
      cases h

theorem Command.run_of_ok {α : Type} (make : α → Command) {x : Reader Skip α} {c : Cursor} {a : α}
    (h : (x.run c).1 = .ok a) : ((Command.of make x).run c).1 = .ok (make a) := by
  rw [Command.of, Reader.run_map, h]
  rfl

theorem Command.exists_of_run_single {α : Type} {make : α → Command} {x : Except Skip α}
    {c : Cursor} {cmd : Command} (h : ((Command.single make x).run c).1 = .ok cmd) :
    ∃ a, cmd = make a := Command.exists_of_run_of h

/-- A shipment starts with its own kind of record, and so does a ligature table. -/
theorem Command.op_of_read {r : Record} {c : Cursor} {cmd : Command}
    (h : ((Command.read r).run c).1 = .ok cmd) :
    (∀ s, cmd = .ship s → r.op = .shipout) ∧ (∀ p, cmd = .ligtable p → r.op = .ligtable) := by
  unfold Command.read at h
  cases hop : r.op <;> rw [hop] at h <;> dsimp only at h
  case shipout =>
    obtain ⟨s, rfl⟩ := Command.exists_of_run_of h
    exact ⟨fun _ _ => rfl, fun _ hp => (by cases hp)⟩
  case ligtable =>
    obtain ⟨p, rfl⟩ := Command.exists_of_run_of h
    exact ⟨fun _ hs => (by cases hs), fun _ _ => rfl⟩
  case ascii | picture | ligtableSwitch =>
    cases h
    exact ⟨fun _ hs => (by cases hs), fun _ hp => (by cases hp)⟩
  case addto | cull | pictureEquation | fontdimen | charlist | extensible =>
    obtain ⟨a, rfl⟩ := Command.exists_of_run_of h
    exact ⟨fun _ hs => (by cases hs), fun _ hp => (by cases hp)⟩
  case designSize | attachmentPoint | font | glyph | ligatureComponents | ligatureCarets |
      outline =>
    obtain ⟨a, rfl⟩ := Command.exists_of_run_single h
    exact ⟨fun _ hs => (by cases hs), fun _ hp => (by cases hp)⟩
  all_goals cases h

/-! ## updates -/

theorem value_atomically (u : Update σ) (s : State σ) :
    (atomically u s).value = match (u s).value with
      | .ok s' => (s', none)
      | .error k => (s, some k) := by
  unfold atomically
  rw [Noted.value_bind]
  cases (u s).value <;> rfl

/-- An update that changes no more than pictures and the engine. -/
def OnPictures (u : Update σ) : Prop :=
  ∀ s s', (u s).value = .ok s' → ∃ ps engine, s' = { s with pictures := ps, engine := engine }

theorem onPictures_rearrange (f : Pictures → Except Skip Pictures) :
    OnPictures (σ := σ) (rearrange f) := by
  intro s s' h
  rw [rearrange, Noted.value_pure] at h
  cases hf : f s.pictures with
  | error k =>
      rw [hf] at h
      cases h
  | ok ps =>
      rw [hf] at h
      cases h
      exact ⟨ps, s.engine, rfl⟩

theorem onPictures_redraw (name : String)
    (f : Outline → Except Skip (StateT σ Noted Outline)) : OnPictures (redraw name f) := by
  intro s s' h
  unfold redraw at h
  split at h
  · cases h
  · split at h
    · cases h
    · cases h
      exact ⟨_, _, rfl⟩

theorem onPictures_picture (e : Engine σ) (cfg : Settings) (c : PictureCommand) :
    OnPictures (c.perform e cfg) := by
  cases c with
  | declare names => exact onPictures_rearrange _
  | equate eqn => exact onPictures_rearrange _
  | addPicture target source m reversed => exact onPictures_rearrange _
  | addPath target k => exact onPictures_redraw _ _
  | cull name range weight => exact onPictures_redraw _ _

theorem onPictures_edit (e : Engine σ) (edit : PictureEdit) : OnPictures (edit.perform e) := by
  intro s s' h
  unfold PictureEdit.perform at h
  split at h
  · cases h
  · cases h
    exact ⟨_, _, rfl⟩

/-! ## what commands leave alone -/

/-- What no command but a ligature table changes. -/
structure Frame (s s' : State σ) : Prop where
  skipped : s'.skipped = s.skipped
  kerns : s'.tables.kerns = s.tables.kerns
  /-- The programs that wait for the place they skipped to. -/
  waiting : s'.tables.skipped = s.tables.skipped

theorem Frame.refl (s : State σ) : Frame s s := ⟨rfl, rfl, rfl⟩

theorem Frame.trans {s s' s'' : State σ} (h : Frame s s') (h' : Frame s' s'') : Frame s s'' :=
  ⟨h'.skipped.trans h.skipped, h'.kerns.trans h.kerns, h'.waiting.trans h.waiting⟩

theorem frame_atomically {u : Update σ} (hu : OnPictures u) (s : State σ) :
    Frame s (atomically u s).value.1 := by
  rw [value_atomically]
  cases hs : (u s).value with
  | error k => exact Frame.refl s
  | ok s' =>
      obtain ⟨ps, engine, rfl⟩ := hu s s' hs
      exact ⟨rfl, rfl, rfl⟩

theorem frame_ship (e : Engine σ) (cfg : Settings) (shipment : Except Skip Shipment)
    (s : State σ) : Frame s (ship e cfg shipment s).value.1 := by
  unfold ship
  cases shipment with
  | error k => exact ⟨rfl, rfl, rfl⟩
  | ok sh =>
      dsimp only
      unfold shipPicture
      split
      · exact ⟨rfl, rfl, rfl⟩
      · rw [Noted.value_bind]
        dsimp only
        split
        · exact ⟨rfl, rfl, rfl⟩
        · split <;> exact ⟨rfl, rfl, rfl⟩

theorem frame_fontParam (cfg : Settings) (s : State σ) (p : FontParam) :
    Frame s (p.apply cfg s) := by
  unfold FontParam.apply
  dsimp only
  split
  · split <;> exact ⟨rfl, rfl, rfl⟩
  · split <;> exact ⟨rfl, rfl, rfl⟩
  · exact ⟨rfl, rfl, rfl⟩

theorem frame_fontParams (cfg : Settings) (params : List FontParam) (s : State σ) :
    Frame s (params.foldl (FontParam.apply cfg) s) := by
  induction params generalizing s with
  | nil => exact Frame.refl s
  | cons p params ih => exact (frame_fontParam cfg s p).trans (ih _)

theorem frame_perform (e : Engine σ) (cfg : Settings) {c : Command} (h : ∀ p, c ≠ .ligtable p)
    (s : State σ) : Frame s (perform e cfg c s).value.1 := by
  cases c with
  | picture c =>
      show Frame s (performPicture e cfg c s).value.1
      rw [performPicture, Noted.value_bind]
      exact frame_atomically (onPictures_picture e cfg c) s
  | edit edit => exact frame_atomically (onPictures_edit e edit) s
  | ship shipment => exact frame_ship e cfg shipment s
  | ligtable p => exact absurd rfl (h p)
  | fontdimen params => exact frame_fontParams cfg params s
  | designSize size =>
      show Frame s (s.withDesignSize size)
      unfold State.withDesignSize
      split <;> exact ⟨rfl, rfl, rfl⟩
  | font edit =>
      show Frame s (edit.apply s)
      cases edit <;> exact ⟨rfl, rfl, rfl⟩
  | _ => exact ⟨rfl, rfl, rfl⟩

/-! ## one construct -/

/-- A construct is left out before it is looked at, or is what its command is. -/
theorem Construct.perform_cases (e : Engine σ) (cfg : Settings) (k : Construct) (s : State σ) :
    (∃ reason, k.perform e cfg s = pure (s, some reason)) ∨
      ∃ c, k.isDisabled cfg = false ∧ k.command = .ok c ∧
        k.perform e cfg s = FontTrace.perform e cfg c s := by
  unfold Construct.perform
  cases k.isDisabled cfg with
  | true => exact .inl ⟨_, rfl⟩
  | false =>
      cases k.command with
      | error reason => exact .inl ⟨reason, rfl⟩
      | ok c => exact .inr ⟨c, rfl, rfl, rfl⟩

/-- A record of no macro family starts a construct that cannot be switched off. -/
theorem Script.isDisabled_construct (cfg : Settings) {r : Record} (h : r.op.extension? = none)
    (c : Cursor) : (Script.construct r c).1.isDisabled cfg = false := by
  show r.op.extension?.any _ = false
  rw [h]
  rfl

theorem Script.perform_construct (e : Engine σ) (cfg : Settings) (s : State σ) {r : Record}
    {c : Cursor} {command : Command} (h : r.op.extension? = none)
    (hread : ((Command.read r).run c).1 = .ok command) :
    (Script.construct r c).1.perform e cfg s = FontTrace.perform e cfg command s := by
  have hcommand : (Script.construct r c).1.command = .ok command := hread
  rw [Construct.perform, Script.isDisabled_construct cfg h, hcommand]
  rfl

/-- A command does not touch the list of what was left out before. -/
theorem skipped_perform (e : Engine σ) (cfg : Settings) (c : Command) (s : State σ) :
    (perform e cfg c s).value.1.skipped = s.skipped := by
  cases c with
  | ligtable p => rfl
  | _ => exact (frame_perform e cfg (by intro p h; cases h) s).skipped

theorem skipped_construct (e : Engine σ) (cfg : Settings) (k : Construct) (s : State σ) :
    (k.perform e cfg s).value.1.skipped = s.skipped := by
  rcases k.perform_cases e cfg s with ⟨reason, h⟩ | ⟨c, -, -, h⟩
  · rw [h, Noted.value_pure]
  · rw [h]
    exact skipped_perform e cfg c s

/-- The state after a construct: its effect, and its reason behind those of
the constructs before it. -/
theorem value_step (e : Engine σ) (cfg : Settings) (s : State σ) (k : Construct) :
    (State.step e cfg s k).value =
      { (k.perform e cfg s).value.1 with
        skipped := s.skipped ++ (k.perform e cfg s).value.2.toList } := by
  have hskipped := skipped_construct e cfg k s
  unfold State.step
  rw [Noted.value_bind]
  rcases hk : (k.perform e cfg s).value with ⟨s', reason⟩
  rw [hk] at hskipped
  cases reason with
  | none =>
      show s' = { s' with skipped := s.skipped ++ [] }
      rw [List.append_nil, ← hskipped]
  | some reason =>
      rw [← hskipped]
      rfl

/-! ## whole replays -/

theorem value_foldlM {α β : Type} (f : β → α → Noted β) (b : β) (as : List α) :
    (as.foldlM f b).value = as.foldl (fun b a => (f b a).value) b := by
  induction as generalizing b with
  | nil => rfl
  | cons a as ih =>
      rw [List.foldlM_cons, Noted.value_bind, ih]
      rfl

theorem value_mapM {α β : Type} (f : α → Noted β) (as : List α) :
    (as.mapM f).value = as.map fun a => (f a).value := by
  induction as with
  | nil => rfl
  | cons a as ih =>
      rw [List.mapM_cons, Noted.value_bind, Noted.value_bind, ih]
      rfl

/-- The state after a script, without the notices on the way. -/
theorem value_follow (e : Engine σ) (cfg : Settings) (s : State σ) (script : Script) :
    (s.follow e cfg script).value = script.foldl (fun s k => (State.step e cfg s k).value) s :=
  value_foldlM _ s script

/-! ## constructs that are left out -/

end FontTrace
