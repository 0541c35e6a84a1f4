import FontTrace.Proofs.Replay.Composition
import FontTrace.Proofs.Shipment.Attachment
import FontTrace.Proofs.Shipment.PendingLigature
import FontTrace.Proofs.Trace.Complete

/-!
# FontTrace.Proofs.Replay.Exchange

Feature tables before and after the glyphs they name.  A ligature table, a list
of variants and an extensible character go into tables that wait for the end of
the trace, with operands that nobody has looked at yet; a shipment adds to the
same tables and looks at none of them.  So the two can change places.

* `Tables.Exchangeable` — an edit of the tables that may as well come behind a glyph;
* `exists_follow_of_fillsTables`, `exists_follow_of_ships` — what scripts of the two kinds
  do to a state;
* `follow_exchange` — scripts of the one kind and of the other, in both orders;
* `run_exchange` — the same for the records of a feature table and of a shipment.
-/

namespace FontTrace

variable {σ : Type}

/-! ## edits of the tables -/

/-- The state with its tables edited, and another list of what was left out. -/
def State.tabled (s : State σ) (f : Tables → Tables) (reasons : List Skip) : State σ :=
  { s with tables := f s.tables, skipped := reasons }

namespace Tables

/-- An edit of the tables that comes to the same in front of a glyph and behind it. -/
def Exchangeable (f : Tables → Tables) : Prop :=
  ∀ t glyph alternate references g,
    f (afterGlyph t glyph alternate references g) = afterGlyph (f t) glyph alternate references g

theorem exchangeable_id : Exchangeable id := fun _ _ _ _ _ => rfl

theorem Exchangeable.comp {f f' : Tables → Tables} (h : Exchangeable f) (h' : Exchangeable f') :
    Exchangeable (f' ∘ f) := by
  intro t glyph alternate references g
  rw [Function.comp_apply, h, h', Function.comp_apply]

theorem exchangeable_addCharlist (c : Charlist) : Exchangeable (·.addCharlist c) :=
  fun _ _ _ _ _ => rfl

theorem exchangeable_addExtensible (x : Extensible) : Exchangeable (·.addExtensible x) :=
  fun _ _ _ _ _ => rfl

end Tables

namespace LigtableProgram

theorem exchangeable_apply (p : LigtableProgram) : Tables.Exchangeable p.apply := by
  intro t glyph alternate references g
  unfold apply
  dsimp only
  split
  · rfl
  · have hmade : ((p.run t.ligatureFeature t.skipped).ligatures.map (·.settled glyph)) =
        (p.run t.ligatureFeature t.skipped).ligatures := by
      refine (List.map_congr_left fun l hl => ?_).trans (List.map_id _)
      obtain ⟨c, hc⟩ := exists_operand_of_mem_run hl
      exact LigatureRule.settled_of_not_isPending (by rw [LigatureRule.isPending, hc]; rfl) glyph
    simp only [Tables.afterGlyph, List.map_append, hmade]

end LigtableProgram

/-! ## constructs -/

namespace Construct

/-- A construct that fills tables edits them, whatever the state is. -/
theorem exists_step_of_fillsTables (e : Engine σ) (cfg : Settings) {k : Construct}
    (h : k.Only Command.fillsTables) :
    ∃ f reasons, Tables.Exchangeable f ∧
      ∀ s : State σ, (State.step e cfg s k).value = s.tabled f (s.skipped ++ reasons) := by
  simp only [value_step]
  unfold perform
  cases k.isDisabled cfg with
  | true => exact ⟨id, _, Tables.exchangeable_id, fun s => rfl⟩
  | false =>
      cases hcommand : k.command with
      | error reason => exact ⟨id, [reason], Tables.exchangeable_id, fun s => rfl⟩
      | ok c =>
          have haccepted := h.command c hcommand
          cases c with
          | ligtable p => exact ⟨p.apply, p.fault.toList, p.exchangeable_apply, fun s => rfl⟩
          | charlist c => exact ⟨_, [], Tables.exchangeable_addCharlist c, fun s => rfl⟩
          | extensible x => exact ⟨_, [], Tables.exchangeable_addExtensible x, fun s => rfl⟩
          | _ => cases haccepted

end Construct

namespace State

variable {f : Tables → Tables}

theorem tidy_tabled (e : Engine σ) (cfg : Settings) (name : String) (s : State σ)
    (f : Tables → Tables) (reasons : List Skip) :
    (s.tabled f reasons).tidy e cfg name =
      ((s.tidy e cfg name).1, (s.tidy e cfg name).2.tabled f reasons) := by
  have hpictures : (s.tabled f reasons).pictures = s.pictures := rfl
  rw [tidy, tidy, hpictures]
  cases Pictures.get s.pictures name <;> rfl

theorem commit_tabled (e : Engine σ) (cfg : Settings) (hf : Tables.Exchangeable f)
    (reasons : List Skip) (id : GlyphIdentity) (alternate : Option Replacement) (box : CharBox)
    (g : Scratch) (o : Outline) (s : State σ) :
    (commit e cfg id alternate box g o (s.tabled f reasons)).value =
      (commit e cfg id alternate box g o s).value.tabled f reasons := by
  -- The references are looked up in the font, so they are the same for all tables.
  have htables := hf s.tables id.name alternate
    (referencesFor cfg s.font id.name g.references).value g
  unfold commit
  simp only [Noted.value_bind]
  exact congrArg (fun t => (commit e cfg id alternate box g o s).value.tabled (fun _ => t) reasons)
    htables.symm

theorem afterGlyph_tabled (e : Engine σ) (cfg : Settings) (hf : Tables.Exchangeable f)
    (s : State σ) (reasons : List Skip) (g : ShippedGlyph) :
    (s.tabled f reasons).afterGlyph e cfg g = (s.afterGlyph e cfg g).tabled f reasons := by
  have htidy := tidy_tabled e cfg g.shipment.picture s.cleared f reasons
  have hcleared : (s.tabled f reasons).cleared = s.cleared.tabled f reasons := rfl
  rw [afterGlyph, afterGlyph, hcleared, htidy]
  exact commit_tabled e cfg hf reasons g.id g.alternate g.shipment.box s.scratch _ _

/-- A shipment looks at no table, and not at what was left out. -/
theorem afterShipment_tabled (e : Engine σ) (cfg : Settings) (hf : Tables.Exchangeable f)
    (s : State σ) (reasons : List Skip) (x : Except Skip Shipment) :
    (s.tabled f reasons).afterShipment e cfg x = (s.afterShipment e cfg x).tabled f reasons := by
  have houtcome : (s.tabled f reasons).shipOutcome cfg x = s.shipOutcome cfg x := rfl
  rw [afterShipment, afterShipment, houtcome]
  cases (s.shipOutcome cfg x).glyph? with
  | some g => exact afterGlyph_tabled e cfg hf s reasons g
  | none =>
      cases x with
      | error reason => rfl
      | ok sh => exact congrArg Prod.snd (tidy_tabled e cfg sh.picture s.cleared f reasons)

end State

/-- A construct that ships a picture out does the same whatever the tables are. -/
theorem Construct.exists_step_of_ships (e : Engine σ) (cfg : Settings) {k : Construct}
    (h : k.Only Command.ships) (s : State σ) :
    ∃ reasons, (State.step e cfg s k).value.skipped = s.skipped ++ reasons ∧
      ∀ f before, Tables.Exchangeable f →
        (State.step e cfg (s.tabled f before) k).value =
          (State.step e cfg s k).value.tabled f (before ++ reasons) := by
  by_cases hx : ∃ x, k.shipment? cfg = some x
  · obtain ⟨x, hx⟩ := hx
    refine ⟨(s.shipOutcome cfg x).skip?.toList, by rw [value_step_of_shipment e s hx], ?_⟩
    intro f before hf
    rw [value_step_of_shipment e _ hx, value_step_of_shipment e _ hx,
      State.afterShipment_tabled e cfg hf]
    rfl
  · have hnone : ∃ reason, ∀ s : State σ, k.perform e cfg s = pure (s, some reason) := by
      unfold perform
      unfold shipment? at hx
      cases hon : k.isDisabled cfg with
      | true => exact ⟨_, fun s => rfl⟩
      | false =>
          cases hcommand : k.command with
          | error reason => exact ⟨reason, fun s => rfl⟩
          | ok c =>
              have haccepted := h.command c hcommand
              rw [hcommand] at hx
              cases c with
              | ship x => exact absurd ⟨x, by rw [hon]⟩ hx
              | _ => cases haccepted
    obtain ⟨reason, hreason⟩ := hnone
    simp only [value_step, hreason]
    exact ⟨[reason], rfl, fun f before hf => rfl⟩

/-! ## scripts -/

theorem exists_follow_of_fillsTables (e : Engine σ) (cfg : Settings) {script : Script}
    (h : ∀ k ∈ script, k.Only Command.fillsTables) :
    ∃ f reasons, Tables.Exchangeable f ∧
      ∀ s : State σ, (s.follow e cfg script).value = s.tabled f (s.skipped ++ reasons) := by
  induction script with
  | nil =>
      refine ⟨id, [], Tables.exchangeable_id, fun s => ?_⟩
      rw [follow_nil, List.append_nil]
      rfl
  | cons k script ih =>
      obtain ⟨f, reasons, hf, hstep⟩ :=
        Construct.exists_step_of_fillsTables e cfg (h k List.mem_cons_self)
      obtain ⟨f', reasons', hf', hfollow⟩ := ih fun k' hk' => h k' (List.mem_cons_of_mem _ hk')
      refine ⟨f' ∘ f, reasons ++ reasons', hf.comp hf', fun s => ?_⟩
      rw [follow_cons, hfollow, hstep, ← List.append_assoc]
      rfl

theorem exists_follow_of_ships (e : Engine σ) (cfg : Settings) {script : Script}
    (h : ∀ k ∈ script, k.Only Command.ships) (s : State σ) :
    ∃ reasons, (s.follow e cfg script).value.skipped = s.skipped ++ reasons ∧
      ∀ f before, Tables.Exchangeable f →
        ((s.tabled f before).follow e cfg script).value =
          (s.follow e cfg script).value.tabled f (before ++ reasons) := by
  induction script generalizing s with
  | nil =>
      refine ⟨[], by rw [follow_nil, List.append_nil], fun f before _ => ?_⟩
      rw [follow_nil, follow_nil, List.append_nil]
  | cons k script ih =>
      obtain ⟨reasons, hskipped, hstep⟩ :=
        Construct.exists_step_of_ships e cfg (h k List.mem_cons_self) s
      obtain ⟨reasons', hskipped', hfollow⟩ :=
        ih (fun k' hk' => h k' (List.mem_cons_of_mem _ hk')) (State.step e cfg s k).value
      refine ⟨reasons ++ reasons', ?_, fun f before hf => ?_⟩
      · rw [follow_cons, hskipped', hskipped, List.append_assoc]
      · rw [follow_cons, follow_cons, hstep f before hf, hfollow f _ hf, List.append_assoc]

/-- States that differ at most in the order of what was left out. -/
structure State.SameButOrder (s s' : State σ) : Prop where
  unreported : s.unreported = s'.unreported
  skipped : s.skipped.Perm s'.skipped

/-- Scripts that fill tables and scripts that ship pictures out change places. -/
theorem follow_exchange (e : Engine σ) (cfg : Settings) (s : State σ) {script script' : Script}
    (h : ∀ k ∈ script, k.Only Command.fillsTables) (h' : ∀ k ∈ script', k.Only Command.ships) :
    State.SameButOrder (s.follow e cfg (script ++ script')).value
      (s.follow e cfg (script' ++ script)).value := by
  obtain ⟨f, reasons, hf, hfills⟩ := exists_follow_of_fillsTables e cfg h
  obtain ⟨reasons', hskipped, hships⟩ := exists_follow_of_ships e cfg h' s
  rw [follow_append, follow_append, hfills, hships f _ hf, hfills, hskipped]
  refine ⟨rfl, ?_⟩
  show (s.skipped ++ reasons ++ reasons').Perm (s.skipped ++ reasons' ++ reasons)
  rw [List.append_assoc, List.append_assoc]
  exact List.perm_append_comm.append_left _

/-! ## records -/

/-- The constructs of two traces that lack nothing, one behind the other. -/
theorem value_run_append {accept : Command → Bool} (e : Engine σ) (cfg : Settings) (s : State σ)
    {first second : List Record}
    (hfirst : ∀ k ∈ Script.ofRecords first, k.Only accept) (hsecond : StartsAfresh second) :
    (s.run e cfg (first ++ second)).value =
      (s.follow e cfg (Script.ofRecords first ++ Script.ofRecords second)).value := by
  refine value_follow_of_contents_eq ?_ e cfg s
  rw [Script.contents, Script.contents, List.map_append]
  exact Script.contents_append (c := Cursor.start first) rfl hsecond fun k hk => (hfirst k hk).whole

/-- Finishing a font does not look at what was left out. -/
theorem State.SameButOrder.finish_eq {s s' : State σ} (h : s.SameButOrder s') (e : Engine σ)
    (cfg : Settings) : finish e cfg s = finish e cfg s' := by
  calc finish e cfg s
      = finish e cfg s.unreported := rfl
    _ = finish e cfg s' := by rw [h.unreported]; rfl

/-- A feature table and a shipment, in whichever order: the states are the same,
but for the order of what was left out, and so is the finished font. -/
theorem run_exchange (e : Engine σ) (cfg : Settings) (s : State σ) {table shipment : List Record}
    (htable : FeatureTable table) (hshipment : ShippedPicture shipment) :
    State.SameButOrder (s.run e cfg (table ++ shipment)).value
        (s.run e cfg (shipment ++ table)).value ∧
      finish e cfg (s.run e cfg (table ++ shipment)).value =
        finish e cfg (s.run e cfg (shipment ++ table)).value := by
  have hsame : State.SameButOrder (s.run e cfg (table ++ shipment)).value
      (s.run e cfg (shipment ++ table)).value := by
    rw [value_run_append e cfg s htable.script hshipment.startsAfresh,
      value_run_append e cfg s hshipment.script htable.startsAfresh]
    exact follow_exchange e cfg s htable.script hshipment.script
  exact ⟨hsame, hsame.finish_eq e cfg⟩

/-- A ligature and a kern of the letter that is shipped. -/
theorem run_exchange_of_letter :
    let table : List Record := [⟨"ligtable", none, "10>> \"f\""⟩, ⟨":", none, "\"i\""⟩,
      ⟨"=:", none, "12>> \"f\""⟩, ⟨"kern", none, "1"⟩]
    let shipment : List Record := [⟨"shipout", none, "10>> 102>> 0>> 30>> 70>> 2>> 0>> 0>> 0>> 0>> 0"⟩,
      ⟨"pic", none, "\"nullpicture\""⟩]
    let s := State.initial () {} .unicode
    FeatureTable table ∧ ShippedPicture shipment ∧
      State.SameButOrder (s.run Engine.basic {} (table ++ shipment)).value
        (s.run Engine.basic {} (shipment ++ table)).value ∧
      finish Engine.basic {} (s.run Engine.basic {} (table ++ shipment)).value =
        finish Engine.basic {} (s.run Engine.basic {} (shipment ++ table)).value := by
  intro table shipment s
  have htable : FeatureTable table := .ligtable _ _ (by decide +kernel) (by decide +kernel)
  have hshipment : ShippedPicture shipment := .shipout _ _ (by decide +kernel) (by decide +kernel)
  exact ⟨htable, hshipment, run_exchange Engine.basic {} s htable hshipment⟩

end FontTrace
