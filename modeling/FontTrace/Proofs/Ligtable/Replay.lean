import FontTrace.Engine.Basic
import FontTrace.Proofs.Ligtable.Flow
import FontTrace.Proofs.Replay.Step

/-!
# FontTrace.Proofs.Ligtable.Replay

What the ligature tables of a trace make.  All of them together are one tape of
marks for the programs of their labels; other constructs do not move it on.

* `held_follow` — a replay holds what the tape of its constructs says;
* `walksRight_iff_places` — what a replay walks along the tape is what it walks
  at the places in its tables;
* `ligtables_follow_flow_iff` — every kern and every ligature is made for the
  programs that reach it, as long as the tables are tidy.
-/

namespace FontTrace

variable {σ : Type}

/-! ## the tape of a script -/

/-- The ligature table that a construct runs. -/
def Construct.ligtable? (cfg : Settings) (k : Construct) : Option LigtableProgram :=
  match k.isDisabled cfg, k.command with
  | false, .ok (.ligtable p) => some p
  | _, _ => none

/-- The marks of a construct: the steps of its ligature table, and the end. -/
def Construct.marks (cfg : Settings) (k : Construct) : List Mark :=
  match k.ligtable? cfg with
  | some p => p.steps.map .step ++ [.tableEnd]
  | none => []

/-- The marks of all ligature tables. -/
def Script.tape (cfg : Settings) (script : Script) : List Mark :=
  script.flatMap (Construct.marks cfg)

theorem Construct.marks_of_some {cfg : Settings} {k : Construct} {p : LigtableProgram}
    (h : k.ligtable? cfg = some p) : k.marks cfg = p.steps.map .step ++ [.tableEnd] := by
  rw [Construct.marks, h]

theorem Construct.marks_of_none {cfg : Settings} {k : Construct} (h : k.ligtable? cfg = none) :
    k.marks cfg = [] := by
  rw [Construct.marks, h]

theorem Script.tape_append (cfg : Settings) (script script' : Script) :
    Script.tape cfg (script ++ script') = script.tape cfg ++ script'.tape cfg :=
  List.flatMap_append

theorem Script.tape_concat (cfg : Settings) (script : Script) (k : Construct) :
    Script.tape cfg (script ++ [k]) = script.tape cfg ++ k.marks cfg := by
  rw [Script.tape_append, Script.tape, Script.tape, List.flatMap_singleton]

theorem Script.tape_cons (cfg : Settings) (k : Construct) (script : Script) :
    Script.tape cfg (k :: script) = k.marks cfg ++ script.tape cfg :=
  List.flatMap_cons

/-- Marks that are a tape up to a place in one of its ligature tables. -/
def Script.IsPlace (cfg : Settings) (script : Script) (pre : List Mark) : Prop :=
  ∃ before k after p done todo, script = before ++ k :: after ∧ k.ligtable? cfg = some p ∧
    p.steps = done ++ todo ∧ pre = Script.tape cfg before ++ done.map .step

theorem Script.IsPlace.cons {cfg : Settings} {script : Script} {pre : List Mark}
    (h : script.IsPlace cfg pre) (k : Construct) :
    Script.IsPlace cfg (k :: script) (k.marks cfg ++ pre) := by
  obtain ⟨before, k', after, p, done, todo, rfl, hk', hp, rfl⟩ := h
  refine ⟨k :: before, k', after, p, done, todo, rfl, hk', hp, ?_⟩
  rw [Script.tape_cons, List.append_assoc]

/-- What comes before a mark is a part of the tape, up to a place in a ligature
table or to the end of the tape. -/
theorem Script.place_of_prefix {cfg : Settings} {script : Script} {pre : List Mark}
    (h : pre <+: script.tape cfg) : pre = script.tape cfg ∨ script.IsPlace cfg pre := by
  induction script generalizing pre with
  | nil => exact .inl (List.prefix_nil.mp h)
  | cons k script ih =>
      rw [Script.tape_cons] at h ⊢
      have hbehind : k.marks cfg <+: pre →
          pre = k.marks cfg ++ Script.tape cfg script ∨ Script.IsPlace cfg (k :: script) pre := by
        rintro ⟨pre', rfl⟩
        rcases ih ((List.prefix_append_right_inj _).mp h) with hpre | hplace
        · exact .inl (by rw [hpre])
        · exact .inr (hplace.cons k)
      rcases List.prefix_or_prefix_of_prefix h (List.prefix_append _ _) with hin | hin
      · cases hk : k.ligtable? cfg with
        | none =>
            refine hbehind ?_
            rw [Construct.marks_of_none hk]
            exact List.nil_prefix
        | some p =>
            rw [Construct.marks_of_some hk] at hin
            rcases List.prefix_concat_iff.mp hin with hpre | ⟨rest, hrest⟩
            · have hall : k.marks cfg = pre := by rw [Construct.marks_of_some hk, hpre]
              exact hbehind (hall ▸ List.prefix_refl _)
            · obtain ⟨done, todo, hp, rfl, -⟩ := List.map_eq_append_iff.mp hrest.symm
              exact .inr ⟨[], k, script, p, done, todo, rfl, hk, hp, rfl⟩
      · exact hbehind hin

/-! ## what a replay holds -/

/-- What a ligature table holds while it runs. -/
def LigtableRun.held (r : LigtableRun) : Held := ⟨r.pending, r.skipped⟩

theorem LigtableRun.held_step (feature : String) (r : LigtableRun) (st : LigtableStep) :
    (r.step feature st).held = r.held.after (.step st) := by
  cases st <;> rfl

theorem LigtableRun.held_foldl (feature : String) (r : LigtableRun) (steps : List LigtableStep) :
    (steps.foldl (LigtableRun.step feature) r).held =
      (steps.map Mark.step).foldl Held.after r.held := by
  induction steps generalizing r with
  | nil => rfl
  | cons st steps ih =>
      rw [List.foldl_cons, ih, LigtableRun.held_step]
      rfl

/-- What is held between two constructs. -/
def State.held (s : State σ) : Held := ⟨[], s.tables.skipped⟩

/-- The run of a ligature table through some of its steps. -/
def State.ligtableRun (s : State σ) (done : List LigtableStep) : LigtableRun :=
  done.foldl (LigtableRun.step s.tables.ligatureFeature) { skipped := s.tables.skipped }

theorem State.held_ligtableRun (s : State σ) (done : List LigtableStep) :
    (s.ligtableRun done).held = (done.map Mark.step).foldl Held.after s.held :=
  LigtableRun.held_foldl _ _ done

/-- The effect of a ligature table. -/
theorem tables_step_of_some (e : Engine σ) {cfg : Settings} (s : State σ) {k : Construct}
    {p : LigtableProgram} (h : k.ligtable? cfg = some p) :
    (State.step e cfg s k).value.tables = p.apply s.tables := by
  unfold Construct.ligtable? at h
  split at h
  · next hx hp =>
    cases h
    rw [value_step, Construct.perform, hx, hp]
    rfl
  · cases h

/-- Other constructs make no kerns, and leave alone what is held. -/
theorem tables_step_of_none (e : Engine σ) {cfg : Settings} (s : State σ) {k : Construct}
    (h : k.ligtable? cfg = none) :
    (State.step e cfg s k).value.tables.kerns = s.tables.kerns ∧
      (State.step e cfg s k).value.held = s.held := by
  rw [value_step]
  rcases k.perform_cases e cfg s with ⟨reason, hk⟩ | ⟨c, hx, hc, hk⟩
  · rw [hk]
    exact ⟨rfl, rfl⟩
  · have hother : ∀ p, c ≠ .ligtable p := by
      rintro p rfl
      rw [Construct.ligtable?, hx, hc] at h
      cases h
    have hframe := frame_perform e cfg hother s
    rw [hk]
    exact ⟨hframe.kerns, congrArg (Held.mk []) hframe.waiting⟩

theorem held_step (e : Engine σ) (cfg : Settings) (s : State σ) (k : Construct) :
    (State.step e cfg s k).value.held = (k.marks cfg).foldl Held.after s.held := by
  cases h : k.ligtable? cfg with
  | none =>
      rw [(tables_step_of_none e s h).2, Construct.marks_of_none h]
      rfl
  | some p =>
      rw [State.held, tables_step_of_some e s h, Construct.marks_of_some h, List.foldl_append,
        ← State.held_ligtableRun]
      unfold LigtableProgram.apply
      dsimp only
      split <;> rfl

/-- A replay holds what the tape of its constructs says. -/
theorem held_follow (e : Engine σ) (cfg : Settings) (s : State σ) (script : Script) :
    (s.follow e cfg script).value.held = (script.tape cfg).foldl Held.after s.held := by
  rw [value_follow]
  induction script generalizing s with
  | nil => rfl
  | cons k script ih =>
      rw [List.foldl_cons, ih, held_step, Script.tape_cons, List.foldl_append]

/-- What is held behind a script, if nothing was held before. -/
theorem held_tape (e : Engine σ) (cfg : Settings) (s : State σ) (hs : s.tables.skipped = [])
    (script : Script) : (s.follow e cfg script).value.held = Held.ofTape (script.tape cfg) := by
  have hstart : s.held = {} := by rw [State.held, hs]
  rw [held_follow, hstart, Held.ofTape]

/-- What is held at a place in a ligature table behind a script. -/
theorem held_place (e : Engine σ) (cfg : Settings) (s : State σ) (hs : s.tables.skipped = [])
    (before : Script) (done : List LigtableStep) :
    ((s.follow e cfg before).value.ligtableRun done).held =
      Held.ofTape (before.tape cfg ++ done.map .step) := by
  rw [State.held_ligtableRun, held_tape e cfg s hs, Held.ofTape, Held.ofTape, List.foldl_append]

/-- Between two constructs no program is walked. -/
theorem Script.walkers_tape (cfg : Settings) (script : Script) :
    (Flow.ofTape (script.tape cfg)).walkers = [] := by
  induction script using List.reverseRecOn with
  | nil => rfl
  | append_singleton script k ih =>
      rw [Script.tape_concat]
      cases hk : k.ligtable? cfg with
      | none => rw [Construct.marks_of_none hk, List.append_nil, ih]
      | some p =>
          rw [Construct.marks_of_some hk, ← List.append_assoc, Flow.ofTape_concat,
            Flow.walkers_after_tableEnd]

/-! ## what a ligature table makes -/

theorem LigtableRun.kerns_step (feature : String) (r : LigtableRun) (st : LigtableStep) :
    (r.step feature st).kerns = r.kerns ++ st.kernsOf r.pending := by
  cases st <;> simp [LigtableRun.step, LigtableStep.kernsOf]

theorem LigtableRun.ligatures_step (feature : String) (r : LigtableRun) (st : LigtableStep) :
    (r.step feature st).ligatures = r.ligatures ++ st.ligaturesOf feature r.pending := by
  cases st <;> simp [LigtableRun.step, LigtableStep.ligaturesOf]

theorem LigtableStep.kernsOf_perm {reached reached' : List CharRef} (h : reached.Perm reached')
    (st : LigtableStep) : (st.kernsOf reached).Perm (st.kernsOf reached') := by
  cases st with
  | kern right amount => exact h.map _
  | _ => exact .nil

theorem LigtableStep.ligaturesOf_perm {reached reached' : List CharRef}
    (h : reached.Perm reached') (feature : String) (st : LigtableStep) :
    (st.ligaturesOf feature reached).Perm (st.ligaturesOf feature reached') := by
  cases st with
  | ligature right shape result => exact h.map _
  | _ => exact .nil

/-- Kerns or ligatures alike: if every step makes what belongs to the programs
that reach it, then the whole table does. -/
theorem LigtableRun.made_foldl {α : Type} {feature : String} {get : LigtableRun → List α}
    {make : List CharRef → LigtableStep → List α}
    (hget : ∀ r st, get (r.step feature st) = get r ++ make r.pending st)
    (hmake : ∀ {reached reached'}, reached.Perm reached' → ∀ st,
      (make reached st).Perm (make reached' st))
    {steps : List LigtableStep} {r : LigtableRun} {f : Flow}
    (h : ∀ done todo, steps = done ++ todo → (done.foldl (LigtableRun.step feature) r).pending.Perm
      ((done.map Mark.step).foldl Flow.after f).walkers) :
    ∃ made, get (steps.foldl (LigtableRun.step feature) r) = get r ++ made ∧
      made.Perm (f.made make (steps.map .step)) := by
  induction steps generalizing r f with
  | nil => exact ⟨[], (List.append_nil _).symm, .nil⟩
  | cons st steps ih =>
      have htail : ∀ done todo, steps = done ++ todo →
          (done.foldl (LigtableRun.step feature) (r.step feature st)).pending.Perm
            ((done.map Mark.step).foldl Flow.after (f.after (.step st))).walkers :=
        fun done todo hsteps => h (st :: done) todo (by rw [hsteps]; rfl)
      obtain ⟨made, hmade, hperm⟩ := ih htail
      refine ⟨make r.pending st ++ made, ?_, ?_⟩
      · rw [List.foldl_cons, hmade, hget, List.append_assoc]
      · exact (hmake (h [] (st :: steps) rfl) st).append hperm

theorem Flow.made_append {α : Type} (make : List CharRef → LigtableStep → List α) (f : Flow)
    (tape tape' : List Mark) :
    f.made make (tape ++ tape') =
      f.made make tape ++ (tape.foldl Flow.after f).made make tape' := by
  induction tape generalizing f with
  | nil => rfl
  | cons m tape ih =>
      cases m with
      | step st =>
          rw [List.cons_append, made, made, ih, List.foldl_cons, List.append_assoc]
      | tableEnd => exact ih _

/-! ## whole replays -/

/-- What a ligature table adds is what its steps make for the programs of a
flow that reach them. -/
structure Tables.Adds (f : Flow) (p : LigtableProgram) (t t' : Tables) : Prop where
  kerns : ∃ kerns, t'.kerns = t.kerns ++ kerns ∧
    kerns.Perm (f.made LigtableStep.kernsOf (p.steps.map .step))
  ligatures : ∃ ligatures, t'.ligatures = t.ligatures ++ ligatures ∧
    ligatures.Perm (f.made (LigtableStep.ligaturesOf t.ligatureFeature) (p.steps.map .step))

/-- A replay walks the right programs everywhere, if and only if it does so at
all places in ligature tables. -/
theorem walksRight_iff_places (e : Engine σ) (cfg : Settings) (s : State σ) (script : Script)
    (hs : s.tables.skipped = []) :
    WalksRight (script.tape cfg) ↔ ∀ before k after p done todo, script = before ++ k :: after →
      k.ligtable? cfg = some p → p.steps = done ++ todo →
      ((s.follow e cfg before).value.ligtableRun done).pending.Perm
        (Flow.ofTape (Script.tape cfg before ++ done.map .step)).walkers := by
  have hplace : ∀ before done, ((s.follow e cfg before).value.ligtableRun done).pending =
      (Held.ofTape (Script.tape cfg before ++ done.map .step)).pending :=
    fun before done => congrArg Held.pending (held_place e cfg s hs before done)
  constructor
  · rintro h before k after p done todo rfl hk hp
    rw [hplace]
    refine h _ ?_
    rw [Script.tape_append]
    refine (List.prefix_append_right_inj _).mpr ?_
    rw [Script.tape_cons, Construct.marks_of_some hk, hp, List.map_append, List.append_assoc,
      List.append_assoc]
    exact List.prefix_append _ _
  · intro h pre hpre
    rcases Script.place_of_prefix hpre with rfl | hin
    · rw [Script.walkers_tape, ← held_tape e cfg s hs]
      exact .nil
    · obtain ⟨before, k, after, p, done, todo, hscript, hk, hp, rfl⟩ := hin
      rw [← hplace]
      exact h before k after p done todo hscript hk hp

/-- In tidy tables, a ligature table adds what it should. -/
theorem adds_of_tidy (e : Engine σ) {cfg : Settings} {s : State σ} (hs : s.tables.skipped = [])
    {script before after : Script} {k : Construct} {p : LigtableProgram}
    (htidy : Tidy (script.tape cfg)) (hscript : script = before ++ k :: after)
    (hk : k.ligtable? cfg = some p) (hp : p.fault = none) :
    Tables.Adds (Flow.ofTape (before.tape cfg)) p (s.follow e cfg before).value.tables
      (State.step e cfg (s.follow e cfg before).value k).value.tables := by
  have hright := (walksRight_iff_places e cfg s script hs).mp ((walksRight_iff_tidy _).mpr htidy)
  have hwalk : ∀ done todo, p.steps = done ++ todo →
      ((s.follow e cfg before).value.ligtableRun done).pending.Perm
        ((done.map Mark.step).foldl Flow.after (Flow.ofTape (before.tape cfg))).walkers := by
    intro done todo hsteps
    rw [Flow.ofTape, ← List.foldl_append]
    exact hright before k after p done todo hscript hk hsteps
  have hkerns := LigtableRun.made_foldl (LigtableRun.kerns_step _) LigtableStep.kernsOf_perm hwalk
  have hligatures := LigtableRun.made_foldl (LigtableRun.ligatures_step _)
    (fun h => LigtableStep.ligaturesOf_perm h _) hwalk
  rw [tables_step_of_some e _ hk, LigtableProgram.apply, hp]
  obtain ⟨kerns, hkerns, hkernsPerm⟩ := hkerns
  obtain ⟨ligatures, hligatures, hligaturesPerm⟩ := hligatures
  refine ⟨⟨kerns, ?_, hkernsPerm⟩, ⟨ligatures, ?_, hligaturesPerm⟩⟩
  · exact congrArg (_ ++ ·) hkerns
  · exact congrArg (_ ++ ·) hligatures

theorem follow_concat (e : Engine σ) (cfg : Settings) (s : State σ) (script : Script)
    (k : Construct) : (s.follow e cfg (script ++ [k])).value =
      (State.step e cfg (s.follow e cfg script).value k).value := by
  rw [value_follow, value_follow, List.foldl_append]
  rfl

/-- In tidy tables, the kerns of a replay are those that its tape makes. -/
theorem kerns_of_tidy (e : Engine σ) {cfg : Settings} {s : State σ} (hs : s.tables.skipped = [])
    {script before after : Script} (hfault : ∀ k ∈ script, ∀ p ∈ k.ligtable? cfg, p.fault = none)
    (htidy : Tidy (script.tape cfg)) (hscript : script = before ++ after) :
    (s.follow e cfg before).value.tables.kerns.Perm
      (s.tables.kerns ++ Flow.made LigtableStep.kernsOf {} (before.tape cfg)) := by
  induction before using List.reverseRecOn generalizing after with
  | nil => exact List.Perm.of_eq (List.append_nil _).symm
  | append_singleton before k ih =>
      rw [List.append_assoc] at hscript
      have hbefore := ih hscript
      rw [follow_concat, Script.tape_concat, Flow.made_append, ← List.append_assoc]
      cases hk : k.ligtable? cfg with
      | none =>
          rw [(tables_step_of_none e _ hk).1, Construct.marks_of_none hk]
          exact hbefore.trans (List.Perm.of_eq (List.append_nil _).symm)
      | some p =>
          have hp : p.fault = none := hfault k (by rw [hscript]; simp) p hk
          obtain ⟨kerns, hkerns, hperm⟩ := (adds_of_tidy e hs htidy hscript hk hp).kerns
          rw [hkerns, Construct.marks_of_some hk, Flow.made_append]
          refine hbefore.append (hperm.trans (List.Perm.of_eq ?_))
          exact (List.append_nil _).symm

/-- Whatever script is replayed, as long as no operand of a ligature table is
broken: at every place in a table the characters whose programs are walked are
those whose programs get there, if and only if the tables are tidy; and in tidy
tables every kern and every ligature is made for the programs that reach it,
and no other construct makes a kern. -/
theorem ligtables_follow_flow_iff (e : Engine σ) (cfg : Settings) (s : State σ) (script : Script)
    (hs : s.tables.skipped = [])
    (hfault : ∀ k ∈ script, ∀ p ∈ k.ligtable? cfg, p.fault = none) :
    (Tidy (script.tape cfg) ↔ ∀ before k after p done todo, script = before ++ k :: after →
      k.ligtable? cfg = some p → p.steps = done ++ todo →
      ((s.follow e cfg before).value.ligtableRun done).pending.Perm
        (Flow.ofTape (Script.tape cfg before ++ done.map .step)).walkers) ∧
    (Tidy (script.tape cfg) →
      (∀ before k after p, script = before ++ k :: after → k.ligtable? cfg = some p →
        Tables.Adds (Flow.ofTape (Script.tape cfg before)) p
          (s.follow e cfg before).value.tables
          (s.follow e cfg (before ++ [k])).value.tables) ∧
      (s.follow e cfg script).value.tables.kerns.Perm
        (s.tables.kerns ++ Flow.made LigtableStep.kernsOf {} (script.tape cfg))) := by
  refine ⟨(walksRight_iff_tidy _).symm.trans (walksRight_iff_places e cfg s script hs), ?_⟩
  intro htidy
  refine ⟨?_, kerns_of_tidy e hs hfault htidy (List.append_nil _).symm⟩
  intro before k after p hscript hk
  have hp : p.fault = none := hfault k (by rw [hscript]; simp) p hk
  rw [follow_concat]
  exact adds_of_tidy e hs htidy hscript hk hp

/-- A script of ligature tables. -/
def Script.ofLigtables (tables : List (List LigtableStep)) : Script :=
  tables.map fun steps => ⟨⟨"ligtable", none, ""⟩, .ok (.ligtable ⟨steps, none⟩), none⟩

/-- A program that goes on in the next table, behind another one. -/
theorem ligtables_follow_flow_into_next :
    let s := State.initial () {} .unicode
    let script := Script.ofLigtables
      [[.label (.text "A"), .skipTo "1", .label (.text "B"), .kern (.text "C") 10],
        [.label (.text "D"), .resume "1", .kern (.text "E") 20]]
    s.tables.skipped = [] ∧ (∀ k ∈ script, ∀ p ∈ k.ligtable? {}, p.fault = none) ∧
      Tidy (script.tape {}) ∧
      (s.follow Engine.basic {} script).value.tables.kerns.Perm
        (s.tables.kerns ++ Flow.made LigtableStep.kernsOf {} (script.tape {})) := by
  intro s script
  have hfault : ∀ k ∈ script, ∀ p ∈ k.ligtable? {}, p.fault = none := by decide +kernel
  have htidy : Tidy (script.tape {}) := by decide +kernel
  have hflow := ligtables_follow_flow_iff Engine.basic {} s script rfl hfault
  exact ⟨rfl, hfault, htidy, (hflow.2 htidy).2⟩

/-- Tables that are not tidy: two programs skip to a name before its place comes,
and only the second one goes on there; or one name has two places for one skip,
and the program goes on at both. -/
theorem kerns_of_untidy :
    let s := State.initial () {} .unicode
    let kerns (script : Script) := (s.follow Engine.basic {} script).value.tables.kerns
    let made (script : Script) :=
      s.tables.kerns ++ Flow.made LigtableStep.kernsOf {} (script.tape {})
    let twoSkips := Script.ofLigtables
      [[.label (.text "A"), .skipTo "1", .label (.text "B"), .skipTo "1", .resume "1",
        .kern (.text "C") 20]]
    let twoPlaces := Script.ofLigtables
      [[.label (.text "A"), .skipTo "1", .resume "1", .kern (.text "B") 10],
        [.label (.text "C"), .kern (.text "B") 30, .resume "1", .kern (.text "D") 20]]
    s.tables.skipped = [] ∧ (∀ k ∈ twoSkips ++ twoPlaces, ∀ p ∈ k.ligtable? {}, p.fault = none) ∧
      kerns twoSkips = [⟨.text "B", .text "C", 20⟩] ∧
      made twoSkips = [⟨.text "A", .text "C", 20⟩, ⟨.text "B", .text "C", 20⟩] ∧
      ¬(kerns twoSkips).Perm (made twoSkips) ∧
      kerns twoPlaces = made twoPlaces ++ [⟨.text "A", .text "D", 20⟩] ∧
      ¬(kerns twoPlaces).Perm (made twoPlaces) := by
  decide +kernel

end FontTrace
