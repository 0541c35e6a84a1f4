import FontTrace.Proofs.Ligtable.Replay

/-!
# FontTrace.Proofs.Ligtable.Faults

Ligature tables that break off at an operand.  Their kerns and their ligatures are
dropped, but what they skipped up to there stays skipped, and later tables go on
with it.

* `Table.putAll_eq_self_iff` — writing into a table gives it back as it was;
* `State.find?_ligtableRun_of_last` — a name has what was handed to it last;
* `Held.Same` — replays that walk the same programs from here on;
* `value_step_of_broken` — all that a broken table leaves behind;
* `broken_ligtable_unseen_iff` — so when nobody can tell that it was there.
-/

namespace FontTrace

variable {σ : Type}

/-! ## writing into tables -/

namespace Table

variable {κ β : Type} [DecidableEq κ]

/-- The table with new values, one after the other. -/
def putAll (t : Table κ β) (writes : List (κ × β)) : Table κ β :=
  writes.foldl (fun t w => put t w.1 w.2) t

theorem putAll_cons (t : Table κ β) (w : κ × β) (writes : List (κ × β)) :
    putAll t (w :: writes) = putAll (put t w.1 w.2) writes := rfl

theorem putAll_concat (t : Table κ β) (writes : List (κ × β)) (w : κ × β) :
    putAll t (writes ++ [w]) = put (putAll t writes) w.1 w.2 := List.foldl_append

theorem find?_putAll_of_not_mem {writes : List (κ × β)} {k : κ} (h : k ∉ writes.map (·.1))
    (t : Table κ β) : find? (putAll t writes) k = find? t k := by
  induction writes generalizing t with
  | nil => rfl
  | cons w writes ih =>
      rw [List.map_cons, List.mem_cons, not_or] at h
      rw [putAll_cons, ih h.2, find?_put_of_ne _ (Ne.symm h.1)]

/-- What is in a table stays there, with some value. -/
theorem has_putAll {t : Table κ β} {k : κ} (h : has t k = true) (writes : List (κ × β)) :
    has (putAll t writes) k = true := by
  induction writes generalizing t with
  | nil => exact h
  | cons w writes ih =>
      refine ih ?_
      rw [has, find?_put]
      split
      · rfl
      · exact h

/-- The first name of a table keeps its place, and its own values do not touch the rest. -/
theorem exists_putAll_cons (k : κ) (v : β) (t : Table κ β) (writes : List (κ × β)) :
    ∃ v', putAll ((k, v) :: t) writes =
      (k, v') :: putAll t (writes.filter fun w => w.1 ≠ k) := by
  induction writes generalizing v t with
  | nil => exact ⟨v, rfl⟩
  | cons w writes ih =>
      by_cases hk : k = w.1
      · obtain ⟨v', hv'⟩ := ih w.2 t
        refine ⟨v', ?_⟩
        rw [putAll_cons, put, if_pos hk, ← hk, hv', List.filter_cons_of_neg (by simp [hk])]
      · obtain ⟨v', hv'⟩ := ih v (put t w.1 w.2)
        refine ⟨v', ?_⟩
        rw [putAll_cons, put, if_neg hk, hv', List.filter_cons_of_pos (by simpa using Ne.symm hk),
          putAll_cons]

/-- A table is as it was if and only if every name has its value back. -/
theorem putAll_eq_self_iff {t : Table κ β} {writes : List (κ × β)} :
    putAll t writes = t ↔ ∀ k, find? (putAll t writes) k = find? t k := by
  refine ⟨fun h k => by rw [h], fun h => ?_⟩
  induction t generalizing writes with
  | nil =>
      cases writes with
      | nil => rfl
      | cons w writes =>
          have hwritten : has (putAll [] (w :: writes)) w.1 = true :=
            has_putAll (by simp [has, put, find?]) writes
          rw [has, h w.1] at hwritten
          cases hwritten
  | cons entry t ih =>
      obtain ⟨k, v⟩ := entry
      -- Behind the first entry its name may stand again, where no write can reach it.
      obtain ⟨v', hsplit⟩ := exists_putAll_cons k v t writes
      rw [hsplit] at h ⊢
      have hhead : v' = v := by simpa [find?] using h k
      rw [hhead, ih fun k' => ?_]
      by_cases hk : k = k'
      · rw [find?_putAll_of_not_mem]
        simp [hk]
      · simpa [find?, hk] using h k'

end Table

/-! ## what a ligature table has skipped -/

namespace LigtableRun

theorem find?_skipped_step (feature : String) (r : LigtableRun) (st : LigtableStep)
    (name : String) :
    Table.find? (r.step feature st).skipped name =
      if st = .skipTo name then some r.pending else Table.find? r.skipped name := by
  cases st with
  | skipTo name' =>
      show Table.find? (Table.put r.skipped name' r.pending) name = _
      rw [Table.find?_put]
      simp
  | _ => rfl

theorem exists_skipped_foldl (feature : String) (r : LigtableRun) (steps : List LigtableStep) :
    ∃ writes, (steps.foldl (LigtableRun.step feature) r).skipped =
      Table.putAll r.skipped writes := by
  induction steps using List.reverseRecOn with
  | nil => exact ⟨[], rfl⟩
  | append_singleton steps st ih =>
      obtain ⟨writes, hwrites⟩ := ih
      rw [List.foldl_append, List.foldl_cons, List.foldl_nil]
      cases st with
      | skipTo name => exact ⟨writes ++ [(name, _)], by rw [Table.putAll_concat, ← hwrites]; rfl⟩
      | _ => exact ⟨writes, hwrites⟩

end LigtableRun

namespace State

theorem ligtableRun_concat (s : State σ) (done : List LigtableStep) (st : LigtableStep) :
    s.ligtableRun (done ++ [st]) =
      (s.ligtableRun done).step s.tables.ligatureFeature st := List.foldl_append

theorem find?_ligtableRun_of_not_mem {s : State σ} {steps : List LigtableStep} {name : String}
    (h : .skipTo name ∉ steps) :
    Table.find? (s.ligtableRun steps).skipped name = Table.find? s.tables.skipped name := by
  induction steps using List.reverseRecOn with
  | nil => rfl
  | append_singleton steps st ih =>
      rw [List.mem_append, List.mem_singleton, not_or] at h
      rw [ligtableRun_concat, LigtableRun.find?_skipped_step, if_neg (Ne.symm h.2), ih h.1]

/-- A name has the characters whose programs left at the last skip to it. -/
theorem find?_ligtableRun_of_last {s : State σ} {steps done : List LigtableStep} {name : String}
    (h : BeforeLast (.skipTo name) steps done) :
    Table.find? (s.ligtableRun steps).skipped name = some (s.ligtableRun done).pending := by
  induction steps using List.reverseRecOn with
  | nil => exact absurd h.mem List.not_mem_nil
  | append_singleton steps st ih =>
      rw [ligtableRun_concat, LigtableRun.find?_skipped_step]
      rcases h.of_concat with ⟨rfl, rfl⟩ | ⟨hne, hlast⟩
      · rw [if_pos rfl]
      · rw [if_neg hne, ih hlast]

/-- What has to be said about every name has to be said about the last skip to it only. -/
theorem forall_skipped_iff {s : State σ} {steps : List LigtableStep}
    {P : Option (List CharRef) → Option (List CharRef) → Prop} (hP : ∀ cs, P cs cs) :
    (∀ name, P (Table.find? (s.ligtableRun steps).skipped name)
        (Table.find? s.tables.skipped name)) ↔
      ∀ name done, BeforeLast (.skipTo name) steps done →
        P (some (s.ligtableRun done).pending) (Table.find? s.tables.skipped name) := by
  constructor
  · intro h name done hlast
    exact find?_ligtableRun_of_last hlast ▸ h name
  · intro h name
    by_cases hmem : .skipTo name ∈ steps
    · obtain ⟨done, hlast⟩ := exists_beforeLast hmem
      rw [find?_ligtableRun_of_last hlast]
      exact h name done hlast
    · rw [find?_ligtableRun_of_not_mem hmem]
      exact hP _

theorem skipped_ligtableRun_eq_iff {s : State σ} {steps : List LigtableStep} :
    (s.ligtableRun steps).skipped = s.tables.skipped ↔
      ∀ name done, BeforeLast (.skipTo name) steps done →
        some (s.ligtableRun done).pending = Table.find? s.tables.skipped name := by
  obtain ⟨writes, hwrites⟩ := LigtableRun.exists_skipped_foldl s.tables.ligatureFeature
    { skipped := s.tables.skipped } steps
  have hrun : (s.ligtableRun steps).skipped = Table.putAll s.tables.skipped writes := hwrites
  rw [← forall_skipped_iff (P := Eq) fun _ => rfl, hrun]
  exact Table.putAll_eq_self_iff

end State

/-! ## what later ligature tables see -/

/-- The same characters are here, and the same ones wait for every name. -/
structure Held.Same (h h' : Held) : Prop where
  pending : h'.pending = h.pending
  handed : ∀ name, h'.handed name = h.handed name

namespace Held.Same

theorem after {h h' : Held} (hsame : h.Same h') (m : Mark) : (h.after m).Same (h'.after m) := by
  obtain ⟨hpending, hhanded⟩ := hsame
  cases m with
  | tableEnd => exact ⟨rfl, hhanded⟩
  | step st =>
      cases st with
      | label c => exact ⟨congrArg (· ++ [c]) hpending, hhanded⟩
      | resume name => exact ⟨congrArg₂ (· ++ ·) hpending (hhanded name), hhanded⟩
      | skipTo name =>
          refine ⟨rfl, fun name' => ?_⟩
          show (Table.find? (Table.put h'.skipped name h'.pending) name').getD [] =
            (Table.find? (Table.put h.skipped name h.pending) name').getD []
          rw [Table.find?_put, Table.find?_put, hpending]
          split
          · rfl
          · exact hhanded name'
      | _ => exact ⟨hpending, hhanded⟩

theorem foldl {h h' : Held} (hsame : h.Same h') (tape : List Mark) :
    (tape.foldl Held.after h).Same (tape.foldl Held.after h') := by
  induction tape generalizing h h' with
  | nil => exact hsame
  | cons m tape ih => exact ih (hsame.after m)

end Held.Same

/-- Two states walk the same programs in all later ligature tables, wherever these
stand, if and only if the same characters wait for every name. -/
theorem forall_pending_eq_iff (e : Engine σ) (cfg : Settings) (s s' : State σ) :
    (∀ script done, ((s'.follow e cfg script).value.ligtableRun done).pending =
        ((s.follow e cfg script).value.ligtableRun done).pending) ↔
      ∀ name, s'.held.handed name = s.held.handed name := by
  constructor
  · -- The shortest program that tells a difference goes on at the name right away.
    intro h name
    exact h [] [.resume name]
  · intro h script done
    have hsame : s.held.Same s'.held := ⟨rfl, h⟩
    have hplace (s : State σ) : ((s.follow e cfg script).value.ligtableRun done).pending =
        ((done.map Mark.step).foldl Held.after
          ((script.tape cfg).foldl Held.after s.held)).pending := by
      rw [← held_follow e cfg, ← State.held_ligtableRun]
      rfl
    rw [hplace s, hplace s']
    exact ((hsame.foldl _).foldl _).pending

/-! ## broken ligature tables -/

/-- The steps of the ligature table of a construct, as far as it was read. -/
def Construct.ligtableSteps (cfg : Settings) (k : Construct) : List LigtableStep :=
  match k.ligtable? cfg with
  | some p => p.steps
  | none => []

/-- A construct that starts a ligature table and is left out has dropped its kerns and
its ligatures, and has kept what it skipped. -/
theorem value_step_of_broken (e : Engine σ) (cfg : Settings) {s s' : State σ} {r : Record}
    {c : Cursor} {reason : Skip} (hr : r.op = .ligtable)
    (h : ((Script.construct r c).1.perform e cfg s).value = (s', some reason)) :
    (State.step e cfg s (Script.construct r c).1).value =
      { s with
        tables := { s.tables with
          skipped := (s.ligtableRun ((Script.construct r c).1.ligtableSteps cfg)).skipped }
        skipped := s.skipped ++ [reason] } := by
  have hdisabled := Script.isDisabled_construct cfg (r := r) (by rw [hr]; rfl) c
  rw [value_step, h]
  rw [Construct.perform, hdisabled] at h
  rw [Construct.ligtableSteps, Construct.ligtable?, hdisabled]
  cases hcommand : (Script.construct r c).1.command with
  | error k =>
      -- The scale was broken, and no step was read.
      rw [hcommand] at h
      cases h
      rfl
  | ok command =>
      obtain ⟨p, rfl⟩ : ∃ p, command = .ligtable p := by
        have hread : ((Command.read r).run c).1 = .ok command := hcommand
        rw [Command.read, hr] at hread
        exact Command.exists_of_run_of hread
      rw [hcommand] at h
      have hfault : p.fault = some reason := congrArg Prod.snd h
      have happly : { s with tables := p.apply s.tables } = s' := congrArg Prod.fst h
      rw [← happly, LigtableProgram.apply, hfault]
      rfl

/-- Whatever ligature table breaks off, at whatever operand: its kerns and ligatures are
dropped, and a name it skipped to has what was handed to it last.  So the tables are as
they were if and only if these names had just that before; and no later ligature table
walks another program if and only if they had, or nothing was handed to a new name. -/
theorem broken_ligtable_unseen_iff (e : Engine σ) (cfg : Settings) {s s' : State σ} {r : Record}
    {c : Cursor} {reason : Skip} (hr : r.op = .ligtable)
    (h : ((Script.construct r c).1.perform e cfg s).value = (s', some reason)) :
    let steps := (Script.construct r c).1.ligtableSteps cfg
    let after := (State.step e cfg s (Script.construct r c).1).value
    after = { s with
      tables := { s.tables with skipped := after.tables.skipped }
      skipped := s.skipped ++ [reason] } ∧
    (∀ name, .skipTo name ∉ steps →
      Table.find? after.tables.skipped name = Table.find? s.tables.skipped name) ∧
    (∀ name done, BeforeLast (.skipTo name) steps done →
      Table.find? after.tables.skipped name = some (s.ligtableRun done).pending) ∧
    (after.tables = s.tables ↔ ∀ name done, BeforeLast (.skipTo name) steps done →
      some (s.ligtableRun done).pending = Table.find? s.tables.skipped name) ∧
    ((∀ script done, ((after.follow e cfg script).value.ligtableRun done).pending =
        ((s.follow e cfg script).value.ligtableRun done).pending) ↔
      ∀ name done, BeforeLast (.skipTo name) steps done →
        (s.ligtableRun done).pending = (Table.find? s.tables.skipped name).getD []) := by
  intro steps after
  have hafter : after = { s with
      tables := { s.tables with skipped := (s.ligtableRun steps).skipped }
      skipped := s.skipped ++ [reason] } := value_step_of_broken e cfg hr h
  have hskipped : after.tables.skipped = (s.ligtableRun steps).skipped := by rw [hafter]
  refine ⟨?_, fun name hname => ?_, fun name done hlast => ?_, ?_, ?_⟩
  · rw [hskipped, hafter]
  · rw [hskipped, State.find?_ligtableRun_of_not_mem hname]
  · rw [hskipped, State.find?_ligtableRun_of_last hlast]
  · rw [← State.skipped_ligtableRun_eq_iff, hafter]
    exact ⟨congrArg Tables.skipped, fun hsame => by rw [hsame]⟩
  · refine (forall_pending_eq_iff e cfg s after).trans (Iff.trans ?_
      (State.forall_skipped_iff (P := fun now before => now.getD [] = before.getD []) fun _ => rfl))
    rw [← hskipped]
    exact Iff.rfl

/-- A table that breaks off at its second kern, behind a skip to a name that the same
character waits for already. -/
theorem broken_ligtable_unseen_of_same_skip :
    let initial := State.initial () {} .unicode
    let s := { initial with tables := { initial.tables with skipped := [("1", [.text "A"])] } }
    let k := (Script.construct ⟨"ligtable", none, "10>> \"A\""⟩ ⟨[⟨":", none, "1>> \"B\""⟩,
      ⟨"kern", none, "2"⟩, ⟨"skipto", none, "1>> \"C\""⟩, ⟨"kern", none, "bogus"⟩], none⟩).1
    (State.step Engine.basic {} s k).value.tables = s.tables ∧
      ∀ script done, (((State.step Engine.basic {} s k).value.follow
          Engine.basic {} script).value.ligtableRun done).pending =
        ((s.follow Engine.basic {} script).value.ligtableRun done).pending := by
  intro initial s k
  have hbroken : (k.perform Engine.basic {} s).value.2 =
      some (.malformed "kern" (.number "bogus")) := by decide +kernel
  have hsteps : k.ligtableSteps {} =
      [.label (.text "A"), .kern (.text "B") 20] ++ [.skipTo "1"] := by decide +kernel
  have hsame : ∀ name done, BeforeLast (.skipTo name) (k.ligtableSteps {}) done →
      some (s.ligtableRun done).pending = Table.find? s.tables.skipped name := by
    intro name done hlast
    rw [hsteps] at hlast
    rcases hlast.of_concat with ⟨hname, rfl⟩ | ⟨-, hlast⟩
    · cases hname
      rfl
    · simpa using hlast.mem
  obtain ⟨-, -, -, htables, hlater⟩ :=
    broken_ligtable_unseen_iff Engine.basic {} (by decide) (Prod.ext rfl hbroken)
  refine ⟨htables.mpr hsame, hlater.mpr fun name done hlast => ?_⟩
  rw [← hsame name done hlast, Option.getD_some]

/-- A table that breaks off behind a skip, and a later one with the place of its name: the
character of the first one is kerned there. -/
theorem broken_ligtable_seen :
    let s := State.initial () {} .unicode
    let broken : List Record := [⟨"ligtable", none, "10>> \"A\""⟩, ⟨":", none, "1"⟩,
      ⟨"skipto", none, "1>> \"B\""⟩, ⟨":", none, "\"C\""⟩, ⟨"kern", none, "bogus"⟩]
    let later : List Record := [⟨"ligtable", none, "10>> 1"⟩, ⟨"::", none, "\"D\""⟩,
      ⟨"kern", none, "2"⟩]
    (s.run Engine.basic {} broken).value.skipped ≠ [] ∧
    (s.run Engine.basic {} broken).value.tables.skipped = [("1", [.text "A"])] ∧
    (s.run Engine.basic {} (broken ++ later)).value.tables.kerns =
      [⟨.text "A", .text "D", 20⟩] ∧
    (s.run Engine.basic {} later).value.tables.kerns = [] := by
  decide +kernel

end FontTrace
