import FontTrace.Replay.Metric
import FontTrace.Script
import Mathlib.Data.List.Induction

/-!
# FontTrace.Proofs.Ligtable.Flow

The flow of control in ligature tables, program by program: the program of a
character starts at its label, walks through the steps in order and ends at the
end of its table.  At a step that skips to a name it leaves its place, and it
goes on at the next place of that name, in the same table or a later one.

A replay walks all programs at once, and it remembers one list of characters
for each name.  The two agree as long as that list is the right one wherever
programs go on:

* `Flow` — where the program of every label is, and `Held` — what a replay holds instead;
* `Tidy` — wherever programs go on, those that wait are those that left at the last skip;
* `walksRight_iff_tidy` — a replay walks the right programs everywhere, if and
  only if the tables are tidy.
-/

namespace FontTrace

/-! ## programs -/

/-- What programs come past. -/
inductive Mark where
  | step (st : LigtableStep)
  | tableEnd
deriving DecidableEq, Repr

/-- Where the program of a label is. -/
inductive Control where
  /-- At the step that comes next. -/
  | here
  /-- At the next place of a name. -/
  | ahead (name : String)
  | ended
deriving DecidableEq, Repr

/-- Where a program is after one more mark. -/
def Control.after (c : Control) (m : Mark) : Control :=
  match c, m with
  | .here, .step (.skipTo name) => .ahead name
  | .here, .tableEnd => .ended
  | .ahead name, .step (.resume name') => if name' = name then .here else .ahead name
  | c, _ => c

/-- The programs of all labels so far. -/
structure Flow where
  programs : List (CharRef × Control) := []
  /-- The characters whose programs left at the last skip to a name. -/
  handed : String → List CharRef := fun _ => []

namespace Flow

/-- The characters whose programs are at some place. -/
def charactersAt (f : Flow) (c : Control) : List CharRef :=
  (f.programs.filter fun p => p.2 = c).map (·.1)

/-- The characters whose programs are here. -/
def walkers (f : Flow) : List CharRef := f.charactersAt .here

/-- The characters whose programs go on at the next place of a name. -/
def waitingFor (f : Flow) (name : String) : List CharRef := f.charactersAt (.ahead name)

/-- The programs that start at a mark. -/
def started : Mark → List (CharRef × Control)
  | .step (.label c) => [(c, .here)]
  | _ => []

/-- The programs after one more mark. -/
def after (f : Flow) (m : Mark) : Flow where
  programs := (f.programs.map fun p => (p.1, p.2.after m)) ++ started m
  handed name := if m = .step (.skipTo name) then f.walkers else f.handed name

/-- The programs at the end of a tape of marks. -/
def ofTape (tape : List Mark) : Flow := tape.foldl after {}

end Flow

/-- Wherever programs go on, those that wait are those that left at the last
skip: no program waits since an earlier skip, and none has gone on already. -/
def Tidy (tape : List Mark) : Prop :=
  ∀ before name, before ++ [.step (.resume name)] <+: tape →
    ((Flow.ofTape before).handed name).Perm ((Flow.ofTape before).waitingFor name)

/-- The name of the place where programs go on. -/
def Mark.resumed? : Mark → Option String
  | .step (.resume name) => some name
  | _ => none

theorem Mark.resumed?_eq_some {m : Mark} {name : String} :
    m.resumed? = some name ↔ m = .step (.resume name) := by
  unfold Mark.resumed?
  split <;> simp_all

theorem tidy_iff_places (tape : List Mark) :
    Tidy tape ↔ ∀ i : Fin tape.length, ∀ name ∈ tape[i].resumed?,
      ((Flow.ofTape (tape.take i)).handed name).Perm
        ((Flow.ofTape (tape.take i)).waitingFor name) := by
  constructor
  · intro h i name hname
    refine h _ name ?_
    rw [← Mark.resumed?_eq_some.mp hname]
    have htake := List.take_append_getElem (l := tape) i.isLt
    exact htake ▸ List.take_prefix _ _
  · rintro h before name ⟨rest, rfl⟩
    have hlt : before.length < (before ++ [Mark.step (.resume name)] ++ rest).length := by simp
    have hplace := h ⟨before.length, hlt⟩ name (Mark.resumed?_eq_some.mpr (by simp))
    simpa using hplace

instance (tape : List Mark) : Decidable (Tidy tape) :=
  decidable_of_iff _ (tidy_iff_places tape).symm

/-! ## what programs do -/

/-- The kerns that a step makes for the programs that reach it. -/
def LigtableStep.kernsOf (reached : List CharRef) : LigtableStep → List (KernPair CharRef)
  | .kern right amount => reached.map fun left => ⟨left, right, amount⟩
  | _ => []

/-- The ligatures that a step makes for the programs that reach it. -/
def LigtableStep.ligaturesOf (feature : String) (reached : List CharRef) :
    LigtableStep → List LigatureRule
  | .ligature right shape result =>
    reached.map fun left => ⟨.operand result, shape, [left, right], feature⟩
  | _ => []

namespace Flow

/-- What is made along a tape, if `make` says what a step makes for the
programs that reach it. -/
def made {α : Type} (make : List CharRef → LigtableStep → List α) (f : Flow) :
    List Mark → List α
  | [] => []
  | .step st :: tape => make f.walkers st ++ made make (f.after (.step st)) tape
  | .tableEnd :: tape => made make (f.after .tableEnd) tape

end Flow

/-! ## what a replay holds -/

/-- The characters whose programs are walked, and those that each name stands for. -/
structure Held where
  pending : List CharRef := []
  skipped : Table String (List CharRef) := []

namespace Held

/-- The characters that a name stands for. -/
def handed (h : Held) (name : String) : List CharRef := (Table.find? h.skipped name).getD []

/-- What is held after one more mark. -/
def after (h : Held) (m : Mark) : Held :=
  match m with
  | .step (.label c) => { h with pending := h.pending ++ [c] }
  | .step (.resume name) => { h with pending := h.pending ++ h.handed name }
  | .step (.skipTo name) => ⟨[], Table.put h.skipped name h.pending⟩
  | .tableEnd => { h with pending := [] }
  | _ => h

/-- What is held at the end of a tape of marks. -/
def ofTape (tape : List Mark) : Held := tape.foldl after {}

theorem ofTape_concat (tape : List Mark) (m : Mark) :
    ofTape (tape ++ [m]) = (ofTape tape).after m :=
  List.foldl_append

end Held

/-! ## one mark -/

namespace Flow

theorem ofTape_concat (tape : List Mark) (m : Mark) :
    ofTape (tape ++ [m]) = (ofTape tape).after m :=
  List.foldl_append

/-- A mark that moves no program out of some place and none into it. -/
theorem charactersAt_after {f : Flow} {m : Mark} {c : Control}
    (h : ∀ d : Control, d.after m = c ↔ d = c) :
    (f.after m).charactersAt c = f.charactersAt c ++ ((started m).filter (·.2 = c)).map (·.1) := by
  have hmoved : ((f.programs.map fun p => (p.1, p.2.after m)).filter (·.2 = c)).map (·.1) =
      f.charactersAt c := by
    rw [List.filter_map, List.map_map]
    exact congrArg (List.map Prod.fst)
      (List.filter_congr fun (p : CharRef × Control) _ => decide_eq_decide.mpr (h p.2))
  rw [charactersAt, after, List.filter_append, List.map_append, hmoved]

theorem walkers_after_label (f : Flow) (c : CharRef) :
    (f.after (.step (.label c))).walkers = f.walkers ++ [c] :=
  charactersAt_after fun d => by cases d <;> simp [Control.after]

/-- A mark that every program walks past. -/
theorem walkers_after_of_idle {f : Flow} {m : Mark} (hm : started m = [])
    (h : ∀ d : Control, d.after m = d) : (f.after m).walkers = f.walkers := by
  rw [walkers, charactersAt_after (fun d => by rw [h d]), hm]
  exact List.append_nil _

/-- A mark where every program stops. -/
theorem walkers_after_of_stop {f : Flow} {m : Mark} (hm : started m = [])
    (h : ∀ d : Control, d.after m ≠ .here) : (f.after m).walkers = [] := by
  rw [walkers, charactersAt, after, hm, List.append_nil, List.filter_map, List.map_map,
    List.map_eq_nil_iff, List.filter_eq_nil_iff]
  intro p _
  exact fun hp => h p.2 (of_decide_eq_true hp)

theorem walkers_after_tableEnd (f : Flow) : (f.after .tableEnd).walkers = [] :=
  walkers_after_of_stop rfl fun d => by cases d <;> simp [Control.after]

theorem walkers_after_skipTo (f : Flow) (name : String) :
    (f.after (.step (.skipTo name))).walkers = [] :=
  walkers_after_of_stop rfl fun d => by cases d <;> simp [Control.after]

/-- Where programs go on, those that wait come to those that are here. -/
theorem walkers_after_resume (f : Flow) (name : String) :
    (f.after (.step (.resume name))).walkers.Perm (f.walkers ++ f.waitingFor name) := by
  obtain ⟨programs, handed⟩ := f
  have hstarted : started (.step (.resume name)) = [] := rfl
  rw [walkers, charactersAt, after, hstarted, List.append_nil]
  show List.Perm _ (charactersAt ⟨programs, handed⟩ .here ++ _)
  rw [waitingFor, charactersAt, charactersAt]
  dsimp only
  induction programs with
  | nil => exact .nil
  | cons p programs ih =>
      obtain ⟨c, d⟩ := p
      cases d with
      | here => exact ih.cons c
      | ended => exact ih
      | ahead name' =>
          by_cases hname : name = name'
          · subst hname
            simpa [Control.after] using (ih.cons c).trans List.perm_middle.symm
          · simpa [Control.after, hname, Ne.symm hname] using ih

end Flow

/-- What is held agrees with the programs. -/
structure Agree (h : Held) (f : Flow) : Prop where
  pending : h.pending.Perm f.walkers
  handed : ∀ name, (h.handed name).Perm (f.handed name)

/-- After one more mark, a name stands for the programs that left at the last
skip to it. -/
theorem Agree.handed_after {h : Held} {f : Flow} (hf : Agree h f) (m : Mark) (name : String) :
    ((h.after m).handed name).Perm ((f.after m).handed name) := by
  cases m with
  | tableEnd => exact hf.handed name
  | step st =>
      cases st with
      | skipTo name' =>
          show ((Table.find? (Table.put h.skipped name' h.pending) name).getD []).Perm
            (if Mark.step (.skipTo name') = .step (.skipTo name) then f.walkers else f.handed name)
          by_cases hname : name' = name
          · rw [hname, Table.find?_put_self, if_pos rfl]
            exact hf.pending
          · rw [Table.find?_put_of_ne _ hname, if_neg (by simpa using hname)]
            exact hf.handed name
      | _ => exact hf.handed name

/-- After one more mark, the right programs are walked, unless it is a place
where the wrong ones go on. -/
theorem Agree.pending_after_iff {h : Held} {f : Flow} (hf : Agree h f) (m : Mark) :
    (h.after m).pending.Perm (f.after m).walkers ↔
      ∀ name, m = .step (.resume name) → (f.handed name).Perm (f.waitingFor name) := by
  cases m with
  | tableEnd =>
      rw [Flow.walkers_after_tableEnd]
      exact ⟨fun _ name hm => (by cases hm), fun _ => .nil⟩
  | step st =>
      cases st with
      | resume name =>
          have hresume := Flow.walkers_after_resume f name
          have hheld : (h.after (.step (.resume name))).pending.Perm
              (f.walkers ++ f.handed name) := hf.pending.append (hf.handed name)
          constructor
          · intro hperm name' hm
            cases hm
            exact (List.perm_append_left_iff _).mp
              ((hheld.symm.trans hperm).trans hresume)
          · intro hwait
            exact hheld.trans (((hwait name rfl).append_left _).trans hresume.symm)
      | label c =>
          rw [Flow.walkers_after_label]
          exact ⟨fun _ name hm => (by cases hm), fun _ => hf.pending.append_right [c]⟩
      | skipTo name =>
          rw [Flow.walkers_after_skipTo]
          exact ⟨fun _ name hm => (by cases hm), fun _ => .nil⟩
      | _ =>
          rw [Flow.walkers_after_of_idle rfl (fun d => by cases d <;> rfl)]
          exact ⟨fun _ name hm => (by cases hm), fun _ => hf.pending⟩

/-! ## whole tapes -/

theorem tidy_concat (tape : List Mark) (m : Mark) :
    Tidy (tape ++ [m]) ↔ Tidy tape ∧ ∀ name, m = .step (.resume name) →
      ((Flow.ofTape tape).handed name).Perm ((Flow.ofTape tape).waitingFor name) := by
  constructor
  · intro h
    refine ⟨fun before name hp => h before name (hp.trans (List.prefix_append tape [m])), ?_⟩
    rintro name rfl
    exact h tape name (List.prefix_refl _)
  · rintro ⟨htape, hm⟩ before name hp
    rcases List.prefix_concat_iff.mp hp with heq | hp
    · obtain ⟨rfl, hlast⟩ := List.append_inj' heq rfl
      exact hm name (List.cons.inj hlast).1.symm
    · exact htape before name hp

/-- Whether the right programs are walked everywhere along a tape. -/
def WalksRight (tape : List Mark) : Prop :=
  ∀ before, before <+: tape →
    (Held.ofTape before).pending.Perm (Flow.ofTape before).walkers

theorem walksRight_concat (tape : List Mark) (m : Mark) :
    WalksRight (tape ++ [m]) ↔ WalksRight tape ∧
      ((Held.ofTape tape).after m).pending.Perm ((Flow.ofTape tape).after m).walkers := by
  rw [← Held.ofTape_concat, ← Flow.ofTape_concat]
  constructor
  · intro h
    exact ⟨fun before hp => h before (hp.trans (List.prefix_append tape [m])),
      h _ (List.prefix_refl _)⟩
  · rintro ⟨htape, hm⟩ before hp
    rcases List.prefix_concat_iff.mp hp with rfl | hp
    · exact hm
    · exact htape before hp

theorem agree_of_walksRight {tape : List Mark} (h : WalksRight tape) :
    Agree (Held.ofTape tape) (Flow.ofTape tape) := by
  induction tape using List.reverseRecOn with
  | nil => exact ⟨.nil, fun _ => .nil⟩
  | append_singleton tape m ih =>
      obtain ⟨htape, hm⟩ := (walksRight_concat tape m).mp h
      rw [Held.ofTape_concat, Flow.ofTape_concat]
      exact ⟨hm, (ih htape).handed_after m⟩

/-- A replay walks the right programs everywhere, if and only if the tables are
tidy. -/
theorem walksRight_iff_tidy (tape : List Mark) : WalksRight tape ↔ Tidy tape := by
  induction tape using List.reverseRecOn with
  | nil =>
      constructor
      · intro _ before name hp
        exact absurd (List.prefix_nil.mp hp) (by simp)
      · intro _ before hp
        rw [List.prefix_nil.mp hp]
        exact .nil
  | append_singleton tape m ih =>
      rw [walksRight_concat, tidy_concat, ih]
      refine and_congr_right fun htape => ?_
      exact (agree_of_walksRight (ih.mpr htape)).pending_after_iff m

end FontTrace
