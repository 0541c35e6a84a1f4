import FontTrace.Engine.Recording
import FontTrace.Proofs.Replay.Step
import Mathlib.Algebra.Ring.Parity
import Mathlib.Data.List.Induction

/-!
# FontTrace.Proofs.Picture.Equations

Chains of picture equations, `t₀ = t₁ = … = tₙ = s` or `… = -s`.  The targets get the
source one after the other, and each of them from what the source is by then.

* `EquationChain` — such a chain as the records of a trace;
* `EquationChain.run_equation` — it is read to its last record, and no further;
* `Pictures.exists_assignAll` — a target has been negated as often as the source has
  been a target in front of it, and once more;
* `equation_chain_equal_iff` — so when all targets are the same.
-/

namespace FontTrace

variable {σ : Type}

/-! ## one copy -/

/-- What a target gets from its source. -/
def Picture.copied (negated : Bool) (p : Picture) : Picture := if negated then p.negated else p

theorem Picture.copied_involutive : Function.Involutive (Picture.copied true) :=
  Picture.negated_negated

/-- A picture that was copied along is the first copy, unless it was negated back. -/
theorem Picture.iterate_copied_eq_iff (negated : Bool) (p : Picture) (n : Nat) :
    (Picture.copied negated)^[n + 1] p = p.copied negated ↔
      negated = false ∨ p.negated = p ∨ Even n := by
  cases negated with
  | false =>
      have hsame : Picture.copied false = id := rfl
      simp [hsame]
  | true =>
      have hfirst : p.copied true = p.negated := rfl
      rcases Nat.even_or_odd n with heven | hodd
      · rw [Function.iterate_succ_apply', Picture.copied_involutive.iterate_even heven]
        simp [heven]
      · have hback : (Picture.copied true)^[n + 1] p = p := by
          rw [Picture.copied_involutive.iterate_even hodd.add_one, id]
        rw [hback, hfirst, eq_comm]
        simp [Nat.not_even_iff_odd.mpr hodd]

/-! ## one target after the other -/

namespace Pictures

/-- What pictures are when some targets have got theirs. -/
structure Assigned (negated : Bool) (source : String) (p : Picture) (ps : Pictures)
    (done : List String) (ps' : Pictures) : Prop where
  atSource : get ps' source = .ok ((Picture.copied negated)^[done.count source] p)
  others : ∀ name ∉ done, get ps' name = get ps name
  targets : ∀ target before, BeforeLast target done before →
    get ps' target = .ok ((Picture.copied negated)^[before.count source + 1] p)

section Assigned

variable {negated : Bool} {source : String} {p : Picture} {ps ps' : Pictures}
  {done : List String}

theorem Assigned.nil (h : get ps source = .ok p) : Assigned negated source p ps [] ps where
  atSource := h
  others _ _ := rfl
  targets _ _ h := absurd h.mem List.not_mem_nil

/-- One more target, which may be the source. -/
theorem Assigned.concat (h : Assigned negated source p ps done ps') (target : String) :
    Assigned negated source p ps (done ++ [target])
      (Table.put ps' target ((Picture.copied negated)^[done.count source + 1] p)) where
  atSource := by
    rw [get_put, List.count_append]
    by_cases htarget : target = source
    · rw [if_pos htarget, htarget, List.count_singleton_self]
    · rw [if_neg htarget, h.atSource, List.count_singleton, beq_false_of_ne htarget]
      rfl
  others name hname := by
    rw [List.mem_append, List.mem_singleton, not_or] at hname
    rw [get_put, if_neg (Ne.symm hname.2), h.others name hname.1]
  targets name before hbefore := by
    rw [get_put]
    rcases hbefore.of_concat with ⟨rfl, rfl⟩ | ⟨hne, hbefore⟩
    · rw [if_pos rfl]
    · rw [if_neg hne]
      exact h.targets name before hbefore

end Assigned

/-- A source that is there can be given to all targets. -/
theorem exists_assignAll (eqn : PictureEquation) {ps : Pictures} {p : Picture}
    (hp : get ps eqn.source = .ok p) :
    ∃ ps', assignAll eqn ps = .ok ps' ∧
      Assigned eqn.negated eqn.source p ps eqn.targets ps' := by
  obtain ⟨targets, source, negated, complex⟩ := eqn
  change get ps source = .ok p at hp
  unfold assignAll
  -- The source may be a target, so the invariant says what it is by then.
  induction targets using List.reverseRecOn with
  | nil => exact ⟨ps, rfl, .nil hp⟩
  | append_singleton done target ih =>
      obtain ⟨ps', hrun, hassigned⟩ := ih
      refine ⟨_, ?_, hassigned.concat target⟩
      have hsource : get ps' source = .ok ((Picture.copied negated)^[done.count source] p) :=
        hassigned.atSource
      rw [List.foldlM_append, hrun, Function.iterate_succ_apply']
      show (if negated = true then negateAssign ps' target source
        else assign ps' target source) >>= pure = _
      rw [negateAssign, assign, hsource]
      cases negated <;> rfl

end Pictures

/-! ## chains -/

/-- Whether a record is a relation of an equation. -/
def Record.IsRelation (r : Record) : Prop := r.op = .assign ∨ r.op = .equate

instance (r : Record) : Decidable r.IsRelation := inferInstanceAs (Decidable (_ ∨ _))

/-- A chain of equations as its records show it. -/
structure EquationChain where
  /-- The record that names the first target, and the relation behind it. -/
  head : Record
  relation : Record
  /-- The records of the other targets, each with the relation behind it. -/
  links : List (Record × Record)
  minus : Option Record
  source : Record
  head_op : head.op = .pictureEquation
  isRelation : relation.IsRelation
  links_op : ∀ l ∈ links, l.1.op = .pic ∧ l.2.IsRelation
  minus_op : ∀ r ∈ minus, r.op = .minus
  source_op : source.op = .pic

namespace EquationChain

/-- The records behind the first one. -/
def records (k : EquationChain) : List Record :=
  k.relation :: (k.links.flatMap (fun l => [l.1, l.2]) ++ (k.minus.toList ++ [k.source]))

/-- The names of the targets. -/
def targets (k : EquationChain) : List String :=
  pictureName k.head.firstField :: k.links.map fun l => pictureName l.1.body

/-- The name of the source. -/
def sourceName (k : EquationChain) : String := pictureName k.source.body

/-- Whether the targets get the source negated. -/
def negated (k : EquationChain) : Bool := k.minus.isSome

/-- What the chain asks for. -/
def equation (k : EquationChain) : PictureEquation := ⟨k.targets, k.sourceName, k.negated, false⟩

/-- A source that is no target, or the last one only, is not in front of any target. -/
theorem count_sourceName_eq_zero {k : EquationChain} (h : k.sourceName ∉ k.targets.dropLast)
    {target : String} {before : List String} (hbefore : BeforeLast target k.targets before) :
    before.count k.sourceName = 0 := by
  obtain ⟨after, hsplit, -⟩ := hbefore
  rw [hsplit, List.dropLast_append_cons, List.mem_append, not_or] at h
  exact List.count_eq_zero.mpr h.1

end EquationChain

namespace PictureCommand

/-- A relation without a right-hand side in front of it changes nothing. -/
theorem Equating.add_relation {r : Record} (h : r.IsRelation) (ts : List String) :
    Equating.add ⟨ts, none, false, false⟩ r = ⟨ts, none, false, false⟩ := by
  rcases h with h | h <;> simp [Equating.add, h]

theorem Equating.add_picture {r : Record} (h : r.op = .pic) (ts : List String) (negate : Bool) :
    Equating.add ⟨ts, none, negate, false⟩ r =
      ⟨ts, some (negate, pictureName r.body), false, false⟩ := by
  simp [Equating.add, h]

/-- A relation makes the picture in front of it a target. -/
theorem Equating.add_link {r : Record} (h : r.IsRelation) (ts : List String) (name : String) :
    Equating.add ⟨ts, some (false, name), false, false⟩ r = ⟨ts ++ [name], none, false, false⟩ := by
  rcases h with h | h <;> simp [Equating.add, h]

theorem Equating.foldl_links {links : List (Record × Record)}
    (h : ∀ l ∈ links, l.1.op = .pic ∧ l.2.IsRelation) (ts : List String) :
    (links.flatMap fun l => [l.1, l.2]).foldl Equating.add ⟨ts, none, false, false⟩ =
      ⟨ts ++ links.map fun l => pictureName l.1.body, none, false, false⟩ := by
  induction links generalizing ts with
  | nil => simp
  | cons l links ih =>
      obtain ⟨hpic, hrelation⟩ := h l List.mem_cons_self
      rw [List.flatMap_cons, List.foldl_append, List.foldl_cons, List.foldl_cons, List.foldl_nil,
        add_picture hpic, add_link hrelation, ih fun l' hl' => h l' (List.mem_cons_of_mem l hl')]
      simp

theorem Equating.foldl_minus {minus : Option Record} (h : ∀ r ∈ minus, r.op = .minus)
    (ts : List String) : minus.toList.foldl Equating.add ⟨ts, none, false, false⟩ =
      ⟨ts, none, minus.isSome, false⟩ := by
  cases minus with
  | none => rfl
  | some r => simp [Equating.add, h r rfl]

end PictureCommand

/-- All following records of a kind, if none of them can fail. -/
theorem Reader.run_foldWhile_ok (ε : Type) {β : Type} {accept : Op → Bool}
    (f : β → Record → β) (b : β) {records rest : List Record}
    (hrecords : ∀ r ∈ records, accept r.op = true)
    (hrest : ∀ r ∈ rest.head?, accept r.op = false) (line : Option Nat) :
    ∃ line', (Reader.foldWhile accept (fun b r => (.ok (f b r) : Except ε β)) b).run
      ⟨records ++ rest, line⟩ = (.ok (records.foldl f b), ⟨rest, line'⟩) := by
  show ∃ line', Cursor.foldWhile.go accept (fun b r => .ok (f b r)) b (records ++ rest) line = _
  induction records generalizing b line with
  | nil =>
      cases rest with
      | nil => exact ⟨line, rfl⟩
      | cons r rest =>
          refine ⟨line, ?_⟩
          rw [List.nil_append, Cursor.foldWhile.go, if_neg (by simp [hrest r rfl])]
          rfl
  | cons r records ih =>
      obtain ⟨line', hrun⟩ := ih (f b r) (fun r' hr' => hrecords r' (List.mem_cons_of_mem r hr'))
        (r.line <|> line)
      refine ⟨line', ?_⟩
      rw [List.cons_append, Cursor.foldWhile.go, if_pos (hrecords r List.mem_cons_self)]
      exact hrun

namespace EquationChain

theorem isTerm_of_mem_records (k : EquationChain) :
    ∀ r ∈ k.records, PictureCommand.isTerm r.op = true := by
  have hrelation : ∀ r : Record, r.IsRelation → PictureCommand.isTerm r.op = true := by
    rintro r (h | h) <;> rw [h] <;> rfl
  intro r hr
  rcases List.mem_cons.mp hr with rfl | hr
  · exact hrelation _ k.isRelation
  rcases List.mem_append.mp hr with hr | hr
  · obtain ⟨l, hl, hr⟩ := List.mem_flatMap.mp hr
    obtain ⟨hpic, hlink⟩ := k.links_op l hl
    rcases (by simpa using hr : r = l.1 ∨ r = l.2) with rfl | rfl
    · rw [hpic]
      rfl
    · exact hrelation _ hlink
  rcases List.mem_append.mp hr with hr | hr
  · rw [k.minus_op r (Option.mem_toList.mp hr)]
    rfl
  · rw [List.mem_singleton.mp hr, k.source_op]
    rfl

/-- A chain is read to its last record. -/
theorem run_equation (k : EquationChain) {rest : List Record}
    (hrest : ∀ r ∈ rest.head?, PictureCommand.isTerm r.op = false) (line : Option Nat) :
    ∃ line', (PictureCommand.equation k.head).run ⟨k.records ++ rest, line⟩ =
      (.ok (.equate k.equation), ⟨rest, line'⟩) := by
  obtain ⟨line', hrun⟩ := Reader.run_foldWhile_ok Skip PictureCommand.Equating.add
    ⟨[pictureName k.head.firstField], none, false, false⟩ k.isTerm_of_mem_records hrest line
  have hread : k.records.foldl PictureCommand.Equating.add
      ⟨[pictureName k.head.firstField], none, false, false⟩ =
        ⟨k.targets, some (k.negated, k.sourceName), false, false⟩ := by
    rw [records, List.foldl_cons, PictureCommand.Equating.add_relation k.isRelation,
      List.foldl_append, PictureCommand.Equating.foldl_links k.links_op, List.foldl_append,
      PictureCommand.Equating.foldl_minus k.minus_op, List.foldl_cons, List.foldl_nil,
      PictureCommand.Equating.add_picture k.source_op]
    rfl
  refine ⟨line', ?_⟩
  rw [PictureCommand.equation, Reader.run_bind, hrun, hread]
  rfl

end EquationChain

/-! ## the construct -/

theorem value_perform_equate (e : Engine σ) (cfg : Settings) {s : State σ} {eqn : PictureEquation}
    {ps : Pictures} (hassign : assignAll eqn s.pictures = .ok ps) (hcomplex : eqn.complex = false) :
    (perform e cfg (.picture (.equate eqn)) s).value = (s.withPictures ps, none) := by
  have hreservation : (PictureCommand.equate eqn).reservation? = none := by
    rw [PictureCommand.reservation?, hcomplex]
    rfl
  show (performPicture e cfg (.equate eqn) s).value = _
  rw [performPicture, Noted.value_bind, value_atomically, hreservation, PictureCommand.perform,
    rearrange, Noted.value_pure, hassign]
  rfl

theorem perform_construct_equation (e : Engine σ) (cfg : Settings) (s : State σ) {head : Record}
    {c : Cursor} {command : PictureCommand} (hop : head.op = .pictureEquation)
    (hread : ((PictureCommand.equation head).run c).1 = .ok command) :
    (Script.construct head c).1.perform e cfg s = perform e cfg (.picture command) s := by
  have hcommand : ((Command.read head).run c).1 = .ok (.picture command) := by
    rw [Command.read, hop]
    exact Command.run_of_ok .picture hread
  exact Script.perform_construct e cfg s (by rw [hop]; rfl) hcommand

/-- A chain of equations whose source is there takes its own records, cannot fail, and
changes the targets only.  A target ends up with the source as it was, negated once for
the sign, and once more for every time that the source was a target in front of it.  So
all targets are the same if and only if there is no sign, or it makes no difference to
the picture, or the source was no target or an even number of them in front of each one. -/
theorem equation_chain_equal_iff (e : Engine σ) (cfg : Settings) {s : State σ} (k : EquationChain)
    {p : Picture} (hp : Pictures.get s.pictures k.sourceName = .ok p) {rest : List Record}
    (hrest : ∀ r ∈ rest.head?, PictureCommand.isTerm r.op = false) (line : Option Nat) :
    let c := Script.construct k.head ⟨k.records ++ rest, line⟩
    c.2.rest = rest ∧
    ∃ ps, (c.1.perform e cfg s).value = (s.withPictures ps, none) ∧
      (∀ name ∉ k.targets, Pictures.get ps name = Pictures.get s.pictures name) ∧
      (∀ target before, BeforeLast target k.targets before → Pictures.get ps target =
        .ok ((Picture.copied k.negated)^[before.count k.sourceName + 1] p)) ∧
      ((∀ target ∈ k.targets, Pictures.get ps target = .ok (p.copied k.negated)) ↔
        k.negated = false ∨ p.negated = p ∨
          ∀ target before, BeforeLast target k.targets before →
            Even (before.count k.sourceName)) := by
  intro c
  obtain ⟨line', hrun⟩ := k.run_equation hrest line
  obtain ⟨ps, hassign, hps⟩ := Pictures.exists_assignAll k.equation hp
  have htargets : ∀ target before, BeforeLast target k.targets before → Pictures.get ps target =
      .ok ((Picture.copied k.negated)^[before.count k.sourceName + 1] p) := hps.targets
  have hcursor : c.2.rest = rest := by
    show ((Command.read k.head).run ⟨k.records ++ rest, line⟩).2.rest = rest
    rw [Command.read, k.head_op]
    dsimp only
    rw [Command.of, Reader.run_map, hrun]
  refine ⟨hcursor, ps, ?_, hps.others, htargets, ?_, ?_⟩
  · rw [perform_construct_equation e cfg s k.head_op (congrArg Prod.fst hrun)]
    exact value_perform_equate e cfg hassign rfl
  · intro hequal
    by_cases hplain : k.negated = false
    · exact .inl hplain
    by_cases hsame : p.negated = p
    · exact .inr (.inl hsame)
    refine .inr (.inr fun target before hbefore => ?_)
    have hcopies := Except.ok.inj
      ((htargets target before hbefore).symm.trans (hequal target hbefore.mem))
    rcases (Picture.iterate_copied_eq_iff _ _ _).mp hcopies with h | h | h
    · exact absurd h hplain
    · exact absurd h hsame
    · exact h
  · intro heven target hmem
    obtain ⟨before, hbefore⟩ := exists_beforeLast hmem
    rw [htargets target before hbefore]
    refine congrArg Except.ok ((Picture.iterate_copied_eq_iff _ _ _).mpr ?_)
    exact heven.imp_right (Or.imp_right fun h => h target before hbefore)

/-- `"q" = "p" = -"p"`: the source is the last target, and both get the square reversed. -/
theorem equation_chain_equal_of_last_target :
    let p : Picture := { outline := [.rectangle ⟨0, 0, 10, 10⟩] }
    let s := (State.initial ({} : CallLog) {} .unicode).withPictures [("p", p)]
    let k := (Script.construct ⟨"pic_eqn", none, "\"q\""⟩ ⟨[⟨"eq", none, ""⟩,
      ⟨"pic", none, "\"p\""⟩, ⟨"as", none, ""⟩, ⟨"mi", none, ""⟩, ⟨"pic", none, "\"p\""⟩,
      ⟨"shipout", none, ""⟩], some 7⟩).1
    ∃ ps, (k.perform Engine.recording {} s).value = (s.withPictures ps, none) ∧
      Pictures.get ps "q" = .ok p.negated ∧ Pictures.get ps "p" = .ok p.negated := by
  intro p s k
  let chain : EquationChain :=
    { head := ⟨"pic_eqn", none, "\"q\""⟩
      relation := ⟨"eq", none, ""⟩
      links := [(⟨"pic", none, "\"p\""⟩, ⟨"as", none, ""⟩)]
      minus := some ⟨"mi", none, ""⟩
      source := ⟨"pic", none, "\"p\""⟩
      head_op := by decide
      isRelation := by decide
      links_op := by decide
      minus_op := by decide
      source_op := by decide }
  have hsource : Pictures.get s.pictures chain.sourceName = .ok p := by decide +kernel
  let rest : List Record := [⟨"shipout", none, ""⟩]
  have hrest : ∀ r ∈ rest.head?, PictureCommand.isTerm r.op = false := by decide
  obtain ⟨-, ps, hperform, -, -, hequal⟩ := equation_chain_equal_iff Engine.recording {} chain
    hsource hrest (some 7)
  refine ⟨ps, hperform, ?_⟩
  have htargets := hequal.mpr <| .inr <| .inr fun target before hbefore =>
    EquationChain.count_sourceName_eq_zero (by decide +kernel) hbefore ▸ Even.zero
  exact ⟨htargets "q" (by decide +kernel), htargets "p" (by decide +kernel)⟩

/-- `"p" = "q" = -"p"`: the source is the first target, and the other one gets the square back
as it was. -/
theorem equation_chain_of_first_target :
    let p : Picture := { outline := [.rectangle ⟨0, 0, 10, 10⟩] }
    let s := (State.initial ({} : CallLog) {} .unicode).withPictures [("p", p)]
    let k := (Script.construct ⟨"pic_eqn", none, "\"p\""⟩ ⟨[⟨"eq", none, ""⟩,
      ⟨"pic", none, "\"q\""⟩, ⟨"eq", none, ""⟩, ⟨"mi", none, ""⟩, ⟨"pic", none, "\"p\""⟩],
      none⟩).1
    (k.perform Engine.recording {} s).value.2 = none ∧
    Pictures.get (k.perform Engine.recording {} s).value.1.pictures "p" = .ok p.negated ∧
    Pictures.get (k.perform Engine.recording {} s).value.1.pictures "q" = .ok p ∧
    p ≠ p.negated := by
  decide +kernel

end FontTrace
