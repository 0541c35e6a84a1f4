import FontTrace.Proofs.Trace.Boundary

/-!
# FontTrace.Proofs.Trace.Complete

Feature tables and shipments with all the records that belong to them.  If an
operand is broken, the records behind it are left over; none of them starts a
construct, so each one is left out on its own.

* `FeatureTable`, `ShippedPicture` — the records of such constructs;
* `Script.forall_of_leftover` — the constructs in a record and those behind it that
  start nothing;
* `FeatureTable.script`, `ShippedPicture.script` — what these records are read as.
-/

namespace FontTrace

/-! ## readers that have all their records -/

theorem not_ranOut_ok {α : Type} (a : α) : ¬RanOut (.ok a : Except Skip α) := by
  rintro ⟨op, h⟩
  cases h

theorem not_ranOut_orMalformed {α : Type} (op : String) (x : Except OperandError α) :
    ¬RanOut (orMalformed op x) := by
  rintro ⟨op', h⟩
  cases x <;> cases h

theorem not_ranOut_except_bind {α β : Type} {x : Except Skip α} {f : α → Except Skip β}
    (hx : ¬RanOut x) (hf : ∀ a, ¬RanOut (f a)) : ¬RanOut (x >>= f) := by
  cases x with
  | ok a => exact hf a
  | error reason =>
      rintro ⟨op, h⟩
      cases h
      exact hx ⟨op, rfl⟩

theorem not_ranOut_mapM {α β : Type} {f : α → Except Skip β} (hf : ∀ a, ¬RanOut (f a))
    (as : List α) : ¬RanOut (as.mapM f) := by
  induction as with
  | nil => exact not_ranOut_ok _
  | cons a as ih =>
      rw [List.mapM_cons]
      exact not_ranOut_except_bind (hf a) fun b =>
        not_ranOut_except_bind ih fun bs => not_ranOut_ok _

theorem not_ranOut_charOperand (op text : String) : ¬RanOut (charOperand op text) :=
  not_ranOut_orMalformed op _

theorem not_ranOut_scaleAndOperand (r : Record) : ¬RanOut (scaleAndOperand r) :=
  not_ranOut_except_bind (not_ranOut_orMalformed _ _) fun _ =>
    not_ranOut_except_bind (not_ranOut_orMalformed _ _) fun _ => not_ranOut_ok _

namespace Reader

variable {α β : Type}

theorem not_ranOut_ofExcept {x : Except Skip α} (h : ¬RanOut x) (c : Cursor) :
    ¬RanOut ((ofExcept x).run c).1 := by
  cases x with
  | ok a => exact not_ranOut_ok a
  | error reason => exact h

theorem eq_of_run_ofExcept {ε : Type} {x : Except ε α} {c d : Cursor} {a : α}
    (h : (ofExcept x).run c = (.ok a, d)) : x = .ok a ∧ d = c := by
  cases x with
  | ok b =>
      cases h
      exact ⟨rfl, rfl⟩
  | error e => cases h

theorem run_expect (op : String) {c : Cursor} {r : Record} {rest : List Record}
    (h : c.rest = r :: rest) : (expect op).run c = (.ok r, c.past r rest) := by
  obtain ⟨_, line⟩ := c
  cases h
  rfl

theorem not_ranOut_bind {x : Reader Skip α} {f : α → Reader Skip β} {c : Cursor}
    (hx : ¬RanOut (x.run c).1) (hf : ∀ a d, x.run c = (.ok a, d) → ¬RanOut ((f a).run d).1) :
    ¬RanOut ((x >>= f).run c).1 := by
  rw [run_bind]
  rcases hc : x.run c with ⟨a | a, d⟩
  · rw [hc] at hx
    rintro ⟨op, h⟩
    cases h
    exact hx ⟨op, rfl⟩
  · exact hf a d hc

theorem not_ranOut_foldWhile {accept : Op → Bool} {f : β → Record → Except Skip β}
    (hf : ∀ b r, ¬RanOut (f b r)) (b : β) (c : Cursor) :
    ¬RanOut ((foldWhile accept f b).run c).1 := by
  obtain ⟨rest, line⟩ := c
  show ¬RanOut (Cursor.foldWhile.go accept f b rest line).1
  induction rest generalizing b line with
  | nil => exact not_ranOut_ok b
  | cons r rest ih =>
      unfold Cursor.foldWhile.go
      split
      · cases hr : f b r with
        | ok b' => exact ih b' _
        | error reason =>
            have hreason := hf b r
            rw [hr] at hreason
            rintro ⟨op, h⟩
            cases h
            exact hreason ⟨op, rfl⟩
      · exact not_ranOut_ok b

/-- What is left behind two readers was left behind the first one. -/
theorem suffix_bind {x : Reader Skip α} {f : α → Reader Skip β} {c d : Cursor} {a : α}
    (h : x.run c = (.ok a, d)) : ((x >>= f).run c).2.rest <:+ d.rest := by
  rw [run_bind, h]
  exact (f a).suffix d

end Reader

/-! ## what is left over -/

/-- What goes on with a construct starts none. -/
theorem Command.read_of_continues {r : Record} (h : r.op.continues = true) :
    Command.read r = Reader.fail (outOfPlace r) := by
  unfold Command.read
  cases hop : r.op <;> rw [hop] at h <;> exact absurd h Bool.false_ne_true

namespace Script

theorem command_of_leftover {c : Cursor} (h : ∀ q ∈ c.rest, q.op.continues = true) :
    ∀ k ∈ ofCursor c, k.command = .error (outOfPlace k.head) := by
  obtain ⟨rest, line⟩ := c
  induction rest generalizing line with
  | nil =>
      rw [ofCursor_nil]
      exact fun k hk => absurd hk List.not_mem_nil
  | cons r rest ih =>
      have hread := Command.read_of_continues (h r List.mem_cons_self)
      rw [ofCursor_cons, construct, hread]
      intro k hk
      rcases List.mem_cons.mp hk with rfl | hk
      · rfl
      · exact ih _ (fun q hq => h q (List.mem_cons_of_mem _ hq)) k hk

/-- The constructs of a record with others behind it that start none: the first
one, and those that are left over. -/
theorem forall_of_leftover {P : Construct → Prop} {r : Record} {rest : List Record}
    (hfirst : ∀ c : Cursor, c.rest = rest → P (construct r c).1)
    (hleft : ∀ c : Cursor, c.rest = rest →
      ∀ q ∈ (construct r c).2.rest, q.op.continues = true)
    (hstray : ∀ k : Construct, k.command = .error (outOfPlace k.head) → P k) :
    ∀ k ∈ ofRecords (r :: rest), P k := by
  intro k hk
  rw [ofRecords, Cursor.start, ofCursor_cons] at hk
  rcases List.mem_cons.mp hk with rfl | hk
  · exact hfirst _ rfl
  · exact hstray k (command_of_leftover (hleft _ rfl) k hk)

end Script

/-! ## what the records are -/

/-- The records of a feature table. -/
inductive FeatureTable : List Record → Prop where
  | ligtable (r : Record) (steps : List Record) (head : r.op = .ligtable)
      (body : ∀ q ∈ steps, LigtableProgram.isStep q.op = true) : FeatureTable (r :: steps)
  | charlist (r : Record) (variants : List Record) (head : r.op = .charlist)
      (body : ∀ q ∈ variants, q.op = .label) : FeatureTable (r :: variants)
  /-- Behind a label that cannot be read, the recipe must not be taken for a construct. -/
  | extensible (r recipe : Record) (head : r.op = .extensible)
      (body : recipe.op.continues = true ∨ ∃ c, charOperand "extensible" r.body = .ok c) :
      FeatureTable [r, recipe]

/-- The records of a shipment. -/
inductive ShippedPicture : List Record → Prop where
  | shipout (r pic : Record) (head : r.op = .shipout) (body : pic.op = .pic) :
      ShippedPicture [r, pic]

/-- Whether a command does nothing but fill tables. -/
def Command.fillsTables : Command → Bool
  | .ligtable _ | .charlist _ | .extensible _ => true
  | _ => false

/-- Whether a command ships a picture out. -/
def Command.ships : Command → Bool
  | .ship _ => true
  | _ => false

/-- A construct that lacks nothing, and has one of the accepted commands if it has one. -/
structure Construct.Only (accept : Command → Bool) (k : Construct) : Prop where
  command : ∀ c, k.command = .ok c → accept c = true
  whole : ¬k.IsCut

variable {accept : Command → Bool}

theorem Construct.only_of_leftover {k : Construct}
    (h : k.command = .error (outOfPlace k.head)) : k.Only accept := by
  refine ⟨fun c hc => ?_, ?_⟩
  · rw [h] at hc
    cases hc
  · rintro ⟨-, ⟨op, hop⟩ | ⟨op, hop⟩⟩ <;> rw [h] at hop <;> cases hop

/-- A construct whose reader has all its records. -/
theorem Construct.only_construct {α : Type} {make : α → Command} {x : Reader Skip α}
    {r : Record} {c : Cursor} (hread : Command.read r = Command.of make x)
    (hx : ¬RanOut (x.run c).1) (hmake : ∀ a, accept (make a) = true)
    (hship : ∀ a, (x.run c).1 = .ok a → ∀ op, make a ≠ .ship (.error (.truncated op))) :
    (Script.construct r c).1.Only accept := by
  have hcommand : (Script.construct r c).1.command = (x.run c).1.map make := by
    show ((Command.read r).run c).1 = _
    rw [hread, Command.of, Reader.run_map]
  cases hrun : (x.run c).1 with
  | error reason =>
      rw [hrun] at hcommand hx
      refine ⟨fun c hc => ?_, ?_⟩
      · cases hcommand.symm.trans hc
      · rintro ⟨-, ⟨op, hop⟩ | ⟨op, hop⟩⟩
        · cases hcommand.symm.trans hop
          exact hx ⟨op, rfl⟩
        · cases hcommand.symm.trans hop
  | ok a =>
      rw [hrun] at hcommand
      refine ⟨fun c hc => ?_, ?_⟩
      · cases hcommand.symm.trans hc
        exact hmake a
      · rintro ⟨-, ⟨op, hop⟩ | ⟨op, hop⟩⟩
        · cases hcommand.symm.trans hop
        · exact hship a hrun op (Except.ok.inj (hcommand.symm.trans hop))

/-! ## what they are read as -/

theorem LigtableProgram.only_construct {r : Record} (h : r.op = .ligtable) (c : Cursor) :
    (Script.construct r c).1.Only Command.fillsTables := by
  have hread : Command.read r = Command.of .ligtable (LigtableProgram.read r) := by
    rw [Command.read, h]
  refine Construct.only_construct hread ?_ (fun _ => rfl) fun _ _ _ => Command.noConfusion
  refine Reader.not_ranOut_bind (Reader.not_ranOut_ofExcept (not_ranOut_scaleAndOperand r) c) ?_
  intro scale d _
  exact Reader.not_ranOut_bind (not_ranOut_ok _) fun _ _ _ => not_ranOut_ok _

theorem Charlist.only_construct {r : Record} (h : r.op = .charlist) (c : Cursor) :
    (Script.construct r c).1.Only Command.fillsTables := by
  have hread : Command.read r = Command.of .charlist (Charlist.read r) := by
    rw [Command.read, h]
  refine Construct.only_construct hread ?_ (fun _ => rfl) fun _ _ _ => Command.noConfusion
  refine Reader.not_ranOut_bind (Reader.not_ranOut_ofExcept (not_ranOut_charOperand _ _) c) ?_
  intro base d _
  refine Reader.not_ranOut_bind (Reader.not_ranOut_foldWhile ?_ [] d) fun _ _ _ => not_ranOut_ok _
  rintro vs v ⟨op, hop⟩
  cases hv : charOperand "charlist" v.body with
  | ok c =>
      rw [hv] at hop
      cases hop
  | error reason =>
      rw [hv] at hop
      cases hop
      exact not_ranOut_charOperand _ _ ⟨op, hv⟩

theorem Extensible.only_construct {r recipe : Record} (h : r.op = .extensible) {c : Cursor}
    (hc : c.rest = [recipe]) : (Script.construct r c).1.Only Command.fillsTables := by
  have hread : Command.read r = Command.of .extensible (Extensible.read r) := by
    rw [Command.read, h]
  refine Construct.only_construct hread ?_ (fun _ => rfl) fun _ _ _ => Command.noConfusion
  refine Reader.not_ranOut_bind (Reader.not_ranOut_ofExcept (not_ranOut_charOperand _ _) c) ?_
  intro label d hd
  obtain ⟨-, rfl⟩ := Reader.eq_of_run_ofExcept hd
  have hexpect := Reader.run_expect "extensible" hc
  refine Reader.not_ranOut_bind (by rw [hexpect]; exact not_ranOut_ok _) fun q d _ => ?_
  refine Reader.not_ranOut_bind
    (Reader.not_ranOut_ofExcept (not_ranOut_orMalformed _ _) d) fun fields d _ => ?_
  refine Reader.not_ranOut_bind (Reader.not_ranOut_ofExcept
    (not_ranOut_mapM (not_ranOut_charOperand "extensible") fields) d) fun pieces d _ => ?_
  split
  · exact not_ranOut_ok _
  · rintro ⟨op, hop⟩
    cases hop

/-- The recipe is taken, or starts no construct. -/
theorem Extensible.leftover {r recipe : Record} (h : r.op = .extensible) {c : Cursor}
    (hc : c.rest = [recipe])
    (hrecipe : recipe.op.continues = true ∨ ∃ l, charOperand "extensible" r.body = .ok l) :
    ∀ q ∈ (Script.construct r c).2.rest, q.op.continues = true := by
  intro q hq
  rcases hrecipe with hstray | ⟨label, hlabel⟩
  · have hmem := ((Command.read r).suffix c).mem hq
    rw [hc, List.mem_singleton] at hmem
    rwa [hmem]
  · have hread : (Script.construct r c).2 = ((Extensible.read r).run c).2 := by
      show ((Command.read r).run c).2 = _
      rw [Command.read, h]
      dsimp only
      rw [Command.of, Reader.run_map]
    have hrun : (Reader.ofExcept (charOperand "extensible" r.body)).run c = (.ok label, c) := by
      rw [hlabel]
      rfl
    rw [hread, Extensible.read, Reader.run_bind, hrun] at hq
    exact absurd ((Reader.suffix_bind (Reader.run_expect "extensible" hc)).mem hq) List.not_mem_nil

theorem Shipment.only_construct {r pic : Record} (h : r.op = .shipout) {c : Cursor}
    (hc : c.rest = [pic]) : (Script.construct r c).1.Only Command.ships := by
  have hread : Command.read r = Command.of .ship (Shipment.read r).attempt := by
    rw [Command.read, h]
  refine Construct.only_construct hread (not_ranOut_ok _) (fun _ => rfl) ?_
  intro a ha op hship
  have hran : RanOut ((Shipment.read r).run c).1 := by
    refine ⟨op, ?_⟩
    cases ha
    exact Command.ship.inj hship
  revert hran
  refine Reader.not_ranOut_bind (Reader.not_ranOut_ofExcept (not_ranOut_orMalformed _ _) c) ?_
  intro box d hd
  obtain ⟨-, rfl⟩ := Reader.eq_of_run_ofExcept hd
  have hexpect := Reader.run_expect "shipout" hc
  exact Reader.not_ranOut_bind (by rw [hexpect]; exact not_ranOut_ok _) fun _ _ _ => not_ranOut_ok _

theorem FeatureTable.script {records : List Record} (h : FeatureTable records) :
    ∀ k ∈ Script.ofRecords records, k.Only Command.fillsTables := by
  cases h with
  | ligtable r steps head body =>
      refine Script.forall_of_leftover (fun c _ => LigtableProgram.only_construct head c) ?_
        fun k => Construct.only_of_leftover
      intro c hc q hq
      have hstep := body q (hc ▸ ((Command.read r).suffix c).mem hq)
      cases hop : q.op <;> rw [hop] at hstep <;> first | rfl | cases hstep
  | charlist r variants head body =>
      refine Script.forall_of_leftover (fun c _ => Charlist.only_construct head c) ?_
        fun k => Construct.only_of_leftover
      intro c hc q hq
      rw [body q (hc ▸ ((Command.read r).suffix c).mem hq)]
      rfl
  | extensible r recipe head body =>
      exact Script.forall_of_leftover (fun c hc => Extensible.only_construct head hc)
        (fun c hc => Extensible.leftover head hc body) fun k => Construct.only_of_leftover

theorem ShippedPicture.script {records : List Record} (h : ShippedPicture records) :
    ∀ k ∈ Script.ofRecords records, k.Only Command.ships := by
  obtain ⟨r, pic, head, body⟩ := h
  refine Script.forall_of_leftover (fun c hc => Shipment.only_construct head hc) ?_
    fun k => Construct.only_of_leftover
  intro c hc q hq
  have hmem := ((Command.read r).suffix c).mem hq
  rw [hc, List.mem_singleton] at hmem
  rw [hmem, body]
  rfl

theorem FeatureTable.startsAfresh {records : List Record} (h : FeatureTable records) :
    StartsAfresh records := by
  cases h <;> rintro q ⟨⟩ <;> rename_i head _ <;> rw [head] <;> rfl

theorem ShippedPicture.startsAfresh {records : List Record} (h : ShippedPicture records) :
    StartsAfresh records := by
  obtain ⟨r, pic, head, -⟩ := h
  rintro q ⟨⟩
  rw [head]
  rfl

end FontTrace
