import FontTrace.Script

/-!
# FontTrace.Proofs.Trace.Boundary

Where a construct ends.  Behind its first record a construct takes the records
it has to have, and then those of a few kinds (`Op.continues`) as long as they
follow.  So a construct that lacks nothing is the same whatever stands behind
it, unless that goes on with it; and a trace can be cut in front of every
record that goes on with nothing.

* `Reader.Local` — a reader sees no further than that, with one law for each
  way of building readers;
* `local_read` — every command is read that way;
* `contents_append` — the constructs of two traces, one behind the other.
-/

namespace FontTrace

/-- The operations that go on with a construct in front of them. -/
def Op.continues : Op → Bool
  | .turningCheck | .pic | .assign | .equate | .plus | .minus | .withPen | .withWeight
  | .transform _ | .label | .skipLabel | .boundaryLabel | .kern | .ligature _ | .skipTo => true
  | _ => false

/-- Whether no construct in front of these records goes on with them. -/
def StartsAfresh (records : List Record) : Prop := ∀ r ∈ records.head?, r.op.continues = false

theorem startsAfresh_nil : StartsAfresh [] := by
  intro r hr
  simp at hr

/-- The first record is none that goes on with a construct. -/
theorem StartsAfresh.rejects {accept : Op → Bool} {r : Record} {tail : List Record}
    (ht : StartsAfresh (r :: tail)) (h : ∀ op, accept op = true → op.continues = true) :
    accept r.op = false := by
  cases ha : accept r.op with
  | false => rfl
  | true => cases (ht r rfl).symm.trans (h _ ha)

/-- Whether the trace ended before a record that has to be there. -/
def RanOut {α : Type} (x : Except Skip α) : Prop := ∃ op, x = .error (.truncated op)

/-! ## readers that see no further -/

/-- A reader that does not see what is behind the records that it takes, and
does not look at source lines: with more records behind them the result is the
same, and more is left.  Results with `cut` are exempt, as they come from the
trace having ended. -/
def Reader.Local {ε α : Type} (cut : Except ε α → Prop) (x : Reader ε α) : Prop :=
  ∀ (c d : Cursor) (tail : List Record), d.rest = c.rest ++ tail → StartsAfresh tail →
    (tail ≠ [] → ¬cut (x.run c).1) →
    (x.run d).1 = (x.run c).1 ∧ (x.run d).2.rest = (x.run c).2.rest ++ tail

namespace Reader

variable {ε α β : Type}

theorem run_bind (x : Reader ε α) (f : α → Reader ε β) (c : Cursor) :
    (x >>= f).run c = match x.run c with
      | (.ok a, c) => (f a).run c
      | (.error e, c) => (.error e, c) := by
  show (match x.run c with
    | (.ok a, c) => (f a).run c
    | (.error e, c) => (.error e, c)) = _
  rcases x.run c with ⟨a | a, c'⟩ <;> rfl

theorem run_map (x : Reader ε α) (f : α → β) (c : Cursor) :
    (f <$> x).run c = ((x.run c).1.map f, (x.run c).2) := by
  show (Reader.andThen x fun a => Reader.value (f a)).run c = _
  unfold Reader.andThen
  dsimp only
  rcases x.run c with ⟨a | a, c'⟩ <;> rfl

theorem Local.mono {cut cut' : Except ε α → Prop} {x : Reader ε α} (hx : Local cut x)
    (h : ∀ r, cut r → cut' r) : Local cut' x := by
  intro c d tail hd ht hc
  exact hx c d tail hd ht fun hne hcut => hc hne (h _ hcut)

theorem local_value (cut : Except ε α → Prop) (a : α) : Local cut (value a) := by
  intro c d tail hd _ _
  exact ⟨rfl, hd⟩

theorem local_fail (cut : Except ε α → Prop) (e : ε) : Local cut (fail e) := by
  intro c d tail hd _ _
  exact ⟨rfl, hd⟩

theorem local_ofExcept (cut : Except ε α → Prop) (x : Except ε α) : Local cut (ofExcept x) := by
  cases x with
  | ok a => exact local_value cut a
  | error e => exact local_fail cut e

theorem local_takeIf (cut : Except ε (Option Record) → Prop) {accept : Op → Bool}
    (h : ∀ op, accept op = true → op.continues = true) : Local cut (takeIf accept) := by
  rintro ⟨rest, line⟩ ⟨rest', line'⟩ tail hd ht -
  simp only at hd
  subst hd
  cases rest with
  | nil =>
      cases tail with
      | nil => simp [takeIf, Cursor.takeIf]
      | cons r tail =>
          have hr := ht.rejects h
          simp [takeIf, Cursor.takeIf, hr]
  | cons r rest =>
      cases ha : accept r.op <;> simp [takeIf, Cursor.takeIf, Cursor.past, ha]

theorem local_foldWhile (cut : Except ε β → Prop) {accept : Op → Bool}
    (h : ∀ op, accept op = true → op.continues = true) (f : β → Record → Except ε β) (b : β) :
    Local cut (foldWhile accept f b) := by
  rintro ⟨rest, line⟩ ⟨rest', line'⟩ tail hd ht -
  simp only at hd
  subst hd
  simp only [foldWhile, Cursor.foldWhile]
  induction rest generalizing b line line' with
  | nil =>
      cases tail with
      | nil => simp [Cursor.foldWhile.go]
      | cons r tail =>
          have hr := ht.rejects h
          simp [Cursor.foldWhile.go, hr]
  | cons r rest ih =>
      rw [List.cons_append, Cursor.foldWhile.go, Cursor.foldWhile.go]
      cases accept r.op with
      | false => simp
      | true =>
          cases f b r with
          | ok b' => simpa using ih b' (r.line <|> line) (r.line <|> line')
          | error e => simp

/-- A record that has to be there is there with more records behind it. -/
theorem local_expect (op : String) : Local RanOut (expect op) := by
  rintro ⟨rest, line⟩ ⟨rest', line'⟩ tail hd ht hc
  simp only at hd
  subst hd
  cases rest with
  | nil =>
      cases tail with
      | nil => exact ⟨rfl, rfl⟩
      | cons r tail => exact absurd ⟨op, rfl⟩ (hc (List.cons_ne_nil r tail))
  | cons r rest => exact ⟨rfl, rfl⟩

theorem Local.andThen {x : Reader Skip α} {f : α → Reader Skip β} (hx : Local RanOut x)
    (hf : ∀ a, Local RanOut (f a)) : Local RanOut (x >>= f) := by
  intro c d tail hd ht hc
  rw [run_bind] at hc ⊢
  rw [run_bind]
  rcases hxc : x.run c with ⟨r, c'⟩
  rcases hxd : x.run d with ⟨r', d'⟩
  rw [hxc] at hc
  -- where the first reader ran out, so did both together
  have hcut : tail ≠ [] → ¬RanOut (x.run c).1 := by
    rw [hxc]
    rintro hne ⟨op, rfl⟩
    exact hc hne ⟨op, rfl⟩
  obtain ⟨h₁, h₂⟩ := hx c d tail hd ht hcut
  rw [hxc, hxd] at h₁ h₂
  cases h₁
  cases r with
  | error e => exact ⟨rfl, h₂⟩
  | ok a => exact hf a c' d' tail h₂ ht hc

theorem Local.map {x : Reader ε α} {cut : Except ε α → Prop} {cut' : Except ε β → Prop}
    (f : α → β) (hx : Local cut x) (h : ∀ r, cut r → cut' (r.map f)) : Local cut' (f <$> x) := by
  intro c d tail hd ht hc
  rw [run_map] at hc ⊢
  rw [run_map]
  obtain ⟨h₁, h₂⟩ := hx c d tail hd ht fun hne hcut => hc hne (h _ hcut)
  exact ⟨congrArg (Except.map f) h₁, h₂⟩

/-- The result of an attempt is cut if what was attempted is. -/
theorem Local.attempt {ε' : Type} {x : Reader ε α} {cut : Except ε α → Prop} (hx : Local cut x) :
    Local (fun r : Except ε' (Except ε α) => ∃ y, r = .ok y ∧ cut y) x.attempt := by
  intro c d tail hd ht hc
  obtain ⟨h₁, h₂⟩ := hx c d tail hd ht fun hne hcut => hc hne ⟨_, rfl, hcut⟩
  exact ⟨congrArg Except.ok h₁, h₂⟩

theorem local_operand (op : String) (x : Except OperandError α) :
    Local RanOut (operand op x) := local_ofExcept RanOut _

end Reader

/-! ## commands -/

namespace PictureCommand

open Reader

theorem local_turning : Local RanOut turning := by
  refine (local_takeIf RanOut ?_).andThen fun r => ?_
  · intro op hop
    rw [eq_of_beq hop]
    rfl
  · cases r with
    | none => exact local_value RanOut none
    | some check =>
        refine (local_expect _).andThen fun number => ?_
        refine (local_operand _ _).andThen fun check => ?_
        exact (local_operand _ _).andThen fun number => local_value RanOut _

theorem local_minusPicture (term : Record) : Local RanOut (minusPicture term) := by
  unfold minusPicture
  split
  · refine (local_takeIf RanOut ?_).andThen fun r => local_value RanOut _
    intro op hop
    rw [eq_of_beq hop]
    rfl
  · exact local_value RanOut none

theorem local_options : Local RanOut options := by
  refine local_foldWhile RanOut ?_ _ _
  intro op hop
  rcases Bool.or_eq_true_iff.mp hop with h | h <;> rw [eq_of_beq h] <;> rfl

theorem local_transforms : Local RanOut transforms := by
  refine local_foldWhile RanOut ?_ _ _
  intro op hop
  cases op <;> first | rfl | contradiction

theorem local_stroke (term : Record) (filled : Bool) (pen : Option String) (weight : Int)
    (turning : Option Turning) : Local RanOut (stroke term filled pen weight turning) := by
  refine (local_operand _ _).andThen fun path => ?_
  cases pen with
  | none => exact (local_value RanOut _).andThen fun pen => local_value RanOut _
  | some text => exact (local_operand _ _).andThen fun pen => local_value RanOut _

theorem local_addto (r : Record) : Local RanOut (addto r) := by
  refine local_turning.andThen fun turning => ?_
  refine (local_expect _).andThen fun term => ?_
  refine (local_minusPicture term).andThen fun behind => ?_
  refine local_options.andThen fun (pen, weight) => ?_
  dsimp only
  split
  · exact local_transforms.andThen fun m => local_value RanOut _
  · exact (local_ofExcept RanOut _).andThen fun source => local_value RanOut _
  · exact (local_stroke _ _ _ _ _).andThen fun k => local_value RanOut _
  · exact (local_stroke _ _ _ _ _).andThen fun k => local_value RanOut _
  · exact local_fail RanOut _

theorem local_equation (r : Record) : Local RanOut (equation r) := by
  refine (local_foldWhile RanOut ?_ _ _).andThen fun e => ?_
  · intro op hop
    simp only [isTerm, Bool.or_eq_true, beq_iff_eq] at hop
    rcases hop with (((rfl | rfl) | rfl) | rfl) | rfl <;> rfl
  · split
    · exact local_value RanOut _
    · exact local_fail RanOut _

theorem local_weight : Local RanOut weight := by
  refine local_foldWhile RanOut ?_ _ _
  intro op hop
  rw [eq_of_beq hop]
  rfl

theorem local_culling (r : Record) : Local RanOut (culling r) := by
  refine (local_expect _).andThen fun range => ?_
  refine (local_ofExcept RanOut _).andThen fun mode => ?_
  refine (local_operand _ _).andThen fun p => ?_
  exact local_weight.andThen fun w => local_value RanOut _

end PictureCommand

open Reader

theorem LigtableProgram.local_read (r : Record) : Local RanOut (LigtableProgram.read r) := by
  refine (local_ofExcept RanOut _).andThen fun (scale, _) => ?_
  refine Local.andThen ?_ fun result => local_value RanOut _
  refine ((local_foldWhile (fun _ => False) ?_ _ _).attempt).mono ?_
  · intro op hop
    cases op <;> first | rfl | contradiction
  · rintro r ⟨y, -, hy⟩
    exact hy.elim

theorem Charlist.local_read (r : Record) : Local RanOut (Charlist.read r) := by
  refine (local_ofExcept RanOut _).andThen fun base => ?_
  refine (local_foldWhile RanOut ?_ _ _).andThen fun variants => local_value RanOut _
  intro op hop
  rw [eq_of_beq hop]
  rfl

theorem Extensible.local_read (r : Record) : Local RanOut (Extensible.read r) := by
  refine (local_ofExcept RanOut _).andThen fun label => ?_
  refine (local_expect _).andThen fun recipe => ?_
  refine (local_operand _ _).andThen fun fields => ?_
  refine (local_ofExcept RanOut _).andThen fun pieces => ?_
  split
  · exact local_value RanOut _
  · exact local_fail RanOut _

theorem FontParam.local_readList (r : Record) : Local RanOut (FontParam.readList r) := by
  refine (local_ofExcept RanOut _).andThen fun (scale, first) => ?_
  refine (local_operand _ _).andThen fun first => ?_
  refine (local_expect _).andThen fun values => ?_
  exact (local_operand _ _).andThen fun values => local_value RanOut _

theorem Shipment.local_read (r : Record) : Local RanOut (Shipment.read r) := by
  refine (local_operand _ _).andThen fun box => ?_
  exact (local_expect _).andThen fun picture => local_value RanOut _

namespace Command

/-- Whether there is no command, or no shipment in it, since a record is not there. -/
def CutShort (x : Except Skip Command) : Prop :=
  RanOut x ∨ ∃ op, x = .ok (.ship (.error (.truncated op)))

theorem local_of {α : Type} {make : α → Command} {x : Reader Skip α} (hx : Local RanOut x) :
    Local CutShort (of make x) := by
  refine hx.map make ?_
  rintro r ⟨op, rfl⟩
  exact .inl ⟨op, rfl⟩

theorem local_single {α : Type} {make : α → Command} (x : Except Skip α) :
    Local CutShort (single make x) := local_of (local_ofExcept RanOut x)

/-- Every command sees no further than its last record. -/
theorem local_read (r : Record) : Local CutShort (Command.read r) := by
  unfold Command.read
  cases r.op with
  | ascii => exact local_value _ _
  | addto => exact local_of (PictureCommand.local_addto r)
  | cull => exact local_of (PictureCommand.local_culling r)
  | picture => exact local_value _ _
  | pictureEquation => exact local_of (PictureCommand.local_equation r)
  | shipout =>
      refine (Shipment.local_read r).attempt.map _ ?_
      rintro _ ⟨_, rfl, op, rfl⟩
      exact .inr ⟨op, rfl⟩
  | ligtable => exact local_of (LigtableProgram.local_read r)
  | fontdimen => exact local_of (FontParam.local_readList r)
  | charlist => exact local_of (Charlist.local_read r)
  | extensible => exact local_of (Extensible.local_read r)
  | designSize => exact local_single _
  | attachmentPoint kind => exact local_single _
  | font command => exact local_single _
  | glyph command => exact local_single _
  | ligatureComponents => exact local_single _
  | ligatureCarets => exact local_single _
  | ligtableSwitch kind feature => exact local_value _ _
  | outline command => exact local_single _
  | _ => exact local_fail _ _

/-- A record of a macro family is all there is of its command. -/
theorem local_read_of_extension {r : Record} (h : r.op.extension? ≠ none)
    (cut : Except Skip Command → Prop) : Local cut (Command.read r) := by
  have hsingle : ∀ {α : Type} (make : α → Command) (x : Except Skip α),
      Local cut (single make x) := by
    intro α make x
    exact (local_ofExcept (fun _ => False) x).map make fun _ hr => hr.elim
  unfold Command.read
  cases hop : r.op <;> rw [hop] at h <;>
    first
    | exact absurd rfl h
    | exact local_value _ _
    | exact hsingle _ _

end Command

/-! ## scripts -/

/-- Whether a construct lacks a record that it has to have. -/
def Construct.IsCut (k : Construct) : Prop :=
  k.head.op.extension? = none ∧ Command.CutShort k.command

/-- A construct without the source line of its end. -/
def Construct.content (k : Construct) : Record × Except Skip Command := (k.head, k.command)

namespace Script

/-- The constructs of a script without their source lines. -/
def contents (s : Script) : List (Record × Except Skip Command) := s.map Construct.content

theorem construct_append (r : Record) {c d : Cursor} {tail : List Record}
    (hd : d.rest = c.rest ++ tail) (ht : StartsAfresh tail)
    (hc : tail ≠ [] → ¬(construct r c).1.IsCut) :
    (construct r d).1.content = (construct r c).1.content ∧
      (construct r d).2.rest = (construct r c).2.rest ++ tail := by
  have hlocal : ((Command.read r).run d).1 = ((Command.read r).run c).1 ∧
      ((Command.read r).run d).2.rest = ((Command.read r).run c).2.rest ++ tail := by
    by_cases hx : r.op.extension? = none
    · exact Command.local_read r c d tail hd ht fun hne hcut => hc hne ⟨hx, hcut⟩
    · exact Command.local_read_of_extension hx (fun _ => False) c d tail hd ht fun _ => id
  exact ⟨congrArg (Prod.mk r) hlocal.1, hlocal.2⟩

theorem length_construct_le (r : Record) (c : Cursor) :
    (construct r c).2.rest.length ≤ c.rest.length := ((Command.read r).suffix c).length_le

theorem contents_ofCursor_cons (r : Record) (rest : List Record) (line : Option Nat) :
    (ofCursor ⟨r :: rest, line⟩).contents =
      (construct r ⟨rest, r.line <|> line⟩).1.content ::
        (ofCursor (construct r ⟨rest, r.line <|> line⟩).2).contents := by
  rw [ofCursor_cons]
  rfl

/-- Lines that were seen before a place do not change the constructs behind it. -/
theorem contents_eq_of_rest_eq {c d : Cursor} (h : d.rest = c.rest) :
    (ofCursor d).contents = (ofCursor c).contents := by
  induction hn : d.rest.length using Nat.strongRecOn generalizing c d with
  | ind n ih =>
      subst hn
      obtain ⟨rest, line⟩ := c
      obtain ⟨rest', line'⟩ := d
      simp only at h
      subst h
      cases rest' with
      | nil => rw [ofCursor_nil, ofCursor_nil]
      | cons r rest =>
          obtain ⟨h₁, h₂⟩ := construct_append r (c := ⟨rest, r.line <|> line⟩)
            (d := ⟨rest, r.line <|> line'⟩) (List.append_nil rest).symm startsAfresh_nil
            fun hne => absurd rfl hne
          have hlen := length_construct_le r ⟨rest, r.line <|> line'⟩
          rw [contents_ofCursor_cons, contents_ofCursor_cons, h₁,
            ih _ (Nat.lt_succ_of_le hlen) (h₂.trans (List.append_nil _)) rfl]

/-- The constructs of two traces, one behind the other, if the first one lacks
nothing and the second one does not go on with it. -/
theorem contents_append {c d : Cursor} {tail : List Record} (hd : d.rest = c.rest ++ tail)
    (ht : StartsAfresh tail) (hc : ∀ k ∈ ofCursor c, ¬k.IsCut) :
    (ofCursor d).contents = (ofCursor c).contents ++ (ofRecords tail).contents := by
  induction hn : c.rest.length using Nat.strongRecOn generalizing c d with
  | ind n ih =>
      subst hn
      obtain ⟨rest, line⟩ := c
      obtain ⟨rest', line'⟩ := d
      simp only at hd
      subst hd
      cases rest with
      | nil =>
          rw [ofCursor_nil]
          exact contents_eq_of_rest_eq (c := Cursor.start tail) rfl
      | cons r rest =>
          rw [ofCursor_cons] at hc
          obtain ⟨h₁, h₂⟩ := construct_append r (c := ⟨rest, r.line <|> line⟩)
            (d := ⟨rest ++ tail, r.line <|> line'⟩) rfl ht fun _ => hc _ List.mem_cons_self
          have hlen := length_construct_le r ⟨rest, r.line <|> line⟩
          rw [List.cons_append, contents_ofCursor_cons, contents_ofCursor_cons, h₁,
            ih _ (Nat.lt_succ_of_le hlen) h₂ (fun k hk => hc k (List.mem_cons_of_mem _ hk)) rfl,
            List.cons_append]

end Script

end FontTrace
