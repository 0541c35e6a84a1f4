import FontTrace.Skip
import FontTrace.Trace.Record

/-!
# FontTrace.Trace.Cursor

The place in a trace, and readers that move it.  A construct of the trace is a
record and those that belong to it; a reader takes the records it needs one by
one and never gives any back.  That law is a field of the type, so that reading
construct after construct is seen to end.

* `Reader.take` — the next record, whatever it is;
* `Reader.takeIf` — the next record if it is of the right kind;
* `Reader.expect` — the record that has to follow an operation;
* `Reader.foldWhile` — all following records of a kind, one after the other.
-/

namespace FontTrace

/-- The records still to come, and the last source line that a record before
them named. -/
structure Cursor where
  rest : List Record
  line : Option Nat
deriving DecidableEq, Repr

namespace Cursor

/-- The start of a list of records. -/
def start (records : List Record) : Cursor := ⟨records, none⟩

/-- The place after one more record. -/
def past (c : Cursor) (r : Record) (rest : List Record) : Cursor := ⟨rest, r.line <|> c.line⟩

/-- The next record. -/
def peek? (c : Cursor) : Option Record := c.rest.head?

/-- The next record if it is of the right kind, and the place after it. -/
def takeIf (accept : Op → Bool) (c : Cursor) : Option Record × Cursor :=
  match c.rest with
  | [] => (none, c)
  | r :: rest => if accept r.op then (some r, c.past r rest) else (none, c)

/-- The next record, and the place after it. -/
def take (c : Cursor) : Option Record × Cursor := c.takeIf fun _ => true

/-- A value carried through all following records of the right kind, until one
of them fails it.  The failing record has been taken. -/
def foldWhile {ε β : Type} (accept : Op → Bool) (f : β → Record → Except ε β) (b : β)
    (c : Cursor) : Except ε β × Cursor :=
  go b c.rest c.line
where
  go (b : β) (rest : List Record) (line : Option Nat) : Except ε β × Cursor :=
    match rest with
    | [] => (.ok b, ⟨[], line⟩)
    | r :: rest =>
      if accept r.op then
        match f b r with
        | .ok b => go b rest (r.line <|> line)
        | .error e => (.error e, ⟨rest, r.line <|> line⟩)
      else (.ok b, ⟨r :: rest, line⟩)

theorem takeIf_suffix (accept : Op → Bool) (c : Cursor) :
    (c.takeIf accept).2.rest <:+ c.rest := by
  unfold takeIf
  split
  · exact List.suffix_refl _
  · rename_i r rest h
    split
    · simp [past, h]
    · exact List.suffix_refl _

theorem foldWhile_suffix {ε β : Type} (accept : Op → Bool) (f : β → Record → Except ε β) (b : β)
    (c : Cursor) : (c.foldWhile accept f b).2.rest <:+ c.rest := by
  obtain ⟨rest, line⟩ := c
  simp only [foldWhile]
  induction rest generalizing b line with
  | nil => exact List.suffix_refl _
  | cons r rest ih =>
    unfold foldWhile.go
    split
    · split
      · exact (ih _ _).trans (List.suffix_cons r rest)
      · exact List.suffix_cons r rest
    · exact List.suffix_refl _

end Cursor

/-! ## readers -/

/-- A computation that takes records off a trace and may fail with an `ε`.
What is left is always an end piece of what was there. -/
structure Reader (ε α : Type) where
  run : Cursor → Except ε α × Cursor
  suffix : ∀ c, (run c).2.rest <:+ c.rest

namespace Reader

variable {ε α β : Type}

/-- A value that takes no record. -/
def value (a : α) : Reader ε α := ⟨fun c => (.ok a, c), fun _ => List.suffix_refl _⟩

/-- An error that takes no record. -/
def fail (e : ε) : Reader ε α := ⟨fun c => (.error e, c), fun _ => List.suffix_refl _⟩

/-- One reader after the other. -/
def andThen (x : Reader ε α) (f : α → Reader ε β) : Reader ε β where
  run c :=
    match x.run c with
    | (.ok a, c) => (f a).run c
    | (.error e, c) => (.error e, c)
  suffix c := by
    have h := x.suffix c
    rcases hx : x.run c with ⟨a | a, d⟩
    · simpa [hx] using h
    · rw [hx] at h
      exact ((f a).suffix d).trans h

instance : Monad (Reader ε) where
  pure := value
  bind := andThen

/-- A result that is there already. -/
def ofExcept : Except ε α → Reader ε α
  | .ok a => value a
  | .error e => fail e

/-- What comes of a reader, error or value, as a value. -/
def attempt {ε' : Type} (x : Reader ε α) : Reader ε' (Except ε α) where
  run c := (.ok (x.run c).1, (x.run c).2)
  suffix c := x.suffix c

/-- The next record, if there is one. -/
def take : Reader ε (Option Record) where
  run c := (.ok c.take.1, c.take.2)
  suffix c := c.takeIf_suffix _

/-- The next record if it is of the right kind. -/
def takeIf (accept : Op → Bool) : Reader ε (Option Record) where
  run c := (.ok (c.takeIf accept).1, (c.takeIf accept).2)
  suffix c := c.takeIf_suffix accept

/-- All following records of the right kind, one after the other. -/
def foldWhile (accept : Op → Bool) (f : β → Record → Except ε β) (b : β) : Reader ε β where
  run c := c.foldWhile accept f b
  suffix c := c.foldWhile_suffix accept f b

/-- The record that has to follow `op`. -/
def expect (op : String) : Reader Skip Record := do
  match ← take with
  | some r => value r
  | none => fail (.truncated op)

/-- An operand of `op`. -/
def operand (op : String) (x : Except OperandError α) : Reader Skip α := ofExcept (orMalformed op x)

end Reader

end FontTrace
