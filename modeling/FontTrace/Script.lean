import FontTrace.Command

/-!
# FontTrace.Script

A trace as a list of constructs.  The records of a trace fall into constructs
in one way, which depends on the records alone; a replay then is a fold over
the constructs.

* `ofCursor_nil`, `ofCursor_cons` — the first construct, and the others behind it.
-/

namespace FontTrace

/-- A construct: its first record, what it asks for, or else why it is left
out, and the last source line up to its end. -/
structure Construct where
  head : Record
  command : Except Skip Command
  line : Option Nat

/-- The constructs of a trace. -/
abbrev Script := List Construct

namespace Script

/-- The construct that starts with a record, and the place behind it. -/
def construct (r : Record) (c : Cursor) : Construct × Cursor :=
  let read := (Command.read r).run c
  (⟨r, read.1, read.2.line⟩, read.2)

/-- The constructs from some place on. -/
def ofCursor (c : Cursor) : Script :=
  match _h : c.rest with
  | [] => []
  | r :: rest =>
    let next := construct r (c.past r rest)
    next.1 :: ofCursor next.2
termination_by c.rest.length
decreasing_by
  have h := ((Command.read r).suffix (c.past r rest)).length_le
  rw [_h]
  exact Nat.lt_succ_of_le h

/-- The constructs of a list of records. -/
def ofRecords (records : List Record) : Script := ofCursor (Cursor.start records)

theorem ofCursor_nil (line : Option Nat) : ofCursor ⟨[], line⟩ = [] := by
  rw [ofCursor]

theorem ofCursor_cons (r : Record) (rest : List Record) (line : Option Nat) :
    ofCursor ⟨r :: rest, line⟩ =
      (construct r ⟨rest, r.line <|> line⟩).1 ::
        ofCursor (construct r ⟨rest, r.line <|> line⟩).2 := by
  rw [ofCursor]
  rfl

end Script

end FontTrace
