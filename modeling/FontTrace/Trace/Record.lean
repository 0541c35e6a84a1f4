import FontTrace.Text.Digit
import FontTrace.Trace.Op
import FontTrace.Trace.OperandError

/-!
# FontTrace.Trace.Record

One instrumented operation, and the operands in its body.  Operands stand
behind separators `>> `; where the compiler shows a path, the separator goes on
with a label that names the source line.

* `length_of_separator` — a separator takes at least one character, so cutting
  a body at its separators ends;
* `fields_ne_nil` — a body has at least one operand, possibly an empty one.
-/

namespace FontTrace

/-- One operation of the trace: its name, the source line if the compiler
showed one, and the text of its operands. -/
structure Record where
  name : String
  line : Option Nat
  body : String
deriving DecidableEq, Repr

/-- What the record is about. -/
def Record.op (r : Record) : Op := Op.ofName r.name

/-! ## labels and separators -/

/-- The words in front of the line number of a path. -/
def pathLabels : List (List Char) := ["Path at line ".toList, "Pen polygon at line ".toList]

/-- The digits of the line number in a path label, and the text after the label. -/
def pathLabel? (cs : List Char) : Option (List Char × List Char) := do
  let rest ← pathLabels.findSome? (strip · cs)
  let digits := rest.takeWhile isDecimalDigit
  if digits.isEmpty then none
  let rest ← strip [':'] (rest.dropWhile isDecimalDigit)
  return (digits, rest)

/-- The text after a path label, or the text itself where there is none. -/
def afterLabel (cs : List Char) : List Char :=
  match pathLabel? cs with
  | some (_, rest) => rest
  | none => cs

/-- The text after a separator. -/
def separator? (cs : List Char) : Option (List Char) :=
  (strip ['>', '>', ' '] cs).map afterLabel

theorem length_afterLabel_le (cs : List Char) : (afterLabel cs).length ≤ cs.length := by
  unfold afterLabel
  split
  · rename_i d rest h
    simp only [pathLabel?, Option.bind_eq_bind, Option.bind_eq_some_iff] at h
    obtain ⟨r, hr, h⟩ := h
    obtain ⟨w, -, hw⟩ := List.exists_of_findSome?_eq_some hr
    split at h
    · simp at h
    · simp only [Option.pure_def, Option.bind_eq_some_iff, Option.some.injEq,
        Prod.mk.injEq] at h
      obtain ⟨r', hr', -, rfl⟩ := h
      have h₁ := length_of_strip hr'
      have h₂ := length_of_strip hw
      have h₃ := (List.dropWhile_sublist isDecimalDigit (l := r)).length_le
      omega
  · exact Nat.le_refl _

theorem length_of_separator {cs rest : List Char} (h : separator? cs = some rest) :
    rest.length < cs.length := by
  simp only [separator?, Option.map_eq_some_iff] at h
  obtain ⟨r, hr, rfl⟩ := h
  have h₁ := length_of_strip hr
  have h₂ := length_afterLabel_le r
  simp only [List.length_cons] at h₁
  omega

/-! ## operands -/

/-- The stretches of a body between its separators. -/
def operandsOf (cs : List Char) : List (List Char) :=
  match _h : seek anywhere separator? cs with
  | none => [cs]
  | some (before, rest) => before :: operandsOf rest
termination_by cs.length
decreasing_by
  obtain ⟨r, hr, hs⟩ := seek_eq_some _h
  have := length_of_separator hs
  rw [hr, List.length_append]
  omega

namespace Record

/-- The operands of a record. -/
def fields (r : Record) : List String := (operandsOf r.body.toList).map String.ofList

theorem fields_ne_nil (r : Record) : r.fields ≠ [] := by
  unfold fields operandsOf
  split <;> simp

/-- The operand in front of the first separator. -/
def firstField (r : Record) : String := r.fields.headD ""

/-- The operand behind the last separator. -/
def lastField (r : Record) : String := r.fields.getLastD ""

/-- The operands of a record that must have exactly `expected` of them. -/
def exactFields (r : Record) (expected : Nat) : Except OperandError (List String) :=
  let fields := r.fields
  if fields.length = expected then .ok fields else .error (.fieldCount expected fields.length)

end Record

end FontTrace
