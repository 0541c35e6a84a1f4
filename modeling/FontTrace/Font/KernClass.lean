/-!
# FontTrace.Font.KernClass

Kerning by classes: a matrix of offsets with a class of left glyphs for every
row and a class of right glyphs for every column.

A table starts with one class per glyph (`KernClasses.ofPairs`).  Compacting
merges the classes of equal rows first, and then those of equal columns; a
class takes the glyphs of a later one behind its own.
-/

namespace FontTrace

/-- A table of kerning classes; `offsets` has a row per left class and in it a
number per right class. -/
structure KernClasses where
  leftClasses : List (List String) := []
  rightClasses : List (List String) := []
  offsets : List (List Int) := []
deriving DecidableEq, Repr

/-- A kerning pair. -/
structure KernPair (α : Type) where
  left : α
  right : α
  kern : Int
deriving DecidableEq, Repr

namespace KernClasses

/-- The place of the class that starts with a glyph. -/
def classOf? (classes : List (List String)) (glyph : String) : Option Nat :=
  classes.findIdx? fun c => c.head? == some glyph

/-- The table with a row for a glyph, of zeros if it is new. -/
def withRow (t : KernClasses) (glyph : String) : KernClasses :=
  if (classOf? t.leftClasses glyph).isSome then t
  else
    { t with
      leftClasses := t.leftClasses ++ [[glyph]]
      offsets := t.offsets ++ [List.replicate t.rightClasses.length 0] }

/-- The table with a column for a glyph, of zeros if it is new. -/
def withColumn (t : KernClasses) (glyph : String) : KernClasses :=
  if (classOf? t.rightClasses glyph).isSome then t
  else
    { t with
      rightClasses := t.rightClasses ++ [[glyph]]
      offsets := t.offsets.map (· ++ [0]) }

/-- The table with a pair; an earlier offset of the pair is replaced. -/
def add (t : KernClasses) (p : KernPair String) : KernClasses :=
  let t := (t.withRow p.left).withColumn p.right
  match classOf? t.leftClasses p.left, classOf? t.rightClasses p.right with
  | some i, some j => { t with offsets := t.offsets.modify i fun row => row.set j p.kern }
  | _, _ => t

/-- The table of a list of pairs, with one class per glyph in the order in
which the glyphs appear. -/
def ofPairs (pairs : List (KernPair String)) : KernClasses := pairs.foldl add {}

/-! ## compacting -/

/-- Rows with their classes, where every row equal to `key` is given up to the
class `glyphs`; and that class. -/
def absorb {κ : Type} [DecidableEq κ] (key : κ) (glyphs : List String) :
    List (List String × κ) → List String × List (List String × κ)
  | [] => (glyphs, [])
  | (g, k) :: rest =>
    if key = k then absorb key (glyphs ++ g) rest
    else
      let (merged, kept) := absorb key glyphs rest
      (merged, (g, k) :: kept)

theorem length_absorb_le {κ : Type} [DecidableEq κ] (key : κ) (glyphs : List String)
    (rows : List (List String × κ)) : (absorb key glyphs rows).2.length ≤ rows.length := by
  induction rows generalizing glyphs with
  | nil => simp [absorb]
  | cons r rest ih =>
    obtain ⟨g, k⟩ := r
    unfold absorb
    split
    · have := ih (glyphs ++ g); simp only [List.length_cons]; omega
    · have := ih glyphs; simp only [List.length_cons]; omega

/-- Rows with their classes, equal rows merged into the first of them. -/
def mergeEqual {κ : Type} [DecidableEq κ] : List (List String × κ) → List (List String × κ)
  | [] => []
  | (g, k) :: rest =>
    ((absorb k g rest).1, k) :: mergeEqual (absorb k g rest).2
termination_by rows => rows.length
decreasing_by
  have := length_absorb_le k g rest
  simp only [List.length_cons]
  omega

/-- The columns of a matrix with the given number of columns. -/
def columns (width : Nat) (rows : List (List Int)) : List (List Int) :=
  (List.range width).map fun j => rows.map fun row => row.getD j 0

/-- The table with equal rows merged. -/
def mergeRows (t : KernClasses) : KernClasses :=
  let rows := mergeEqual (t.leftClasses.zip t.offsets)
  { t with leftClasses := rows.map (·.1), offsets := rows.map (·.2) }

/-- The table with equal columns merged. -/
def mergeColumns (t : KernClasses) : KernClasses :=
  let cols := mergeEqual (t.rightClasses.zip (columns t.rightClasses.length t.offsets))
  { t with
    rightClasses := cols.map (·.1)
    offsets := columns t.offsets.length (cols.map (·.2)) }

/-- The table with equal rows and then equal columns merged. -/
def compact (t : KernClasses) : KernClasses := t.mergeRows.mergeColumns

/-! ## reading -/

/-- The place of the class that a glyph is in. -/
def memberOf? (classes : List (List String)) (glyph : String) : Option Nat :=
  classes.findIdx? fun c => c.contains glyph

/-- The offset between two glyphs, if both are in a class. -/
def offset? (t : KernClasses) (left right : String) : Option Int := do
  let i ← memberOf? t.leftClasses left
  let j ← memberOf? t.rightClasses right
  let row ← t.offsets[i]?
  row[j]?

end KernClasses

end FontTrace
