import FontTrace.Trace.Cursor
import FontTrace.Trace.Operand

/-!
# FontTrace.Command.Metric

Commands that fill the font's metric tables: ligature tables, chains of
variants, extensible characters and font parameters.

A ligature table comes as one record per operator.  The first operand of a
record is the operator's right operand, and the character in front of the
operator is the last operand of the record before it.  A table whose steps turn
out to be broken still is a program up to the broken step; what becomes of it
is decided where it is run.
-/

namespace FontTrace

/-- One step of a ligature table. -/
inductive LigtableStep where
  /-- The program of a character starts here. -/
  | label (c : CharRef)
  /-- The programs that skipped to this name go on here. -/
  | resume (name : String)
  | kern (right : CharRef) (amount : Int)
  | ligature (right : CharRef) (shape : LigatureShape) (result : CharRef)
  /-- The programs up to here go on where the name appears. -/
  | skipTo (name : String)
  /-- Something that has no counterpart in the font. -/
  | unsupported (what : String)
deriving DecidableEq, Repr

/-- The steps of a ligature table, up to the broken one if there is one. -/
structure LigtableProgram where
  steps : List LigtableStep
  fault : Option Skip
deriving DecidableEq, Repr

/-- A character with its larger variants. -/
structure Charlist where
  base : CharRef
  variants : List CharRef
deriving DecidableEq, Repr

/-- A piece of an extensible character. -/
structure ExtensiblePiece where
  glyph : CharRef
  /-- Whether the piece is repeated as often as need be. -/
  extender : Bool
deriving DecidableEq, Repr

/-- An extensible character, its pieces from bottom to top. -/
structure Extensible where
  label : CharRef
  pieces : List ExtensiblePiece
deriving DecidableEq, Repr

/-- A font parameter: its number, its value, and the value in font units. -/
structure FontParam where
  number : Int
  value : Float
  units : Int
deriving DecidableEq, Repr

/-- A character operand of `op`. -/
def charOperand (op text : String) : Except Skip CharRef := orMalformed op (CharRef.read text)

/-- The scale of a record and the operand behind it. -/
def scaleAndOperand (r : Record) : Except Skip (Float × String) := do
  let fields ← orMalformed r.name (r.exactFields 2)
  let scale ← orMalformed r.name (Operand.number r.firstField)
  return (scale, fields.getLastD "")

/-! ## ligature tables -/

namespace LigtableProgram

/-- A ligature table as far as it was read: the record before, whether skipping
was reported, and the steps. -/
structure Reading where
  previous : Record
  reported : Bool := false
  steps : List LigtableStep := []

/-- Whether an operation belongs to a ligature table. -/
def isStep : Op → Bool
  | .label | .skipLabel | .boundaryLabel | .kern | .ligature _ | .skipTo => true
  | _ => false

/-- What is said about operators that skip characters. -/
def skippingOperator (shape : LigatureShape) : String := s!"`>` in {shape.spelling}"

/-- The step that a record stands for; `last` is the character in front. -/
def stepOf (scale : Float) (r : Record) (last : String) : Except Skip LigtableStep := do
  let own := r.firstField
  match r.op with
  | .label => return .label (← charOperand ":" last)
  | .skipLabel => return .resume (trimmed last)
  | .kern =>
    let right ← charOperand "kern" last
    let amount ← orMalformed "kern" (Operand.number own)
    return .kern right (truncUnits (amount * scale))
  | .ligature shape =>
    let right ← charOperand r.name last
    let result ← charOperand r.name own
    return .ligature right shape result
  | .skipTo => return .skipTo (trimmed (if (trimmed own).isEmpty then last else own))
  | _ => return .unsupported "||:"

/-- The operator that skips characters, if this record is the first of them. -/
def firstSkipping? (reported : Bool) (r : Record) : Option LigatureShape :=
  match r.op with
  | .ligature shape => if 0 < shape.skip && !reported then some shape else none
  | _ => none

/-- One more record.  The steps so far come with the error. -/
def Reading.add (scale : Float) (p : Reading) (r : Record) :
    Except (List LigtableStep × Skip) Reading :=
  let skipping := firstSkipping? p.reported r
  let steps := p.steps ++ (skipping.map fun shape => .unsupported (skippingOperator shape)).toList
  match stepOf scale r p.previous.lastField with
  | .ok step => .ok ⟨r, p.reported || skipping.isSome, steps ++ [step]⟩
  | .error fault => .error (steps, fault)

/-- A ligature table and its steps.  No program without a scale. -/
def read (r : Record) : Reader Skip LigtableProgram := do
  let (scale, _) ← Reader.ofExcept (scaleAndOperand r)
  let result ← (Reader.foldWhile isStep (Reading.add scale) ⟨r, false, []⟩).attempt
  return match result with
    | .ok p => ⟨p.steps, none⟩
    | .error (steps, fault) => ⟨steps, some fault⟩

end LigtableProgram

/-! ## variants and extensible characters -/

/-- A character and its variants, one record each. -/
def Charlist.read (r : Record) : Reader Skip Charlist := do
  let base ← Reader.ofExcept (charOperand "charlist" r.body)
  let variants ← Reader.foldWhile (· == .label)
    (fun vs v => (charOperand "charlist" v.body).map fun c => vs ++ [c]) []
  return ⟨base, variants⟩

/-- The pieces of a recipe from bottom to top, the repeated one around the
middle one.  The number zero stands for no piece. -/
def Extensible.piecesOf (top middle bottom repeated : CharRef) : List ExtensiblePiece :=
  let single (c : CharRef) : List ExtensiblePiece := if c.isZero then [] else [⟨c, false⟩]
  single bottom ++ [⟨repeated, true⟩] ++
    (if middle.isZero then [] else [⟨middle, false⟩, ⟨repeated, true⟩]) ++ single top

/-- An extensible character and its recipe. -/
def Extensible.read (r : Record) : Reader Skip Extensible := do
  let label ← Reader.ofExcept (charOperand "extensible" r.body)
  let recipe ← Reader.expect "extensible"
  let fields ← Reader.operand "extensible" (recipe.exactFields 4)
  let pieces ← Reader.ofExcept (fields.mapM (charOperand "extensible"))
  match pieces with
  | [top, middle, bottom, repeated] => return ⟨label, piecesOf top middle bottom repeated⟩
  | _ => Reader.fail (.malformed "extensible" (.fieldCount 4 pieces.length))

/-! ## font parameters -/

/-- Parameters with consecutive numbers from `first` on. -/
def FontParam.listFrom (scale : Float) (first : Int) : List Float → List FontParam
  | [] => []
  | v :: vs => ⟨first, v, roundUnits (v * scale)⟩ :: listFrom scale (first + 1) vs

/-- The font parameters in the next record. -/
def FontParam.readList (r : Record) : Reader Skip (List FontParam) := do
  let (scale, first) ← Reader.ofExcept (scaleAndOperand r)
  let first ← Reader.operand "fontdimen" (Operand.truncated first)
  let values ← Reader.expect "fontdimen"
  let values ← Reader.operand "fontdimen" (values.fields.mapM Operand.number)
  return listFrom scale first values

/-- The design size of the font. -/
def designSize (r : Record) : Except Skip Float := orMalformed "end" (Operand.number r.body)

end FontTrace
