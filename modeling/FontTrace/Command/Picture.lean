import FontTrace.Pen
import FontTrace.Trace.Cursor

/-!
# FontTrace.Command.Picture

Commands on pictures as wholes: declarations, equations, `addto` and `cull`.
Reading a command takes all of its records and reads all of its operands before
anything is done with them; so a command with a broken operand is no command,
and nothing of it is ever carried out.
-/

namespace FontTrace

/-- What the compiler shows about the turning number of a filled contour. -/
structure Turning where
  check : Int
  number : Int
deriving DecidableEq, Repr

/-- Whether winding numbers in a range are kept or dropped. -/
inductive CullMode where
  | keeping | dropping
deriving DecidableEq, Repr

/-- The mode in words. -/
def CullMode.name : CullMode → String
  | .keeping => "keeping"
  | .dropping => "dropping"

/-- A range of winding numbers, kept or dropped. -/
structure CullRange where
  mode : CullMode
  low : Int
  high : Int
deriving DecidableEq, Repr

/-- A path that is added to a picture: filled or only drawn, with a pen. -/
structure Stroke where
  path : Path
  filled : Bool
  pen : Pen
  weight : Int
  turning : Option Turning
deriving DecidableEq, Repr

/-- A picture equation: all targets get the source, or its negation.  A
`complex` one has operators that are left out. -/
structure PictureEquation where
  targets : List String
  source : String
  negated : Bool
  complex : Bool
deriving DecidableEq, Repr

/-- A command on pictures. -/
inductive PictureCommand where
  | declare (names : List String)
  | equate (e : PictureEquation)
  | addPicture (target source : String) (transform : Affine) (reversed : Bool)
  | addPath (target : String) (stroke : Stroke)
  | cull (picture : String) (range : CullRange) (weight : Int)
deriving DecidableEq, Repr

/-- The name of a picture in an operand. -/
def pictureName (text : String) : String := Operand.nameOf text

/-- A record that is out of place. -/
def outOfPlace (r : Record) : Skip := .unknownOperation r.name r.body

namespace PictureCommand

open Reader

/-! ## addto -/

/-- The signs that the compiler shows before a filled contour. -/
def turning : Reader Skip (Option Turning) := do
  match ← takeIf (· == .turningCheck) with
  | none => return none
  | some check =>
    let number ← expect "turningcheck"
    let check ← operand "turningcheck" (Operand.truncated check.body)
    let number ← operand "turningnumber" (Operand.truncated number.body)
    return some ⟨check, number⟩

/-- The picture behind a minus sign. -/
def minusPicture (term : Record) : Reader Skip (Option String) := do
  if term.op == .minus then
    return (← takeIf (· == .pic)).map fun r => pictureName r.body
  else return none

/-- The text of the last pen and the last weight; the weight is one if there is
none. -/
def options : Reader Skip (Option String × Int) :=
  foldWhile (fun op => op == .withPen || op == .withWeight)
    (fun (pen, weight) r =>
      if r.op == .withPen then .ok (some r.body, weight)
      else (orMalformed "withweight" (Operand.rounded r.body)).map fun w => (pen, w))
    (none, 1)

/-- The map that a transformation operand stands for. -/
def affineOf (kind : TransformKind) (text : String) : Except OperandError Affine :=
  match kind with
  | .shifted => (Operand.pair text).map fun p => Affine.translation p.x p.y
  | .rotated => (Operand.number text).map Affine.rotationByDegrees
  | .scaled => (Operand.number text).map Affine.uniformScaling
  | .slanted => (Operand.number text).map Affine.slant
  | .xscaled => (Operand.number text).map (Affine.scaling · 1)
  | .yscaled => (Operand.number text).map (Affine.scaling 1)

/-- Whether an operation is a transformation. -/
def isTransform : Op → Bool
  | .transform _ => true
  | _ => false

/-- The transformations that follow, the first one applied first. -/
def transforms : Reader Skip Affine :=
  foldWhile isTransform
    (fun m r =>
      match r.op with
      | .transform kind => (orMalformed r.name (affineOf kind r.body)).map (·.after m)
      | _ => .ok m)
    Affine.identity

/-- The picture that is added negated: the one behind the sign, or else the one
that the sign's own record names. -/
def negatedSource (term : Record) (behind : Option String) : Except Skip String :=
  match behind with
  | some name => .ok name
  | none =>
    let name := pictureName term.body
    if name.isEmpty then .error .negatedAddtoTerm else .ok name

/-- The path and the pen of a term. -/
def stroke (term : Record) (filled : Bool) (pen : Option String) (weight : Int)
    (turning : Option Turning) : Reader Skip Stroke := do
  let path ← operand term.name (Operand.path term.body)
  let pen ← match pen with
    | some text => operand "withpen" (Pen.read text)
    | none => value Pen.none
  return ⟨path, filled, pen, weight, turning⟩

/-- `addto` and what belongs to it. -/
def addto (r : Record) : Reader Skip PictureCommand := do
  let target := pictureName r.body
  let turning ← turning
  let term ← expect "addto"
  let behind ← minusPicture term
  let (pen, weight) ← options
  match term.op with
  | .also => return addPicture target (pictureName term.body) (← transforms) false
  | .minus =>
    return addPicture target (← ofExcept (negatedSource term behind)) Affine.identity true
  | .contour => return addPath target (← stroke term true pen weight turning)
  | .doublepath => return addPath target (← stroke term false pen weight turning)
  | _ => fail (outOfPlace term)

/-! ## equations -/

/-- A picture equation as far as it was read: the targets, the right-hand side
with its sign, the sign of the next picture, and whether something did not fit. -/
structure Equating where
  targets : List String
  source : Option (Bool × String) := none
  negate : Bool := false
  complex : Bool := false

/-- Whether an operation continues a picture equation. -/
def isTerm (op : Op) : Bool :=
  op == .pic || op == .assign || op == .equate || op == .plus || op == .minus

/-- One more operation of an equation.  The right-hand side of a chain becomes
a target when another relation follows. -/
def Equating.add (e : Equating) (r : Record) : Equating :=
  match r.op, e.source with
  | .assign, none | .equate, none => if e.negate then { e with complex := true } else e
  | .assign, some (false, name) | .equate, some (false, name) =>
    if e.complex then e
    else { e with targets := e.targets ++ [name], source := none }
  | .minus, none => { e with negate := !e.negate }
  | .plus, none => e
  | .pic, none => { e with source := some (e.negate, pictureName r.body), negate := false }
  | _, _ => { e with complex := true }

/-- A picture equation and what belongs to it. -/
def equation (r : Record) : Reader Skip PictureCommand := do
  let e ← foldWhile isTerm (fun e r => .ok (Equating.add e r)) ⟨[pictureName r.firstField], none, false, false⟩
  match e.source with
  | some (negated, source) => return equate ⟨e.targets, source, negated, e.complex⟩
  | none => fail .emptyPictureEquation

/-! ## cull and declarations -/

/-- The last weight that follows, or one. -/
def weight : Reader Skip Int :=
  foldWhile (· == .withWeight) (fun _ r => orMalformed "withweight" (Operand.rounded r.body)) 1

/-- The mode that a record stands for. -/
def cullMode (r : Record) : Except Skip CullMode :=
  match r.op with
  | .keeping => .ok .keeping
  | .dropping => .ok .dropping
  | _ => .error (outOfPlace r)

/-- `cull` and what belongs to it. -/
def culling (r : Record) : Reader Skip PictureCommand := do
  let range ← expect "cull"
  let mode ← ofExcept (cullMode range)
  let p ← operand range.name (Operand.pair range.body)
  return cull (pictureName r.body) ⟨mode, truncUnits p.x, truncUnits p.y⟩ (← weight)

/-- `picture a, b` makes empty pictures. -/
def declaration (r : Record) : PictureCommand := declare (r.fields.map pictureName)

end PictureCommand

end FontTrace
