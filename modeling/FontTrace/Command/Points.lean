import FontTrace.Command.Picture

/-!
# FontTrace.Command.Points

Edits of the contours and the named points of one picture.  A record holds the
picture first and the operands of the edit behind it.
-/

namespace FontTrace

/-- An edit of contours or named points. -/
inductive PointEdit where
  | canonicalize
  | sortToward (degrees : Float)
  | nameNear (target : Point) (radius : Float) (name : String)
  | nameAt (contour index : Nat) (name : String)
  | makeFirst (name : String)
  | makeFirstContour (name : String)
  | delete (name : String)
  | deleteContour (name : String)
deriving DecidableEq, Repr

/-- An edit of one picture. -/
structure PictureEdit where
  picture : String
  edit : PointEdit
deriving DecidableEq, Repr

/-- The arguments of a record that takes a number of them. -/
def argumentCount (r : Record) (expected given : Nat) : Skip :=
  .argumentCount r.name expected given

namespace PictureEdit

/-- A place in a list, counted from zero. -/
def place (r : Record) (text : String) : Except Skip Nat :=
  match (natOfText? 10 (trimBlanks text.toList)).filter (· < Nat.pow 2 64) with
  | some n => .ok n
  | none => .error (.malformed r.name (.number text))

/-- The only operand behind the picture. -/
def oneOperand (r : Record) (args : List String) : Except Skip String :=
  match args with
  | [a] => .ok a
  | _ => .error (argumentCount r 2 (args.length + 1))

/-- The three operands behind the picture. -/
def threeOperands (r : Record) (args : List String) : Except Skip (String × String × String) :=
  match args with
  | [a, b, c] => .ok (a, b, c)
  | _ => .error (argumentCount r 4 (args.length + 1))

/-- The edit that a record with the given operands asks for. -/
def readEdit (command : OutlineCommand) (r : Record) (args : List String) :
    Except Skip PointEdit := do
  match command with
  | .sortCanonical => return .canonicalize
  | .sortDirection =>
    let degrees ← oneOperand r args
    return .sortToward (← orMalformed r.name (Operand.number degrees))
  | .nameByCoords =>
    let (coords, radius, name) ← threeOperands r args
    let target ← orMalformed r.name (Operand.pair coords)
    let radius ← orMalformed r.name (Operand.number radius)
    return .nameNear target radius (Operand.nameOf name)
  | .nameByIndex =>
    let (contour, index, name) ← threeOperands r args
    let contour ← place r contour
    let index ← place r index
    return .nameAt contour index (Operand.nameOf name)
  | .makeFirst => return .makeFirst (Operand.nameOf (← oneOperand r args))
  | .makeFirstContour => return .makeFirstContour (Operand.nameOf (← oneOperand r args))
  | .delete => return .delete (Operand.nameOf (← oneOperand r args))
  | .deleteContour => return .deleteContour (Operand.nameOf (← oneOperand r args))

/-- An edit of the picture in the first operand. -/
def read (command : OutlineCommand) (r : Record) : Except Skip PictureEdit :=
  (readEdit command r (r.fields.drop 1)).map fun e => ⟨pictureName r.firstField, e⟩

end PictureEdit

end FontTrace
