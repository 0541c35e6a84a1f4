import FontTrace.Command.Points
import FontTrace.Font.Model
import FontTrace.Number.Hypotenuse

/-!
# FontTrace.Command.Edit

Commands of the macro families: font-wide values, values for the next glyph,
attachment points and ligature components.  Each of them is one record.

Values for the next glyph may be broken without breaking the record they come
in: a broken transformation, hint or math kern is kept as the error it is, and
reported when the glyph is there.
-/

namespace FontTrace

/-- A stem hint. -/
inductive Hint where
  | horizontal (position width : Float)
  | vertical (position width : Float)
  | diagonal (hint : DiagonalHint)
deriving DecidableEq, Repr

/-- A change of the font-wide values. -/
inductive FontEdit where
  | text (field : FontText) (value : String)
  | metric (field : FontMetric) (value : Int)
  | request (what : EditRequest)
  | mathConstant (name : String) (value : Int)
  /-- An entry of the private dictionary; the meaning of the key may be unknown. -/
  | privateEntry (key value : String) (known : Bool)
deriving DecidableEq, Repr

/-- A value for the next glyph. -/
inductive GlyphEdit where
  | name (text : String)
  | comment (text : String)
  | unicode (value : Nat)
  | topAccent (position : Int)
  | build
  | request (what : EditRequest)
  | reference (glyph : String) (transform : Except OperandError (Transform Float))
  | hint (h : Except OperandError Hint)
  | mathKern (corner : Corner) (position : Except OperandError Point)
  /-- The next glyph has an alternate. -/
  | replacedBy (other feature : String)
  /-- The next glyph is an alternate. -/
  | replacementOf (other feature : String)

/-- The operands of a record that takes two. -/
def twoArguments (r : Record) : Except Skip (String × String) :=
  match r.fields with
  | [a, b] => .ok (a, b)
  | fields => .error (argumentCount r 2 fields.length)

/-- The operand of a record that takes one. -/
def oneArgument (r : Record) : Except Skip String :=
  match r.fields with
  | [a] => .ok a
  | fields => .error (argumentCount r 1 fields.length)

/-! ## the private dictionary -/

namespace PrivateEntry

/-- What stands between square brackets. -/
def bracketed? (value : List Char) : Option (List Char) :=
  match value with
  | '[' :: rest => if rest.getLast? = some ']' then some rest.dropLast else none
  | _ => none

/-- Integers between blanks. -/
def integers? (text : List Char) : Option (List Int) := (words text).mapM (int64OfText? 10)

/-- An array of at most so many pairs of integers. -/
def isPairs (most : Nat) (value : List Char) : Bool :=
  ((bracketed? value).bind integers?).any fun ns => ns.length % 2 == 0 && ns.length / 2 ≤ most

/-- Whether no number is followed by a smaller one. -/
def isAscending : List Int → Bool
  | a :: b :: rest => a ≤ b && isAscending (b :: rest)
  | _ => true

/-- An array of at most twelve ascending integers. -/
def isStems (value : List Char) : Bool :=
  ((bracketed? value).bind integers?).any fun ns => ns.length ≤ 12 && isAscending ns

/-- An array of one integer. -/
def isStem (value : List Char) : Bool :=
  ((bracketed? value).bind fun v => int64OfText? 10 (trimBlanks v)).isSome

/-- What the values of the known keys look like. -/
def checks : List (String × (List Char → Bool)) := [
  ("BlueValues", isPairs 7), ("FamilyBlues", isPairs 7),
  ("OtherBlues", isPairs 5), ("FamilyOtherBlues", isPairs 5),
  ("BlueScale", fun v => (Decimal.ofText? v).isSome),
  ("ExpansionFactor", fun v => (Decimal.ofText? v).isSome),
  ("BlueShift", fun v => (int64OfText? 10 v).isSome),
  ("BlueFuzz", fun v => (int64OfText? 10 v).isSome),
  ("lenIV", fun v => (int64OfText? 10 v).isSome),
  ("LanguageGroup", fun v => (int64OfText? 10 v).isSome),
  ("StdHW", isStem), ("StdVW", isStem), ("StemSnapH", isStems), ("StemSnapV", isStems),
  ("forceBold", fun v => v == "true".toList || v == "false".toList),
  ("RndStemUp", fun v => v == "true".toList || v == "false".toList)]

/-- An entry, unless its value is not of the kind that its key asks for. -/
def read (key value : String) : Except Skip FontEdit :=
  match checks.lookup key with
  | none => .ok (.privateEntry key value false)
  | some check =>
    if check value.toList then .ok (.privateEntry key value true)
    else .error (.invalidPrivateEntry key value)

end PrivateEntry

/-! ## the font -/

/-- A change of the font-wide values. -/
def FontEdit.read (command : FontCommand) (r : Record) : Except Skip FontEdit := do
  match command with
  | .text field => return .text field (Operand.contents (trimmed r.body))
  | .metric field =>
    let (scale, value) ← twoArguments r
    let scale ← orMalformed r.name (Operand.number scale)
    let value ← orMalformed r.name (Operand.number value)
    return .metric field (roundUnits (value * scale))
  | .request what => return .request what
  | .mathConstant =>
    let (name, value) ← twoArguments r
    let value ← orMalformed r.name (Operand.rounded value)
    return .mathConstant (Operand.contents name) value
  | .privateDictionary =>
    let (key, value) ← twoArguments r
    PrivateEntry.read (Operand.contents key) (trimmed (Operand.contents value))

/-! ## the next glyph -/

namespace GlyphEdit

/-- The coefficients `(tx,ty,xx,xy,yx,yy)`. -/
def readTransform (text : String) : Except OperandError (Transform Float) :=
  match (strip ['('] (trimBlanks text.toList)).filter fun cs => cs.getLast? == some ')' with
  | none => .error (.pair text)
  | some cs => do
    match ← (piecesBetween ',' cs.dropLast).mapM fun t => Operand.number (String.ofList t) with
    | [tx, ty, xx, xy, yx, yy] => return ⟨xx, xy, yx, yy, tx, ty⟩
    | _ => .error (.pair text)

/-- The least and the width of the range of numbers. -/
def rangeOf (xs : List Float) : Float × Float :=
  let least := xs.foldl lower (1 / 0)
  let greatest := xs.foldl upper (-1 / 0)
  (least, greatest - least)

/-- The numbers of a stem hint; there has to be one. -/
def stemRange (args : List String) : Except OperandError (Float × Float) := do
  let xs ← args.mapM Operand.number
  if xs.isEmpty then .error (.fieldCount 2 0) else return rangeOf xs

/-- A point to six decimal places. -/
def hintPoint (text : String) : Except OperandError Point :=
  (Operand.pair text).map fun p => ⟨roundDigits p.x 6, roundDigits p.y 6⟩

/-- A vector at length one, unless it has no length. -/
def unitVector (d : Point) : Point :=
  let length := hypotenuse d.x d.y
  if length > 0 then ⟨d.x / length, d.y / length⟩ else d

/-- A diagonal stem: two points, and its direction or else the one that the
points give. -/
def readDiagonal (args : List String) : Except OperandError DiagonalHint := do
  if args.length < 2 || 3 < args.length then .error (.fieldCount 2 args.length)
  else
    match ← args.mapM hintPoint with
    | [a, b] => return ⟨a, b, unitVector ⟨b.y - a.y, b.x - a.x⟩⟩
    | [a, b, d] => return ⟨a, b, unitVector d⟩
    | _ => .error (.fieldCount 2 args.length)

/-- A stem hint. -/
def readHint (kind : HintKind) (args : List String) : Except OperandError Hint :=
  match kind with
  | .horizontal => (stemRange args).map fun (p, w) => .horizontal p w
  | .vertical => (stemRange args).map fun (p, w) => .vertical p w
  | .diagonal => (readDiagonal args).map .diagonal

/-- The position of a math kern. -/
def readKern (args : List String) : Except OperandError Point := do
  match args with
  | [x, y] =>
    let x ← Operand.number x
    let y ← Operand.number y
    return ⟨x, y⟩
  | _ => .error (.fieldCount 2 args.length)

/-- A Unicode value: a number, or a string of hexadecimal digits that may have
`U+` or `0x` in front. -/
def unicodeValue? (r : Record) (text : String) : Except Skip (Option Nat) :=
  match Operand.unquote? text with
  | some digits =>
    let cs := digits.toList
    let heads := ["u+", "U+", "0x", "0X"].map String.toList
    .ok (nat32OfText? 16 ((heads.findSome? (strip · cs)).getD cs))
  | none => (orMalformed r.name (Operand.rounded text)).map nat32OfInt?

/-- A string operand. -/
def stringOperand (r : Record) (text : String) : Except Skip String :=
  match Operand.unquote? text with
  | some s => .ok s
  | none => .error (.expectedString r.name)

/-- A value for the next glyph. -/
def read (command : GlyphCommand) (r : Record) : Except Skip GlyphEdit := do
  match command with
  | .name => return .name (← stringOperand r (← oneArgument r))
  | .comment => return .comment (← stringOperand r (← oneArgument r))
  | .unicode =>
    let arg ← oneArgument r
    match ← unicodeValue? r arg with
    | some u => return .unicode u
    | none => .error (.malformed r.name (.number arg))
  | .topAccent => return .topAccent (← orMalformed r.name (Operand.rounded (← oneArgument r)))
  | .build => return .build
  | .addReference =>
    let (glyph, transform) ← twoArguments r
    return .reference (Operand.nameOf glyph) (readTransform transform)
  | .request what => return .request what
  | .hint kind => return .hint (readHint kind r.fields)
  | .mathKerning corner => return .mathKern corner (readKern r.fields)
  | .replacedBy =>
    let (other, feature) ← twoArguments r
    return .replacedBy (Operand.contents other) (Operand.contents feature)
  | .replacementOf =>
    let (other, feature) ← twoArguments r
    return .replacementOf (Operand.contents other) (Operand.contents feature)

end GlyphEdit

/-! ## attachment points and ligatures -/

/-- An attachment point: its class, and its coordinates as two operands or as a
pair. -/
def readAnchor (kind : AnchorKind) (r : Record) : Except Skip Anchor := do
  match r.fields with
  | [anchorClass, x, y] =>
    let x ← orMalformed r.name (Operand.number x)
    let y ← orMalformed r.name (Operand.number y)
    return ⟨pictureName anchorClass, kind.role, ⟨x, y⟩⟩
  | [anchorClass, p] =>
    return ⟨pictureName anchorClass, kind.role, ← orMalformed r.name (Operand.pair p)⟩
  | fields => .error (argumentCount r 3 fields.length)

/-- The components of the ligature that the next glyph is. -/
def readComponents (r : Record) : Except Skip (List CharRef) :=
  orMalformed r.name (r.fields.mapM CharRef.read)

/-- The caret positions of the ligature that the next glyph is. -/
def readCarets (r : Record) : Except Skip (List Int) :=
  orMalformed r.name (r.fields.mapM Operand.rounded)

end FontTrace
