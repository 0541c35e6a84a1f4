import FontTrace.Trace.Cursor
import FontTrace.Trace.Operand

/-!
# FontTrace.Command.Shipment

What the compiler shows when it ships a picture out: the character's code and
box.  A hexadecimal code that was given before the character goes with it.
-/

namespace FontTrace

/-- The code and the box of a shipped picture, in font units. -/
structure CharBox where
  code : Int
  width : Int
  height : Int
  depth : Int
  italicCorrection : Int
  xOffset : Int
  yOffset : Int
deriving DecidableEq, Repr

/-- The box and the picture of a character. -/
structure Shipment where
  box : CharBox
  picture : String
deriving DecidableEq, Repr

/-- `hppp>> charcode>> charext>> wd>> ht>> dp>> ic>> dx>> dy>> xoffset>> yoffset`;
the four lengths are multiplied by the first operand. -/
def CharBox.read (r : Record) : Except OperandError CharBox := do
  let fields ← r.exactFields 11
  let field (i : Nat) : Except OperandError Float := Operand.number (fields.getD i "")
  let scale ← field 0
  let units (i : Nat) : Except OperandError Int := (field i).map fun v => roundUnits (v * scale)
  let code ← (field 1).map roundUnits
  let page ← (field 2).map roundUnits
  let width ← units 3
  let height ← units 4
  let depth ← units 5
  let italicCorrection ← units 6
  let xOffset ← (field 9).map roundUnits
  let yOffset ← (field 10).map roundUnits
  return ⟨code + page * 256, width, height, depth, italicCorrection, xOffset, yOffset⟩

/-- A shipped picture.  Without a box the record of the picture is not taken. -/
def Shipment.read (r : Record) : Reader Skip Shipment := do
  let box ← Reader.operand "shipout" (CharBox.read r)
  let picture ← Reader.expect "shipout"
  return ⟨box, Operand.nameOf picture.body⟩

/-- The code that a hexadecimal string stands for, the code of the string's
first character, which is what the compiler made of it, and whether the value
is a Unicode value. -/
structure HexCode where
  value : Int
  firstChar : Int
  isUnicode : Bool
deriving DecidableEq, Repr

/-- A string of an even number of bytes that is a hexadecimal number, with
`U+` or `0x` in front or both. -/
def HexCode.read? (r : Record) : Option HexCode := do
  let text := Operand.nameOf r.body
  let cs := text.toList
  let first ← cs.head?
  if text.utf8ByteSize % 2 = 0 then
    let afterUnicode := strip ['u', '+'] cs <|> strip ['U', '+'] cs
    let digits := afterUnicode.getD cs
    let digits := (strip ['0', 'x'] digits <|> strip ['0', 'X'] digits).getD digits
    let value ← int64OfText? 16 digits
    return ⟨value, first.toNat, afterUnicode.isSome⟩
  else none

end FontTrace
