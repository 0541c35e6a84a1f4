import FontTrace.Font.GlyphName
import FontTrace.Table
import FontTrace.Text.Lowercase

/-!
# FontTrace.Font.Encoding

From character codes to glyph names.
-/

namespace FontTrace

/-- The name and the Unicode value of the glyph at a code. -/
structure Slot where
  name : String
  unicode : Option Nat
deriving DecidableEq, Repr

/-- How a font's codes are to be understood. -/
inductive Encoding where
  /-- Codes are Unicode scalar values. -/
  | unicode
  /-- Codes are looked up in a table. -/
  | table (name : String) (slots : Table Int Slot)
deriving DecidableEq, Repr

namespace Encoding

/-- The slot of a code that the encoding does not know. -/
def unnamed (code : Int) : Slot := ⟨s!"NameMe.{code}", none⟩

/-- The slot of a code. -/
def slot (e : Encoding) (code : Int) : Slot :=
  match e with
  | unicode =>
    if 0 ≤ code ∧ GlyphName.isScalar code.toNat then
      ⟨GlyphName.ofUnicode code.toNat, some code.toNat⟩
    else unnamed code
  | table _ slots => (Table.find? slots code).getD (unnamed code)

/-- The normal form of an encoding's name, by which particular encodings are
recognized: lower case, with hyphens for blanks. -/
def normalName (name : String) : String :=
  String.ofList ((lowercase name).toList.map fun c => if c = ' ' then '-' else c)

end Encoding

end FontTrace
