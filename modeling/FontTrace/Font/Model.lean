import FontTrace.Font.Encoding
import FontTrace.Font.Lookup
import FontTrace.Geometry.Contour
import FontTrace.Notice
import FontTrace.Trace.Operand

/-!
# FontTrace.Font.Model

The font that a replay builds: glyphs with outlines and metrics, font-wide
values, and lookups.  Glyph names are unique as long as glyphs enter by
`Font.putGlyph`; operands of the trace become names by `Font.resolve`.

* `find?_putGlyph` — after `putGlyph` the name has the new glyph, all others their old one.
-/

namespace FontTrace

/-- What a font editor is asked to do with a glyph or with the whole font. -/
structure PostProcess where
  addExtrema : Bool := false
  addInflections : Bool := false
  round : Bool := false
  autoHint : Bool := false
  autoInstruct : Bool := false
deriving DecidableEq, Repr

/-- The requests with one more. -/
def PostProcess.ask (p : PostProcess) : EditRequest → PostProcess
  | .addExtrema => { p with addExtrema := true }
  | .addInflections => { p with addInflections := true }
  | .round => { p with round := true }
  | .autoHint => { p with autoHint := true }
  | .autoInstruct => { p with autoInstruct := true }

/-- An attachment point; its role is `base`, `mark` or `basemark`. -/
structure Anchor where
  anchorClass : String
  role : String
  pos : Point
deriving DecidableEq, Repr

/-- The coefficients of a transformation, in the order of the compiler's
names for them. -/
structure Transform (α : Type) where
  xx : α
  xy : α
  yx : α
  yy : α
  tx : α
  ty : α
deriving DecidableEq, Repr

/-- Another glyph that is part of a glyph. -/
structure Reference where
  glyph : String
  transform : Transform Float
deriving DecidableEq, Repr

/-- A diagonal stem: two points and a direction of length one. -/
structure DiagonalHint where
  start : Point
  stop : Point
  direction : Point
deriving DecidableEq, Repr

/-- Stem hints; horizontal and vertical ones as position and width. -/
structure Hints where
  horizontal : List (Float × Float) := []
  vertical : List (Float × Float) := []
  diagonal : List DiagonalHint := []
deriving DecidableEq, Repr

/-- Math kerns at the four corners, as height and kern. -/
structure MathKerning where
  topRight : List (Int × Int) := []
  topLeft : List (Int × Int) := []
  bottomRight : List (Int × Int) := []
  bottomLeft : List (Int × Int) := []
deriving DecidableEq, Repr

/-- One more kern at a corner. -/
def MathKerning.add (m : MathKerning) (kern : Int × Int) : Corner → MathKerning
  | .topRight => { m with topRight := m.topRight ++ [kern] }
  | .topLeft => { m with topLeft := m.topLeft ++ [kern] }
  | .bottomRight => { m with bottomRight := m.bottomRight ++ [kern] }
  | .bottomLeft => { m with bottomLeft := m.bottomLeft ++ [kern] }

/-- One piece of a glyph assembly. -/
structure VerticalComponent where
  glyph : String
  extender : Bool
  startConnector : Int
  endConnector : Int
  fullAdvance : Int
deriving DecidableEq, Repr

/-- A glyph. -/
structure Glyph where
  name : String
  /-- The code in the input encoding, if the glyph has one. -/
  code : Option Int := none
  unicode : Option Nat := none
  outline : Outline := []
  width : Int := 0
  height : Int := 0
  depth : Int := 0
  italicCorrection : Int := 0
  topAccent : Option Int := none
  anchors : List Anchor := []
  references : List Reference := []
  hints : Hints := {}
  mathKerning : MathKerning := {}
  verticalVariants : List String := []
  verticalComponents : List VerticalComponent := []
  ligatureCarets : List Int := []
  comment : Option String := none
  /-- Whether the glyph is to be composed from its references. -/
  build : Bool := false
  postProcess : PostProcess := {}
deriving DecidableEq, Repr

/-- Font-wide values. -/
structure FontInfo where
  fontName : String := "Untitled"
  familyName : String := "Untitled"
  fullName : String := "Untitled"
  weight : String := "Regular"
  version : String := "001.000"
  copyright : String := ""
  comment : String := ""
  fontlog : String := ""
  ascent : Int := 0
  descent : Int := 0
  capHeight : Option Int := none
  xHeight : Option Int := none
  underlinePosition : Option Int := none
  underlineWidth : Option Int := none
  italicAngle : Float := 0
  designSize : Option Float := none
  unitsPerEm : Option Nat := none
  mathConstants : Table String Int := []
  privateDict : Table String String := []
  postProcess : PostProcess := {}
deriving DecidableEq, Repr

/-- A font. -/
structure Font where
  info : FontInfo := {}
  glyphs : List Glyph := []
  lookups : Lookups := []
  encoding : Encoding := .unicode
deriving DecidableEq, Repr

namespace Font

/-! ## glyphs by name and by code -/

/-- The glyph of the given name. -/
def glyph? (f : Font) (name : String) : Option Glyph := f.glyphs.find? fun g => g.name == name

/-- Whether there is a glyph of the given name. -/
def hasGlyph (f : Font) (name : String) : Bool := (f.glyph? name).isSome

/-- The first glyph at a code. -/
def glyphAt? (f : Font) (code : Int) : Option Glyph := f.glyphs.find? fun g => g.code == some code

/-- Glyphs with one more, which takes the place of the glyph of its name. -/
def putIn (glyphs : List Glyph) (g : Glyph) : List Glyph :=
  match glyphs with
  | [] => [g]
  | h :: hs => if h.name = g.name then g :: hs else h :: putIn hs g

/-- The font with one more glyph, which replaces the glyph of its name. -/
def putGlyph (f : Font) (g : Glyph) : Font := { f with glyphs := putIn f.glyphs g }

/-- The font with the glyph of the given name changed. -/
def changeGlyph (f : Font) (name : String) (change : Glyph → Glyph) : Font :=
  match f.glyph? name with
  | some g => f.putGlyph { change g with name := g.name }
  | none => f

theorem find?_putIn (glyphs : List Glyph) (g : Glyph) (name : String) :
    (putIn glyphs g).find? (fun h => h.name == name) =
      if g.name = name then some g else glyphs.find? fun h => h.name == name := by
  induction glyphs with
  | nil => by_cases h : g.name = name <;> simp [putIn, h]
  | cons a as ih =>
    by_cases ha : a.name = g.name
    · by_cases h : g.name = name
      · simp [putIn, ha, h]
      · simp [putIn, ha, h]
    · by_cases hn : a.name = name
      · subst hn
        simp [putIn, ha, Ne.symm ha]
      · simp [putIn, ha, hn, ih]

theorem find?_putGlyph (f : Font) (g : Glyph) (name : String) :
    (f.putGlyph g).glyph? name = if g.name = name then some g else f.glyph? name :=
  find?_putIn f.glyphs g name

/-! ## names of operands -/

/-- The name of the glyph at a code: that of the glyph which is there, or else
the one that the encoding has for it. -/
def nameAt (f : Font) (code : Int) : String :=
  match f.glyphAt? code with
  | some g => g.name
  | none => (f.encoding.slot code).name

/-- The name that stands for an empty operand. -/
def noName : String := "NameMe."

/-- The Unicode value written as `U+` and hexadecimal digits. -/
def unicodeOperand? (text : List Char) : Option Nat := do
  let digits ← strip ['u', '+'] text <|> strip ['U', '+'] text
  nat32OfText? 16 digits

/-- The code written with four or five hexadecimal digits, with or without
`0x` in front. -/
def hexOperand? (text : List Char) : Option Int :=
  let digits := (strip ['0', 'x'] text <|> strip ['0', 'X'] text).getD text
  let bytes := (String.ofList digits).utf8ByteSize
  if bytes = 4 ∨ bytes = 5 then int64OfText? 16 digits else none

/-- The glyph name that an operand stands for.

A string stands for its first character, as it does for the compiler.  If
`generalized` is set it may also be a Unicode value, a hexadecimal code, the
name of a glyph, or a production name, and only then its first character. -/
def resolve (f : Font) (generalized : Bool) (operand : CharRef) : Noted String :=
  match operand with
  | .code n => pure (f.nameAt n)
  | .text s =>
    if !generalized then pure ((operand.code?.map f.nameAt).getD noName)
    else
      match unicodeOperand? s.toList with
      | some u => pure (GlyphName.ofUnicode u)
      | none =>
        match hexOperand? s.toList with
        | some code => pure (f.nameAt code)
        | none =>
          if f.hasGlyph s then pure s
          else
            match GlyphName.unicode? s with
            | some u => pure (f.nameAt u)
            | none =>
              match s.toList with
              | [] => pure noName
              | [c] => pure (f.nameAt c.toNat)
              | c :: _ => do
                note (.assumedCharacter s c)
                return f.nameAt c.toNat

end Font

end FontTrace
