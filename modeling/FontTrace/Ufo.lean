import FontTrace.Font.Model

/-!
# FontTrace.Ufo

The font in the terms of the UFO format: what its `fontinfo` holds, and its
glyphs with typed points, components and anchors.

Points keep their order and their positions.  A point's type follows from the
point before it: a point on the curve ends a curve if that one is a control
point, and a straight segment otherwise; the first point of an open contour
starts it.
-/

namespace FontTrace

namespace Ufo

/-- The type of a point. -/
inductive PointType where
  | move | line | offCurve | curve
deriving DecidableEq, Repr

/-- A point of a contour. -/
structure ContourPoint where
  pos : Point
  type : PointType
deriving DecidableEq, Repr

/-- The coefficients of a component's transformation: a point goes to
`(xScale x + yxScale y + xOffset, xyScale x + yScale y + yOffset)`. -/
structure ComponentTransform (α : Type) where
  xScale : α
  xyScale : α
  yxScale : α
  yScale : α
  xOffset : α
  yOffset : α
deriving DecidableEq, Repr

/-- The image of a point. -/
def ComponentTransform.apply {α : Type} [Add α] [Mul α] (t : ComponentTransform α) (p : α × α) :
    α × α :=
  (t.xScale * p.1 + t.yxScale * p.2 + t.xOffset, t.xyScale * p.1 + t.yScale * p.2 + t.yOffset)

/-- Another glyph that is part of a glyph. -/
structure Component where
  base : String
  transform : ComponentTransform Float
deriving DecidableEq, Repr

/-- A named point of a glyph. -/
structure NamedAnchor where
  name : String
  pos : Point
deriving DecidableEq, Repr

/-- A glyph. -/
structure UfoGlyph where
  name : String
  width : Float
  codepoints : List Nat
  contours : List (List ContourPoint)
  components : List Component
  anchors : List NamedAnchor
  note : Option String
deriving DecidableEq, Repr

/-- Font-wide values; what is not set is not written. -/
structure UfoInfo where
  familyName : Option String := none
  styleName : Option String := none
  weightName : Option String := none
  fontName : Option String := none
  fullName : Option String := none
  versionMajor : Option Int := none
  versionMinor : Option Nat := none
  copyright : Option String := none
  note : Option String := none
  unitsPerEm : Option Float := none
  ascender : Option Float := none
  descender : Option Float := none
  xHeight : Option Float := none
  capHeight : Option Float := none
  italicAngle : Option Float := none
  underlinePosition : Option Float := none
  underlineThickness : Option Float := none
deriving DecidableEq, Repr

/-- A font with a single layer; the glyphs are in the order of their names. -/
structure UfoFont where
  info : UfoInfo
  glyphs : List UfoGlyph
deriving DecidableEq, Repr

/-! ## names -/

/-- The control characters of UFO's naming rule. -/
def isControl (c : Char) : Bool := c.toNat < 0x20 || (0x7F ≤ c.toNat && c.toNat ≤ 0x9F)

/-- Whether a text can be a name: not empty and without control characters. -/
def isName (s : String) : Bool := !s.isEmpty && !s.toList.any isControl

/-! ## outlines -/

/-- The type of a point behind another one. -/
def typeAfter (before : Node) (n : Node) : PointType :=
  if !n.onCurve then .offCurve else if before.onCurve then .line else .curve

/-- The types of points that come behind another one. -/
def pointsAfter (before : Node) : List Node → List ContourPoint
  | [] => []
  | n :: ns => ⟨n.pos, typeAfter before n⟩ :: pointsAfter n ns

/-- The type of the first point of a contour.  A closed contour goes on from
its last point, and one of a single point has no curve to end. -/
def firstType (closed : Bool) (first : Node) (rest : List Node) : PointType :=
  if !first.onCurve then .offCurve
  else if !closed then .move
  else
    match rest.getLast? with
    | some last => typeAfter last first
    | none => .line

/-- The points of a contour. -/
def contour (c : Contour) : List ContourPoint :=
  match c.nodes with
  | [] => []
  | first :: rest => ⟨first.pos, firstType c.closed first rest⟩ :: pointsAfter first rest

/-! ## glyphs -/

/-- The transformation of a component from that of a reference. -/
def componentTransform {α : Type} (t : Transform α) : ComponentTransform α :=
  { xScale := t.xx, xyScale := t.xy, yxScale := t.yx, yScale := t.yy
    xOffset := t.tx, yOffset := t.ty }

/-- A reference as a component, if its glyph can be named. -/
def component? (r : Reference) : Noted (Option Component) :=
  if isName r.glyph then pure (some ⟨r.glyph, componentTransform r.transform⟩)
  else do
    note (.referenceNameInvalid r.glyph)
    return none

/-- The name of an attachment point: that of its class, for marks with a line
in front. -/
def anchorName (a : Anchor) : String :=
  if a.role = "mark" then s!"_{a.anchorClass}" else a.anchorClass

/-- An attachment point as an anchor, if it can be named. -/
def anchor? (a : Anchor) : Noted (Option NamedAnchor) :=
  if isName (anchorName a) then pure (some ⟨anchorName a, a.pos⟩)
  else do
    note (.anchorNameInvalid (anchorName a))
    return none

/-- A glyph, if it can be named.  Contours without points are left out. -/
def glyph? (g : Glyph) : Noted (Option UfoGlyph) :=
  if isName g.name then do
    let components ← g.references.filterMapM component?
    let anchors ← g.anchors.filterMapM anchor?
    return some
      { name := g.name
        width := Float.ofInt g.width
        codepoints := (g.unicode.filter GlyphName.isScalar).toList
        contours := (g.outline.filter fun c => !c.nodes.isEmpty).map contour
        components
        anchors
        note := g.comment }
  else do
    note (.glyphNameInvalid g.name)
    return none

/-! ## font -/

/-- A text, if it is not empty. -/
def unlessEmpty (s : String) : Option String := if s.isEmpty then none else some s

/-- A version like `001.002` as two numbers. -/
def versionNumbers? (version : String) : Option (Int × Nat) := do
  let (major, minor) ← splitAtFirst ['.'] (trimBlanks version.toList)
  let major ← (intOfText? 10 major).filter fun n => -2147483648 ≤ n && n ≤ 2147483647
  let minor ← nat32OfText? 10 minor
  return (major, minor)

/-- The font-wide values.  The descender is measured upwards, the descent downwards. -/
def info (i : FontInfo) : UfoInfo :=
  { familyName := unlessEmpty i.familyName
    styleName := unlessEmpty i.weight
    weightName := unlessEmpty i.weight
    fontName := some i.fontName
    fullName := some i.fullName
    versionMajor := (versionNumbers? i.version).map (·.1)
    versionMinor := (versionNumbers? i.version).map (·.2)
    copyright := unlessEmpty i.copyright
    note := unlessEmpty i.comment
    unitsPerEm := i.unitsPerEm.map Float.ofNat
    ascender := some (Float.ofInt i.ascent)
    descender := some (-(Float.ofInt i.descent))
    xHeight := i.xHeight.map Float.ofInt
    capHeight := i.capHeight.map Float.ofInt
    italicAngle := some i.italicAngle
    underlinePosition := i.underlinePosition.map Float.ofInt
    underlineThickness := i.underlineWidth.map Float.ofInt }

/-- The glyphs by name; of two of one name the later one stays. -/
def byName (glyphs : List UfoGlyph) : List UfoGlyph :=
  let t : Table String UfoGlyph := glyphs.foldl (fun t g => Table.put t g.name g) []
  (t.map (·.2)).mergeSort fun g h => decide (g.name ≤ h.name)

/-- The whole font. -/
def ofFont (f : Font) : Noted UfoFont := do
  let glyphs ← f.glyphs.filterMapM glyph?
  return { info := info f.info, glyphs := byName glyphs }

end Ufo

end FontTrace
