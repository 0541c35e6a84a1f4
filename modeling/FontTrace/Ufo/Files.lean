import FontTrace.Number.Decimal
import FontTrace.Number.Order
import FontTrace.Ufo
import FontTrace.Xml

/-!
# FontTrace.Ufo.Files

The files of a UFO directory: property lists about the font, and a file for each
glyph.

A glyph's file is named after it.  Capitals are marked by a low line, so that the
names differ even where case does not count, and a name that is taken gets a
number.
-/

namespace FontTrace

namespace Ufo

/-! ## property lists -/

/-- A number, without a point if it needs none. -/
def numberText (x : Float) : String := Decimal.text x

/-- A property. -/
def property (key : String) (value : Xml) : List Xml := [.leaf "key" key, value]

/-- A property that may be unset. -/
def propertyIf (key : String) (value : Option Xml) : List Xml :=
  match value with
  | some v => property key v
  | none => []

/-- The document of a property list. -/
def plist (x : Xml) : String := (Xml.element "plist" [("version", "1.0")] [x]).render

/-- A dictionary of properties. -/
def dict (properties : List (List Xml)) : Xml := .element "dict" [] properties.flatten

/-- What wrote the directory, and in which version of the format. -/
def metaInfo : Xml :=
  dict [
    property "creator" (.leaf "string" "mfvec"),
    property "formatVersion" (.leaf "integer" "3")]

/-- The font-wide values as a dictionary. -/
def UfoInfo.toXml (i : UfoInfo) : Xml :=
  let text (key : String) (v : Option String) := propertyIf key (v.map (.leaf "string"))
  let number (key : String) (v : Option Float) :=
    propertyIf key (v.map fun x => .leaf "real" (numberText x))
  let integer (key : String) (v : Option Int) :=
    propertyIf key (v.map fun n => .leaf "integer" (toString n))
  dict [
    number "ascender" i.ascender,
    number "capHeight" i.capHeight,
    text "copyright" i.copyright,
    number "descender" i.descender,
    text "familyName" i.familyName,
    number "italicAngle" i.italicAngle,
    text "note" i.note,
    text "postscriptFontName" i.fontName,
    text "postscriptFullName" i.fullName,
    number "postscriptUnderlinePosition" i.underlinePosition,
    number "postscriptUnderlineThickness" i.underlineThickness,
    text "postscriptWeightName" i.weightName,
    text "styleName" i.styleName,
    number "unitsPerEm" i.unitsPerEm,
    integer "versionMajor" i.versionMajor,
    integer "versionMinor" (i.versionMinor.map fun n => (n : Int)),
    number "xHeight" i.xHeight]

/-! ## glyphs -/

/-- The type of a point as an attribute; control points have none. -/
def PointType.attribute : PointType → List (String × String)
  | .move => [("type", "move")]
  | .line => [("type", "line")]
  | .curve => [("type", "curve")]
  | .offCurve => []

/-- A position as attributes. -/
def positionAttributes (p : Point) : List (String × String) :=
  [("x", numberText p.x), ("y", numberText p.y)]

/-- A contour as an element. -/
def contourToXml (points : List ContourPoint) : Xml :=
  .element "contour" []
    (points.map fun p => .element "point" (positionAttributes p.pos ++ p.type.attribute) [])

/-- A component as an element; coefficients of the identity are left out. -/
def Component.toXml (c : Component) : Xml :=
  let t := c.transform
  let coefficients := [
    ("xScale", t.xScale, (1 : Float)), ("xyScale", t.xyScale, 0), ("yxScale", t.yxScale, 0),
    ("yScale", t.yScale, 1), ("xOffset", t.xOffset, 0), ("yOffset", t.yOffset, 0)]
  let shown := coefficients.filterMap fun (name, x, usual) =>
    if x == usual then none else some (name, numberText x)
  .element "component" (("base", c.base) :: shown) []

/-- A glyph as an element. -/
def UfoGlyph.toXml (g : UfoGlyph) : Xml :=
  let outline := g.contours.map contourToXml ++ g.components.map Component.toXml
  .element "glyph" [("name", g.name), ("format", "2")]
    ([Xml.element "advance" [("width", numberText g.width)] []] ++
      g.codepoints.map (fun n => Xml.element "unicode" [("hex", hexDigits 4 n)] []) ++
      (g.note.map (Xml.leaf "note")).toList ++
      g.anchors.map (fun a => .element "anchor" (positionAttributes a.pos ++ [("name", a.name)]) []) ++
      (if outline.isEmpty then [] else [.element "outline" [] outline]))

/-! ## file names -/

/-- A character of a glyph name in a file name. -/
def fileNameChar (c : Char) : List Char :=
  if c.isUpper then [c, '_']
  else if c ∈ "\"*+/:<>?[\\]|".toList then ['_']
  else [c]

/-- The file name of a glyph, if it is not taken. -/
def plainFileName (name : String) : String :=
  let cs := match name.toList with
    | '.' :: cs => '_' :: cs
    | cs => cs
  String.ofList (cs.flatMap fileNameChar)

/-- The first of the file name and its numbered forms that is not taken; case
does not count. -/
def freeFileName (taken : List String) (name : String) : String :=
  let plain := plainFileName name
  let candidates := plain :: (List.range (taken.length + 1)).map fun n => plain ++ toString (n + 1)
  (candidates.find? fun c => !taken.contains c.toLower).getD plain

/-- The glyphs with their file names. -/
def named (glyphs : List UfoGlyph) : List (String × UfoGlyph) :=
  let add (before : List String × List (String × UfoGlyph)) (g : UfoGlyph) :=
    let file := freeFileName before.1 g.name
    (file.toLower :: before.1, (file ++ ".glif", g) :: before.2)
  (glyphs.foldl add ([], [])).2.reverse

/-! ## the directory -/

/-- The name of the directory of glyphs. -/
def glyphDirectory : String := "glyphs"

/-- The files of the directory, apart from those of glyphs. -/
def UfoFont.files (f : UfoFont) : List (String × String) :=
  let layer := Xml.element "array" [] [.leaf "string" "public.default", .leaf "string" glyphDirectory]
  [("metainfo.plist", plist metaInfo),
   ("fontinfo.plist", plist f.info.toXml),
   ("layercontents.plist", plist (.element "array" [] [layer]))]

/-- The files of the directory of glyphs. -/
def UfoFont.glyphFiles (f : UfoFont) : List (String × String) :=
  let files := named f.glyphs
  let contents := files.map fun (file, g) => property g.name (.leaf "string" file)
  ("contents.plist", plist (dict contents)) :: files.map fun (file, g) => (file, g.toXml.render)

end Ufo

end FontTrace
