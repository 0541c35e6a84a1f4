import FontTrace.Font.Model
import FontTrace.Settings.Json

/-!
# FontTrace.Font.Json

The font as JSON.  Tables are written in the order of their names, everything
else in the order in which the font has it.
-/

namespace FontTrace

/-- A table by its names. -/
def Table.toJson {β : Type} (encode : β → Json) (t : Table String β) : Json :=
  .obj ((t.mergeSort fun p q => decide (p.1 ≤ q.1)).map fun (k, v) => (k, encode v))

namespace Font

/-- A node of a contour. -/
def nodeToJson (n : Node) : Json :=
  .obj [("x", .float n.pos.x), ("y", .float n.pos.y), ("on_curve", .bool n.onCurve)]

/-- A contour. -/
def contourToJson (c : Contour) : Json :=
  .obj [("points", .list nodeToJson c.nodes), ("closed", .bool c.closed)]

/-- An outline. -/
def outlineToJson (o : Outline) : Json := .obj [("contours", .list contourToJson o)]

/-- The requests to a font editor. -/
def postProcessToJson (p : PostProcess) : Json :=
  .obj [
    ("add_extrema", .bool p.addExtrema), ("add_inflections", .bool p.addInflections),
    ("round", .bool p.round), ("auto_hint", .bool p.autoHint),
    ("auto_instruct", .bool p.autoInstruct)]

/-- A point or a direction, as an array of two. -/
def pointToJson (p : Point) : Json := .arr [.float p.x, .float p.y]

/-- An attachment point. -/
def anchorToJson (a : Anchor) : Json :=
  .obj [
    ("class", .str a.anchorClass), ("point_type", .str a.role),
    ("x", .float a.pos.x), ("y", .float a.pos.y)]

/-- A reference. -/
def referenceToJson (r : Reference) : Json :=
  let t := r.transform
  .obj [
    ("glyph", .str r.glyph),
    ("transform", .list .float [t.xx, t.xy, t.yx, t.yy, t.tx, t.ty])]

/-- Stem hints. -/
def hintsToJson (h : Hints) : Json :=
  let diagonal (d : DiagonalHint) : Json :=
    .obj [
      ("start", pointToJson d.start), ("end", pointToJson d.stop),
      ("direction", pointToJson d.direction)]
  .obj [
    ("horizontal", .list (.pair .float .float) h.horizontal),
    ("vertical", .list (.pair .float .float) h.vertical),
    ("diagonal", .list diagonal h.diagonal)]

/-- Math kerns. -/
def mathKerningToJson (m : MathKerning) : Json :=
  let kerns := Json.list (.pair .int .int)
  .obj [
    ("top_right", kerns m.topRight), ("top_left", kerns m.topLeft),
    ("bottom_right", kerns m.bottomRight), ("bottom_left", kerns m.bottomLeft)]

/-- One piece of an assembly. -/
def componentToJson (c : VerticalComponent) : Json :=
  .obj [
    ("glyph", .str c.glyph), ("extender", .bool c.extender),
    ("start_connector", .int c.startConnector), ("end_connector", .int c.endConnector),
    ("full_advance", .int c.fullAdvance)]

/-- A glyph. -/
def glyphToJson (g : Glyph) : Json :=
  .obj [
    ("name", .str g.name),
    ("code", .option .int g.code),
    ("unicode", .option .nat g.unicode),
    ("outline", outlineToJson g.outline),
    ("width", .int g.width),
    ("height", .int g.height),
    ("depth", .int g.depth),
    ("italic_correction", .int g.italicCorrection),
    ("top_accent", .option .int g.topAccent),
    ("anchors", .list anchorToJson g.anchors),
    ("references", .list referenceToJson g.references),
    ("hints", hintsToJson g.hints),
    ("math_kerning", mathKerningToJson g.mathKerning),
    ("vertical_variants", .list .str g.verticalVariants),
    ("vertical_components", .list componentToJson g.verticalComponents),
    ("ligature_carets", .list .int g.ligatureCarets),
    ("comment", .option .str g.comment),
    ("build", .bool g.build),
    ("post_process", postProcessToJson g.postProcess)]

/-- The font-wide values. -/
def infoToJson (i : FontInfo) : Json :=
  .obj [
    ("font_name", .str i.fontName),
    ("family_name", .str i.familyName),
    ("full_name", .str i.fullName),
    ("weight", .str i.weight),
    ("version", .str i.version),
    ("copyright", .str i.copyright),
    ("comment", .str i.comment),
    ("fontlog", .str i.fontlog),
    ("ascent", .int i.ascent),
    ("descent", .int i.descent),
    ("cap_height", .option .int i.capHeight),
    ("x_height", .option .int i.xHeight),
    ("underline_position", .option .int i.underlinePosition),
    ("underline_width", .option .int i.underlineWidth),
    ("italic_angle", .float i.italicAngle),
    ("design_size", .option .float i.designSize),
    ("units_per_em", .option .nat i.unitsPerEm),
    ("math_constants", Table.toJson .int i.mathConstants),
    ("private_dict", Table.toJson .str i.privateDict),
    ("post_process", postProcessToJson i.postProcess)]

/-- The fields of a table of kerning classes. -/
def kernClassFields (t : KernClasses) : List (String × Json) := [
  ("left_classes", .list (.list .str) t.leftClasses),
  ("right_classes", .list (.list .str) t.rightClasses),
  ("offsets", .list (.list .int) t.offsets)]

/-- A rule, with its type in the first field. -/
def ruleToJson : Rule → Json
  | .single glyph replacement =>
    .obj [("type", .str "single"), ("glyph", .str glyph), ("replacement", .str replacement)]
  | .multiple glyph replacement =>
    .obj [
      ("type", .str "multiple"), ("glyph", .str glyph), ("replacement", .list .str replacement)]
  | .ligature components ligature =>
    .obj [
      ("type", .str "ligature"), ("components", .list .str components),
      ("ligature", .str ligature)]
  | .pair left right kern =>
    .obj [("type", .str "pair"), ("left", .str left), ("right", .str right), ("kern", .int kern)]
  | .contextChain rule => .obj [("type", .str "context_chain"), ("rule", .str rule)]
  | .kerningClasses table => .obj (("type", .str "kerning_classes") :: kernClassFields table)

/-- A subtable. -/
def subtableToJson (s : Subtable) : Json :=
  .obj [
    ("name", .str s.name), ("anchor_classes", .list .str s.anchorClasses),
    ("rules", .list ruleToJson s.rules)]

/-- The name of a kind of lookups. -/
def kindName : LookupKind → String
  | .gsubSingle => "gsub_single"
  | .gsubMultiple => "gsub_multiple"
  | .gsubLigature => "gsub_ligature"
  | .gsubContextChain => "gsub_context_chain"
  | .gposPair => "gpos_pair"
  | .gposMarkToBase => "gpos_mark_to_base"
  | .gposMarkToMark => "gpos_mark_to_mark"

/-- A lookup. -/
def lookupToJson (l : Lookup) : Json :=
  .obj [
    ("name", .str l.name), ("kind", .str (kindName l.kind)),
    ("feature", .option .str l.feature),
    ("scripts", .list ScriptLanguages.toJson l.scripts),
    ("subtables", .list subtableToJson l.subtables)]

/-- A font.  The encoding is not part of it. -/
def toJson (f : Font) : Json :=
  .obj [
    ("info", infoToJson f.info), ("glyphs", .list glyphToJson f.glyphs),
    ("lookups", .list lookupToJson f.lookups)]

end Font

end FontTrace
