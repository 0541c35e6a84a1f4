import FontTrace.Json.Fields
import FontTrace.Json.Reader
import FontTrace.Settings

/-!
# FontTrace.Settings.Json

Settings as JSON, in a settings file and for printing.
-/

namespace FontTrace

namespace CodeRange

/-- A code range as JSON. -/
def toJson (r : CodeRange) : Json :=
  .obj [("start", .int r.first), ("end", .option .int r.last)]

/-- A code range from JSON; only its start is required. -/
def ofJson? (j : Json) : Option CodeRange := do
  let fs ← j.fields? ["start", "end"]
  return ⟨← fs.need? "start" Json.int64?, ← fs.get? "end" (Json.option? Json.int64?) none⟩

end CodeRange

namespace ScriptLanguages

/-- A script and its languages as JSON. -/
def toJson (s : ScriptLanguages) : Json :=
  .obj [("script", .str s.script), ("languages", .list .str s.languages)]

/-- A script and its languages from JSON. -/
def ofJson? (j : Json) : Option ScriptLanguages := do
  let fs ← j.fields? ["script", "languages"]
  return ⟨← fs.need? "script" Json.str?, ← fs.need? "languages" (Json.list? Json.str?)⟩

end ScriptLanguages

namespace GeometrySettings

/-- Scales and thresholds as JSON. -/
def toJson (g : GeometrySettings) : Json :=
  .obj [
    ("correct_direction_scale", .float g.correctDirectionScale),
    ("remove_overlap_scale", .float g.removeOverlapScale),
    ("artifact_distance_threshold", .float g.artifactDistanceThreshold),
    ("artifact_point_threshold", .float g.artifactPointThreshold),
    ("collinear_distance_threshold", .float g.collinearDistanceThreshold),
    ("make_lines_distance_threshold", .float g.makeLinesDistanceThreshold)]

/-- The names of the fields, in order. -/
def fieldNames : List String := [
  "correct_direction_scale", "remove_overlap_scale", "artifact_distance_threshold",
  "artifact_point_threshold", "collinear_distance_threshold", "make_lines_distance_threshold"]

/-- Scales and thresholds from JSON. -/
def ofJson? (j : Json) : Option GeometrySettings := do
  let fs ← j.fields? fieldNames
  let d : GeometrySettings := {}
  let get (name : String) (default : Float) := fs.get? name Json.float? default
  return {
    correctDirectionScale := ← get "correct_direction_scale" d.correctDirectionScale
    removeOverlapScale := ← get "remove_overlap_scale" d.removeOverlapScale
    artifactDistanceThreshold := ← get "artifact_distance_threshold" d.artifactDistanceThreshold
    artifactPointThreshold := ← get "artifact_point_threshold" d.artifactPointThreshold
    collinearDistanceThreshold :=
      ← get "collinear_distance_threshold" d.collinearDistanceThreshold
    makeLinesDistanceThreshold :=
      ← get "make_lines_distance_threshold" d.makeLinesDistanceThreshold }

end GeometrySettings

namespace ExtensionSwitches

/-- The switches as JSON. -/
def toJson (x : ExtensionSwitches) : Json :=
  .obj [
    ("attachment_points", .bool x.attachmentPoints), ("font", .bool x.font),
    ("glyph", .bool x.glyph), ("ligature", .bool x.ligature),
    ("ligtable_switch", .bool x.ligtableSwitch), ("outline", .bool x.outline)]

/-- The names of the fields, in order. -/
def fieldNames : List String := [
  "attachment_points", "font", "glyph", "ligature", "ligtable_switch", "outline"]

/-- The switches from JSON. -/
def ofJson? (j : Json) : Option ExtensionSwitches := do
  let fs ← j.fields? fieldNames
  let get (name : String) := fs.get? name Json.bool? false
  return {
    attachmentPoints := ← get "attachment_points"
    font := ← get "font"
    glyph := ← get "glyph"
    ligature := ← get "ligature"
    ligtableSwitch := ← get "ligtable_switch"
    outline := ← get "outline" }

end ExtensionSwitches

namespace Settings

/-- The settings as JSON. -/
def toJson (s : Settings) : Json :=
  .obj [
    ("ascent", .option .int s.ascent),
    ("descent", .option .int s.descent),
    ("charcode_from_last_ascii_hex_arg", .bool s.charcodeFromLastAsciiHexArg),
    ("cull_at_shipout", .bool s.cullAtShipout),
    ("fix_contours", .bool s.fixContours),
    ("remove_artifacts", .bool s.removeArtifacts),
    ("remove_collinear", .bool s.removeCollinear),
    ("make_lines", .bool s.makeLines),
    ("extensions", s.extensions.toJson),
    ("generalized_code", .bool s.generalizedCode),
    ("glyph_name_suffix", .option .str s.glyphNameSuffix),
    ("ot_sub_feature", .option .str s.otSubFeature),
    ("only_code_points", .option (.list CodeRange.toJson) s.onlyCodePoints),
    ("ignore_code_points", .option (.list CodeRange.toJson) s.ignoreCodePoints),
    ("input_encoding", .option .str s.inputEncoding),
    ("kerning_classes", .bool s.kerningClasses),
    ("scripts", .list ScriptLanguages.toJson s.scripts),
    ("set_italic_correction", .bool s.setItalicCorrection),
    ("set_math_defaults", .bool s.setMathDefaults),
    ("set_top_accent", .bool s.setTopAccent),
    ("skewchar", .int s.skewchar),
    ("space_from_fontdimen", .bool s.spaceFromFontdimen),
    ("stroke_accuracy", .option .float s.strokeAccuracy),
    ("stroke_simplify", .bool s.strokeSimplify),
    ("subtable_index", .option .nat s.subtableIndex),
    ("ppi", .float s.ppi),
    ("use_ppi_factor", .bool s.usePpiFactor),
    ("upm", .option .nat s.upm),
    ("font_name", .option .str s.fontName),
    ("family_name", .option .str s.familyName),
    ("full_name", .option .str s.fullName),
    ("version", .str s.version),
    ("copyright", .str s.copyright),
    ("comment", .str s.comment),
    ("fontlog", .str s.fontlog),
    ("italic_angle", .float s.italicAngle),
    ("design_size", .option .float s.designSize),
    ("underline_position", .option .float s.underlinePosition),
    ("underline_width", .option .float s.underlineWidth),
    ("geometry", s.geometry.toJson)]

/-- The names of the fields, in order. -/
def fieldNames : List String := [
  "ascent", "descent", "charcode_from_last_ascii_hex_arg", "cull_at_shipout", "fix_contours",
  "remove_artifacts", "remove_collinear", "make_lines", "extensions", "generalized_code",
  "glyph_name_suffix", "ot_sub_feature", "only_code_points", "ignore_code_points",
  "input_encoding", "kerning_classes", "scripts", "set_italic_correction", "set_math_defaults",
  "set_top_accent", "skewchar", "space_from_fontdimen", "stroke_accuracy", "stroke_simplify",
  "subtable_index", "ppi", "use_ppi_factor", "upm", "font_name", "family_name", "full_name",
  "version", "copyright", "comment", "fontlog", "italic_angle", "design_size",
  "underline_position", "underline_width", "geometry"]

/-- The settings from JSON; fields that are left out have their defaults. -/
def ofJson? (j : Json) : Option Settings := do
  let fs ← j.fields? fieldNames
  let d : Settings := {}
  let bool (name : String) (default : Bool) := fs.get? name Json.bool? default
  let text (name : String) (default : String) := fs.get? name Json.str? default
  let textOrNull (name : String) := fs.get? name (Json.option? Json.str?) none
  let floatOrNull (name : String) := fs.get? name (Json.option? Json.float?) none
  let intOrNull (name : String) := fs.get? name (Json.option? Json.int64?) none
  let natOrNull (name : String) := fs.get? name (Json.option? Json.nat32?) none
  let ranges (name : String) :=
    fs.get? name (Json.option? (Json.list? CodeRange.ofJson?)) none
  return {
    ascent := ← intOrNull "ascent"
    descent := ← intOrNull "descent"
    charcodeFromLastAsciiHexArg :=
      ← bool "charcode_from_last_ascii_hex_arg" d.charcodeFromLastAsciiHexArg
    cullAtShipout := ← bool "cull_at_shipout" d.cullAtShipout
    fixContours := ← bool "fix_contours" d.fixContours
    removeArtifacts := ← bool "remove_artifacts" d.removeArtifacts
    removeCollinear := ← bool "remove_collinear" d.removeCollinear
    makeLines := ← bool "make_lines" d.makeLines
    extensions := ← fs.get? "extensions" ExtensionSwitches.ofJson? d.extensions
    generalizedCode := ← bool "generalized_code" d.generalizedCode
    glyphNameSuffix := ← textOrNull "glyph_name_suffix"
    otSubFeature := ← textOrNull "ot_sub_feature"
    onlyCodePoints := ← ranges "only_code_points"
    ignoreCodePoints := ← ranges "ignore_code_points"
    inputEncoding := ← textOrNull "input_encoding"
    kerningClasses := ← bool "kerning_classes" d.kerningClasses
    scripts := ← fs.get? "scripts" (Json.list? ScriptLanguages.ofJson?) d.scripts
    setItalicCorrection := ← bool "set_italic_correction" d.setItalicCorrection
    setMathDefaults := ← bool "set_math_defaults" d.setMathDefaults
    setTopAccent := ← bool "set_top_accent" d.setTopAccent
    skewchar := ← fs.get? "skewchar" Json.int64? d.skewchar
    spaceFromFontdimen := ← bool "space_from_fontdimen" d.spaceFromFontdimen
    strokeAccuracy := ← floatOrNull "stroke_accuracy"
    strokeSimplify := ← bool "stroke_simplify" d.strokeSimplify
    subtableIndex := ← natOrNull "subtable_index"
    ppi := ← fs.get? "ppi" Json.float? d.ppi
    usePpiFactor := ← bool "use_ppi_factor" d.usePpiFactor
    upm := ← natOrNull "upm"
    fontName := ← textOrNull "font_name"
    familyName := ← textOrNull "family_name"
    fullName := ← textOrNull "full_name"
    version := ← text "version" d.version
    copyright := ← text "copyright" d.copyright
    comment := ← text "comment" d.comment
    fontlog := ← text "fontlog" d.fontlog
    italicAngle := ← fs.get? "italic_angle" Json.float? d.italicAngle
    designSize := ← floatOrNull "design_size"
    underlinePosition := ← floatOrNull "underline_position"
    underlineWidth := ← floatOrNull "underline_width"
    geometry := ← fs.get? "geometry" GeometrySettings.ofJson? d.geometry }

/-- How deeply a settings file may be nested. -/
def fileDepth : Nat := 128

/-- The settings in the text of a settings file.  The file is one object, and
even what is unknown in it has to be sound JSON of moderate depth. -/
def ofFile? (text : String) : Option Settings := do
  let j ← Json.ofText? text
  match j with
  | .obj _ => if j.isClean && j.depth < fileDepth then ofJson? j else none
  | _ => none

end Settings

end FontTrace
