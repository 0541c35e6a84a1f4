import FontTrace.Json
import FontTrace.Trace.Record

/-!
# FontTrace.Trace.Json

Operations and records as JSON.  An operation is written as its name, or as an
object with the name for its only field if it carries something.
-/

namespace FontTrace

/-- An object with one field. -/
def Json.tagged (tag : String) (value : Json) : Json := .obj [(tag, value)]

/-- The name of a transformation. -/
def TransformKind.name : TransformKind → String
  | .rotated => "Rotated"
  | .scaled => "Scaled"
  | .shifted => "Shifted"
  | .slanted => "Slanted"
  | .xscaled => "XScaled"
  | .yscaled => "YScaled"

/-- The name of a request. -/
def EditRequest.name : EditRequest → String
  | .addExtrema => "AddExtrema"
  | .addInflections => "AddInflections"
  | .round => "Round"
  | .autoHint => "AutoHint"
  | .autoInstruct => "AutoInstruct"

/-- The name of a font-wide value or request. -/
def FontCommand.name : FontCommand → String
  | .text .name => "Name"
  | .text .familyName => "FamilyName"
  | .text .fullName => "FullName"
  | .text .weight => "Weight"
  | .text .version => "Version"
  | .text .copyright => "Copyright"
  | .text .comment => "Comment"
  | .text .fontlog => "Fontlog"
  | .metric .ascent => "Ascent"
  | .metric .descent => "Descent"
  | .metric .capHeight => "CapHeight"
  | .metric .underlinePosition => "UnderlinePosition"
  | .metric .underlineWidth => "UnderlineWidth"
  | .request what => what.name
  | .mathConstant => "MathConstant"
  | .privateDictionary => "PrivateDictionary"

/-- The name of a corner. -/
def Corner.name : Corner → String
  | .topRight => "TopRight"
  | .topLeft => "TopLeft"
  | .bottomRight => "BottomRight"
  | .bottomLeft => "BottomLeft"

/-- The name of a kind of hints. -/
def HintKind.name : HintKind → String
  | .horizontal => "Horizontal"
  | .vertical => "Vertical"
  | .diagonal => "Diagonal"

/-- A value or request for the next glyph. -/
def GlyphCommand.toJson : GlyphCommand → Json
  | .name => .str "Name"
  | .unicode => .str "Unicode"
  | .comment => .str "Comment"
  | .topAccent => .str "TopAccent"
  | .build => .str "Build"
  | .addReference => .str "AddReference"
  | .request what => .str what.name
  | .hint kind => .tagged "Hint" (.str kind.name)
  | .mathKerning corner => .tagged "MathKerning" (.str corner.name)
  | .replacedBy => .str "ReplacedBy"
  | .replacementOf => .str "ReplacementOf"

/-- The name of an edit of contours or points. -/
def OutlineCommand.name : OutlineCommand → String
  | .sortCanonical => "SortCanonical"
  | .sortDirection => "SortDir"
  | .nameByCoords => "NameByCoords"
  | .nameByIndex => "NameByIndex"
  | .makeFirst => "MakeFirst"
  | .makeFirstContour => "MakeFirstContour"
  | .delete => "Delete"
  | .deleteContour => "DeleteContour"

/-- The name of the macro of an attachment point. -/
def AnchorKind.name : AnchorKind → String
  | .markBase => "MarkBase"
  | .markMark => "MarkMark"
  | .mkmkBasemark => "MkmkBasemark"
  | .mkmkMark => "MkmkMark"

/-- An operation. -/
def Op.toJson : Op → Json
  | .addto => .str "Addto"
  | .also => .str "Also"
  | .contour => .str "Contour"
  | .doublepath => .str "Doublepath"
  | .turningCheck => .str "TurningCheck"
  | .turningNumber => .str "TurningNumber"
  | .withPen => .str "WithPen"
  | .withWeight => .str "WithWeight"
  | .transform kind => .tagged "Transform" (.str kind.name)
  | .cull => .str "Cull"
  | .keeping => .str "Keeping"
  | .dropping => .str "Dropping"
  | .picture => .str "Picture"
  | .pictureEquation => .str "PicEqn"
  | .pic => .str "Pic"
  | .assign => .str "Assign"
  | .equate => .str "Equate"
  | .minus => .str "Minus"
  | .plus => .str "Plus"
  | .shipout => .str "Shipout"
  | .ligtable => .str "Ligtable"
  | .label => .str "Label"
  | .skipLabel => .str "SkipLabel"
  | .boundaryLabel => .str "BoundaryLabel"
  | .kern => .str "Kern"
  | .ligature s =>
    .tagged "Ligature" (.obj [
      ("left_pipe", .bool s.keepsLeft), ("right_pipe", .bool s.keepsRight), ("skip", .nat s.skip)])
  | .skipTo => .str "SkipTo"
  | .fontdimen => .str "Fontdimen"
  | .charlist => .str "Charlist"
  | .extensible => .str "Extensible"
  | .designSize => .str "End"
  | .ascii => .str "Ascii"
  | .attachmentPoint kind => .tagged "AttachmentPoint" (.str kind.name)
  | .font command => .tagged "Font" (.str command.name)
  | .glyph command => .tagged "Glyph" command.toJson
  | .ligatureComponents => .str "LigatureComponents"
  | .ligatureCarets => .str "LigatureCarets"
  | .ligtableSwitch kind feature =>
    .tagged "LigtableSwitch" (.obj [("kind", .str kind), ("feature", .str feature)])
  | .outline command => .tagged "Outline" (.str command.name)
  | .unknown name => .tagged "Unknown" (.str name)

/-- The name of a macro family. -/
def Extension.name : Extension → String
  | .asciiHexCode => "AsciiHexCode"
  | .attachmentPoints => "AttachmentPoints"
  | .font => "Font"
  | .glyph => "Glyph"
  | .ligature => "Ligature"
  | .ligtableSwitch => "LigtableSwitch"
  | .outline => "Outline"

/-- A record. -/
def Record.toJson (r : Record) : Json :=
  .obj [("name", .str r.name), ("line", .option .nat r.line), ("body", .str r.body)]

end FontTrace
