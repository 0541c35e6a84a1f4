import FontTrace.Text.Scan

/-!
# FontTrace.Trace.Op

The operations a trace can show.  Every record name stands for one `Op`, so
everything after this module decides on a closed set of cases and compares no
strings.  Names that the instrumentation never writes stand for
`Op.unknown`, which keeps the name for the report.

`Op.ofName` looks a name up in three steps: fixed names (`plainOps`), ligature
operators (every name with `=:` in it), and the macro families, each with a
word in front of its own names.
-/

namespace FontTrace

/-- The transformations that may follow `also`. -/
inductive TransformKind where
  | rotated | scaled | shifted | slanted | xscaled | yscaled
deriving DecidableEq, Repr

/-- A ligature operator: which of the two characters it keeps (`|` on that
side of `=:`), and how many characters it skips afterwards (`>`, at most two). -/
structure LigatureShape where
  keepsLeft : Bool
  keepsRight : Bool
  skip : Nat
deriving DecidableEq, Repr

/-- The macro that placed an attachment point. -/
inductive AnchorKind where
  | markBase | markMark | mkmkBasemark | mkmkMark
deriving DecidableEq, Repr

/-- The two mark positioning features. -/
inductive MarkFeature where
  | markToBase | markToMark
deriving DecidableEq, Repr

/-- The feature an attachment point belongs to. -/
def AnchorKind.feature : AnchorKind → MarkFeature
  | .markBase | .markMark => .markToBase
  | .mkmkBasemark | .mkmkMark => .markToMark

/-- The feature's OpenType tag. -/
def MarkFeature.tag : MarkFeature → String
  | .markToBase => "mark"
  | .markToMark => "mkmk"

/-- The part an attachment point plays on its glyph. -/
def AnchorKind.role : AnchorKind → String
  | .markBase => "base"
  | .markMark | .mkmkMark => "mark"
  | .mkmkBasemark => "basemark"

/-- What a font editor can be asked to do with a glyph or with the whole font. -/
inductive EditRequest where
  | addExtrema | addInflections | round | autoHint | autoInstruct
deriving DecidableEq, Repr

/-- The font-wide values that are texts. -/
inductive FontText where
  | name | familyName | fullName | weight | version | copyright | comment | fontlog
deriving DecidableEq, Repr

/-- The font-wide values that are lengths. -/
inductive FontMetric where
  | ascent | descent | capHeight | underlinePosition | underlineWidth
deriving DecidableEq, Repr

/-- Font-wide values and requests. -/
inductive FontCommand where
  | text (field : FontText)
  | metric (field : FontMetric)
  | request (what : EditRequest)
  | mathConstant | privateDictionary
deriving DecidableEq, Repr

/-- The three kinds of stem hints. -/
inductive HintKind where
  | horizontal | vertical | diagonal
deriving DecidableEq, Repr

/-- The corners of a glyph at which math kerns are given. -/
inductive Corner where
  | topRight | topLeft | bottomRight | bottomLeft
deriving DecidableEq, Repr

/-- Whether kerns at this corner are measured from the advance width. -/
def Corner.isRight : Corner → Bool
  | .topRight | .bottomRight => true
  | .topLeft | .bottomLeft => false

/-- Values and requests for the next glyph. -/
inductive GlyphCommand where
  | name | unicode | comment | topAccent | build | addReference
  | request (what : EditRequest)
  | hint (kind : HintKind)
  | mathKerning (corner : Corner)
  | replacedBy | replacementOf
deriving DecidableEq, Repr

/-- Edits of a picture's contours and named points. -/
inductive OutlineCommand where
  | sortCanonical | sortDirection | nameByCoords | nameByIndex
  | makeFirst | makeFirstContour | delete | deleteContour
deriving DecidableEq, Repr

/-- The macro families that a run may switch on. -/
inductive Extension where
  | asciiHexCode | attachmentPoints | font | glyph | ligature | ligtableSwitch | outline
deriving DecidableEq, Repr

/-- What a record is about. -/
inductive Op where
  | addto | also | contour | doublepath | turningCheck | turningNumber | withPen | withWeight
  | transform (kind : TransformKind)
  | cull | keeping | dropping
  | picture | pictureEquation | pic | assign | equate | minus | plus
  | shipout
  | ligtable | label | skipLabel | boundaryLabel | kern
  | ligature (shape : LigatureShape)
  | skipTo
  | fontdimen | charlist | extensible | designSize
  | ascii
  | attachmentPoint (kind : AnchorKind)
  | font (command : FontCommand)
  | glyph (command : GlyphCommand)
  | ligatureComponents | ligatureCarets
  | ligtableSwitch (kind feature : String)
  | outline (command : OutlineCommand)
  | unknown (name : String)
deriving DecidableEq, Repr

/-! ## ligature operators -/

namespace LigatureShape

/-- The shape behind a record name, in which `p` stands for `|` and `g` for `>`. -/
def ofName? (name : List Char) : Option LigatureShape := do
  let (left, right) ← splitAtFirst ['=', ':'] name
  if left.all (· == 'p') && right.all (fun c => c == 'p' || c == 'g') then
    return ⟨left.contains 'p', right.contains 'p', min (right.count 'g') 2⟩
  else none

/-- The operator as it is written in a ligature table. -/
def spelling (s : LigatureShape) : String :=
  (if s.keepsLeft then "|" else "") ++ "=:" ++ (if s.keepsRight then "|" else "") ++
    String.ofList (List.replicate s.skip '>')

end LigatureShape

/-! ## names -/

/-- The names that stand for themselves. -/
def plainOps : List (String × Op) := [
  ("addto", .addto), ("also", .also), ("contour", .contour), ("doublepath", .doublepath),
  ("turningcheck", .turningCheck), ("turningnumber", .turningNumber),
  ("withpen", .withPen), ("withweight", .withWeight),
  ("rotated", .transform .rotated), ("scaled", .transform .scaled),
  ("shifted", .transform .shifted), ("slanted", .transform .slanted),
  ("xscaled", .transform .xscaled), ("yscaled", .transform .yscaled),
  ("cull", .cull), ("keeping", .keeping), ("dropping", .dropping),
  ("picture", .picture), ("pic_eqn", .pictureEquation), ("pic", .pic),
  ("as", .assign), ("eq", .equate), ("mi", .minus), ("pl", .plus),
  ("shipout", .shipout),
  ("ligtable", .ligtable), (":", .label), ("::", .skipLabel), ("pp:", .boundaryLabel),
  ("kern", .kern), ("skipto", .skipTo),
  ("fontdimen", .fontdimen), ("charlist", .charlist), ("extensible", .extensible),
  ("end", .designSize), ("ASCII", .ascii),
  ("ligature_components", .ligatureComponents), ("ligature_carets", .ligatureCarets)]

/-- The names after `attachment_point_`. -/
def anchorNames : List (String × AnchorKind) := [
  ("mark_base", .markBase), ("mark_mark", .markMark),
  ("mkmk_basemark", .mkmkBasemark), ("mkmk_mark", .mkmkMark)]

/-- The names of the requests to a font editor, for a glyph and for a font. -/
def requestNames : List (String × EditRequest) := [
  ("add_extrema", .addExtrema), ("add_inflections", .addInflections), ("round", .round),
  ("auto_hint", .autoHint), ("auto_instruct", .autoInstruct)]

/-- The names after `font_`. -/
def fontNames : List (String × FontCommand) := [
  ("name", .text .name), ("family_name", .text .familyName), ("full_name", .text .fullName),
  ("weight", .text .weight), ("version", .text .version), ("copyright", .text .copyright),
  ("comment", .text .comment), ("fontlog", .text .fontlog),
  ("ascent", .metric .ascent), ("descent", .metric .descent),
  ("cap_height", .metric .capHeight), ("underline_position", .metric .underlinePosition),
  ("underline_width", .metric .underlineWidth),
  ("math_constant", .mathConstant), ("postscript_private_dictionary", .privateDictionary)] ++
  requestNames.map fun (name, what) => (name, .request what)

/-- The names after `glyph_`. -/
def glyphNames : List (String × GlyphCommand) := [
  ("name", .name), ("unicode", .unicode), ("comment", .comment), ("top_accent", .topAccent),
  ("build", .build), ("add_reference", .addReference),
  ("add_horizontal_hint", .hint .horizontal), ("add_vertical_hint", .hint .vertical),
  ("add_diagonal_hint", .hint .diagonal),
  ("add_math_kerning_top_right", .mathKerning .topRight),
  ("add_math_kerning_top_left", .mathKerning .topLeft),
  ("add_math_kerning_bottom_right", .mathKerning .bottomRight),
  ("add_math_kerning_bottom_left", .mathKerning .bottomLeft),
  ("replaced_by", .replacedBy), ("replacement_of", .replacementOf)] ++
  requestNames.map fun (name, what) => (name, .request what)

/-- The names after `outline_`. -/
def outlineNames : List (String × OutlineCommand) := [
  ("sort_canonical", .sortCanonical), ("sort_dir", .sortDirection),
  ("point_name_by_coords", .nameByCoords), ("point_name_by_index", .nameByIndex),
  ("point_make_first", .makeFirst), ("point_make_first_contour", .makeFirstContour),
  ("point_delete", .delete), ("point_delete_contour", .deleteContour)]

/-- The features a kind of ligature table entry can be switched to; the first
one is the default. -/
def switchableFeatures : List (String × List String) := [("lig", ["liga", "dlig", "hlig"])]

/-- The families of macro names: the word in front, and what the rest of the
name stands for. -/
def families : List (String × (List Char → Option Op)) := [
  ("attachment_point_", fun cs => (anchorNames.lookup (String.ofList cs)).map .attachmentPoint),
  ("ligtable_switch_", fun cs => do
    let (kind, feature) ← splitAtFirst ['_', 't', 'o', '_'] cs
    let kind := String.ofList kind
    let feature := String.ofList feature
    if ((switchableFeatures.lookup kind).getD []).contains feature then
      return .ligtableSwitch kind feature
    else none),
  ("font_", fun cs => (fontNames.lookup (String.ofList cs)).map .font),
  ("glyph_", fun cs => (glyphNames.lookup (String.ofList cs)).map .glyph),
  ("outline_", fun cs => (outlineNames.lookup (String.ofList cs)).map .outline)]

namespace Op

/-- What a name that is no fixed one stands for.  A name belongs to the first
family whose word it starts with, and to no other. -/
def ofFamilyName? (cs : List Char) : Option Op :=
  if (splitAtFirst ['=', ':'] cs).isSome then (LigatureShape.ofName? cs).map .ligature
  else (families.findSome? fun (word, read) => (strip word.toList cs).map read).join

/-- The operation a record name stands for. -/
def ofName (name : String) : Op :=
  match plainOps.lookup name with
  | some op => op
  | none => (ofFamilyName? name.toList).getD (.unknown name)

/-- The macro family an operation belongs to, if it belongs to one. -/
def extension? : Op → Option Extension
  | .ascii => some .asciiHexCode
  | .attachmentPoint _ => some .attachmentPoints
  | .font _ => some .font
  | .glyph _ => some .glyph
  | .ligatureComponents | .ligatureCarets => some .ligature
  | .ligtableSwitch _ _ => some .ligtableSwitch
  | .outline _ => some .outline
  | _ => none

end Op

end FontTrace
