import FontTrace.Command.Edit
import FontTrace.Command.Metric
import FontTrace.Command.Shipment

/-!
# FontTrace.Command

Commands of a trace.  A command is all that a construct asks for, read from its
records and nothing else: neither settings nor pictures nor the font decide
what a construct is or where it ends.

`Command.read` turns the first record of a construct and those after it into a
command, or into the reason why there is none.
-/

namespace FontTrace

/-- What a construct of the trace asks for. -/
inductive Command where
  /-- A hexadecimal code for the next glyph; any other string changes nothing. -/
  | hexCode (code : Option HexCode)
  | picture (c : PictureCommand)
  | edit (e : PictureEdit)
  /-- A character is shipped out; what belongs to it is used up even if its box
  or its picture is not there. -/
  | ship (s : Except Skip Shipment)
  | ligtable (p : LigtableProgram)
  | charlist (c : Charlist)
  | extensible (e : Extensible)
  | fontdimen (params : List FontParam)
  | designSize (size : Float)
  | anchor (feature : MarkFeature) (a : Anchor)
  | font (e : FontEdit)
  | glyph (e : GlyphEdit)
  | ligatureOfNext (components : List CharRef)
  | caretsOfNext (carets : List Int)
  | ligatureFeature (tag : String)

namespace Command

/-- A reader of a command from a reader of its contents. -/
def of {α : Type} (make : α → Command) (x : Reader Skip α) : Reader Skip Command := make <$> x

/-- A command of a single record. -/
def single {α : Type} (make : α → Command) (x : Except Skip α) : Reader Skip Command :=
  of make (Reader.ofExcept x)

/-- The command that starts with a record. -/
def read (r : Record) : Reader Skip Command :=
  match r.op with
  | .ascii => pure (.hexCode (HexCode.read? r))
  | .addto => of .picture (PictureCommand.addto r)
  | .cull => of .picture (PictureCommand.culling r)
  | .picture => pure (.picture (PictureCommand.declaration r))
  | .pictureEquation => of .picture (PictureCommand.equation r)
  | .shipout => of .ship (Shipment.read r).attempt
  | .ligtable => of .ligtable (LigtableProgram.read r)
  | .fontdimen => of .fontdimen (FontParam.readList r)
  | .charlist => of .charlist (Charlist.read r)
  | .extensible => of .extensible (Extensible.read r)
  | .designSize => single .designSize (FontTrace.designSize r)
  | .attachmentPoint kind => single (.anchor kind.feature) (readAnchor kind r)
  | .font command => single .font (FontEdit.read command r)
  | .glyph command => single .glyph (GlyphEdit.read command r)
  | .ligatureComponents => single .ligatureOfNext (readComponents r)
  | .ligatureCarets => single .caretsOfNext (readCarets r)
  | .ligtableSwitch _ feature => pure (.ligatureFeature feature)
  | .outline command => single .edit (PictureEdit.read command r)
  | _ => Reader.fail (outOfPlace r)

end Command

end FontTrace
