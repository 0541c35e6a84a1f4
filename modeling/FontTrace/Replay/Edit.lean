import FontTrace.Replay.State

/-!
# FontTrace.Replay.Edit

What the macro families do.  Font-wide values and attachment classes go into
the font at once; values for the next glyph go into the scratch.
-/

namespace FontTrace

variable {σ : Type}

/-! ## the font -/

/-- The font-wide values with one of the texts replaced. -/
def FontInfo.withText (i : FontInfo) (value : String) : FontText → FontInfo
  | .name => { i with fontName := value }
  | .familyName => { i with familyName := value }
  | .fullName => { i with fullName := value }
  | .weight => { i with weight := value }
  | .version => { i with version := value }
  | .copyright => { i with copyright := value }
  | .comment => { i with comment := value }
  | .fontlog => { i with fontlog := value }

/-- The font-wide values with one of the lengths replaced. -/
def FontInfo.withMetric (i : FontInfo) (value : Int) : FontMetric → FontInfo
  | .ascent => { i with ascent := value }
  | .descent => { i with descent := value }
  | .capHeight => { i with capHeight := some value }
  | .underlinePosition => { i with underlinePosition := some value }
  | .underlineWidth => { i with underlineWidth := some value }

/-- What is explicit after a length was given. -/
def Explicit.withMetric (x : Explicit) : FontMetric → Explicit
  | .ascent => { x with ascent := true }
  | .descent => { x with descent := true }
  | .capHeight | .underlinePosition | .underlineWidth => x

/-- The state with the font-wide values changed. -/
def State.mapInfo (s : State σ) (f : FontInfo → FontInfo) : State σ :=
  s.withFont { s.font with info := f s.font.info }

/-- The state after a change of the font-wide values. -/
def FontEdit.apply (e : FontEdit) (s : State σ) : State σ :=
  match e with
  | .text field value => s.mapInfo (·.withText value field)
  | .metric field value =>
    { s.mapInfo (·.withMetric value field) with explicit := s.explicit.withMetric field }
  | .request what => s.mapInfo fun i => { i with postProcess := i.postProcess.ask what }
  | .mathConstant name value =>
    { s.mapInfo fun i => { i with mathConstants := Table.put i.mathConstants name value } with
      explicit := { s.explicit with mathConstants := addNew s.explicit.mathConstants name } }
  | .privateEntry key value _ =>
    s.mapInfo fun i => { i with privateDict := Table.put i.privateDict key value }

/-- What there is to report about a change of the font-wide values. -/
def FontEdit.notice : FontEdit → Noted Unit
  | .privateEntry key _ known => noteIf (!known) (.unknownPrivateEntry key)
  | _ => pure ()

/-! ## the next glyph -/

/-- The scratch with one more value. -/
def GlyphEdit.apply (e : GlyphEdit) (g : Scratch) : Scratch :=
  match e with
  | .name text => { g with name := some text }
  | .comment text => { g with comment := some text }
  | .unicode value => { g with unicode := some value }
  | .topAccent position => { g with topAccent := some position }
  | .build => { g with build := true }
  | .request what => { g with postProcess := g.postProcess.ask what }
  | .reference glyph transform => { g with references := g.references ++ [(glyph, transform)] }
  | .hint h => { g with hints := g.hints ++ [h] }
  | .mathKern corner position => { g with mathKerns := g.mathKerns ++ [(corner, position)] }
  | .replacedBy other feature => { g with replacements := g.replacements ++ [.by other feature] }
  | .replacementOf other feature =>
    { g with replacements := g.replacements ++ [.of other feature] }

/-! ## attachment points and ligatures -/

/-- The lookup that anchors of a feature belong to.  Marks are placed on bases
before they are placed on other marks. -/
def MarkFeature.lookup : MarkFeature → LookupSpec
  | .markToBase => ⟨"gpos_mark2base", .gposMarkToBase, some MarkFeature.markToBase.tag, none⟩
  | .markToMark =>
    ⟨"gpos_mark2mark", .gposMarkToMark, some MarkFeature.markToMark.tag, some "gpos_mark2base"⟩

/-- The lookups with one subtable of one lookup changed, under the name that it
has in this run. -/
def Lookups.changeInRun (cfg : Settings) (ls : Lookups) (spec : LookupSpec) (base : String)
    (f : Subtable → Subtable) : Lookups :=
  ls.changeSubtable spec cfg.scripts (subtableName base cfg.subtableIndex) f

/-- The name of the first subtable of a lookup. -/
def LookupSpec.subtableBase (spec : LookupSpec) : String := s!"{spec.name}_subtable"

/-- The state with one more anchor for the next glyph. -/
def State.addAnchor (cfg : Settings) (s : State σ) (feature : MarkFeature) (a : Anchor) : State σ :=
  let spec := feature.lookup
  let lookups :=
    s.font.lookups.changeInRun cfg spec spec.subtableBase fun t => t.addAnchorClass a.anchorClass
  { s with
    font := { s.font with lookups := lookups }
    scratch := { s.scratch with anchors := s.scratch.anchors ++ [a] } }

/-- The tables with one more ligature, which makes the next glyph. -/
def Tables.addLigatureOfNext (t : Tables) (components : List CharRef) : Tables :=
  { t with
    ligatures := t.ligatures ++ [⟨.next, ⟨false, false, 0⟩, components, t.ligatureFeature⟩] }

end FontTrace
