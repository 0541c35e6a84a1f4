import FontTrace.Geometry.Pruning
import FontTrace.Replay.Edit
import FontTrace.Replay.Stroke

/-!
# FontTrace.Replay.Ship

From a shipped picture to a glyph.  What was collected since the last shipment
is attached to the glyph and used up, whether or not a glyph comes of it.
-/

namespace FontTrace

variable {σ : Type}

/-! ## the picture -/

/-- The picture cleaned up as the settings ask for. -/
def tidied (e : Engine σ) (cfg : Settings) (o : Outline) : StateT σ Noted Outline := do
  let g := cfg.geometry
  let o := if cfg.fixContours then closeMeeting o else o
  let o :=
    if cfg.removeArtifacts then
      removeArtifacts (isCollinear g.artifactDistanceThreshold) g.artifactPointThreshold o
    else o
  let o :=
    if cfg.removeCollinear then removeCollinear (isCollinear g.collinearDistanceThreshold) o else o
  if cfg.cullAtShipout then removeOverlapScaled e g.removeOverlapScale false o else return o

/-! ## the name -/

/-- What a glyph is found by. -/
structure GlyphIdentity where
  name : String
  code : Option Int
  unicode : Option Nat
deriving DecidableEq, Repr

/-- The code and the Unicode value of a shipped character.  With a hexadecimal
code, the shipped code counts relative to the first character of the string;
negative codes stand for no code. -/
def shippedCode (code : Int) (hex : Option HexCode) (unicode : Option Nat) : Int × Option Nat :=
  match hex with
  | none => (code, unicode)
  | some h =>
    let value := h.value + (code - h.firstChar)
    if h.isUnicode then (-1, unicode <|> nat32OfInt? value) else (value, unicode)

/-- The identity of a glyph; none if it has neither a code nor a Unicode value
nor a name, or a negative code other than the one that stands for none. -/
def identify (f : Font) (code : Int) (unicode : Option Nat) (name : Option String) :
    Option GlyphIdentity :=
  if 0 ≤ code then
    some ⟨name.getD (f.nameAt code), some code, unicode <|> (f.encoding.slot code).unicode⟩
  else if code = -1 then
    match unicode, name with
    | some u, name => some ⟨name.getD (GlyphName.ofUnicode u), none, some u⟩
    | none, some name => some ⟨name, none, none⟩
    | none, none => none
  else none

/-- The name of the glyph that an alternate would be if it were none. -/
def baseName? (f : Font) (code : Int) (unicode : Option Nat) (name : Option String) :
    Option String :=
  if 0 ≤ code then some (f.nameAt code) else (unicode.map GlyphName.ofUnicode) <|> name

/-- What is appended to the name of a glyph for its alternate. -/
def alternateSuffix (cfg : Settings) (feature : String) : String :=
  cfg.glyphNameSuffix.getD s!".{feature}"

/-- The identity of a shipped glyph, and what it replaces if all glyphs are
alternates for a feature. -/
def identifyShipped (cfg : Settings) (f : Font) (code : Int) (unicode : Option Nat)
    (name : Option String) : Option (GlyphIdentity × Option Replacement) :=
  match cfg.otSubFeature with
  | none => (identify f code unicode name).map fun id => (id, none)
  | some feature => (baseName? f code unicode name).map fun base =>
      let alternate := base ++ alternateSuffix cfg feature
      (⟨alternate, none, none⟩, some ⟨base, feature, alternate⟩)

/-! ## values from the scratch -/

/-- The stem hints with one more. -/
def Hints.add (hs : Hints) : Hint → Hints
  | .horizontal position width => { hs with horizontal := hs.horizontal ++ [(position, width)] }
  | .vertical position width => { hs with vertical := hs.vertical ++ [(position, width)] }
  | .diagonal d => { hs with diagonal := hs.diagonal ++ [d] }

/-- The hints of a glyph, without the broken ones. -/
def hintsFor (glyph : String) (hints : List (Except OperandError Hint)) : Noted Hints :=
  hints.foldlM
    (fun hs h => do
      match h with
      | .ok h => return hs.add h
      | .error cause =>
        note (.hintIgnored glyph cause)
        return hs)
    {}

/-- The height and the kern of a math kern; on the right of a glyph it is
relative to the advance width. -/
def mathKernAt (corner : Corner) (advance : Int) (p : Point) : Int × Int :=
  let x := if corner.isRight then p.x - Float.ofInt advance else p.x
  (roundUnits x, roundUnits p.y)

/-- The math kerns of a glyph, without the broken ones. -/
def mathKernsFor (glyph : String) (advance : Int)
    (kerns : List (Corner × Except OperandError Point)) : Noted MathKerning :=
  kerns.foldlM
    (fun ks (corner, position) => do
      match position with
      | .ok p => return ks.add (mathKernAt corner advance p) corner
      | .error cause =>
        note (.mathKernIgnored glyph cause)
        return ks)
    {}

/-- The references of a glyph, without the broken ones.  The names are looked
up in the font as it is now. -/
def referencesFor (cfg : Settings) (f : Font) (glyph : String)
    (references : List (String × Except OperandError (Transform Float))) :
    Noted (List PendingReference) :=
  references.foldlM
    (fun rs (operand, transform) => do
      let target ← f.resolve cfg.generalizedCode (.text operand)
      match transform with
      | .ok m => return rs ++ [⟨glyph, target, m⟩]
      | .error cause =>
        note (.referenceIgnored glyph target cause)
        return rs)
    []

/-- A replacement in which the shipped glyph has its name. -/
def PendingReplacement.resolved (glyph : String) : PendingReplacement → Replacement
  | .by other feature => ⟨glyph, feature, other⟩
  | .of other feature => ⟨other, feature, glyph⟩

/-- The outline of a glyph with what was asked for done to it. -/
def postProcessed (e : Engine σ) (p : PostProcess) (o : Outline) : StateM σ Outline := do
  let o ← if p.addExtrema then o.mapM e.addExtrema else pure o
  return if p.round then Outline.rounded o else o

/-! ## the glyph -/

/-- The horizontal advance with the italic correction, if it counts. -/
def correctionFor (cfg : Settings) (box : CharBox) : Int :=
  if cfg.setItalicCorrection then box.italicCorrection else 0

/-- The outline at the place where the compiler put it. -/
def placed (box : CharBox) (o : Outline) : Outline :=
  if box.xOffset ≠ 0 ∨ box.yOffset ≠ 0 then
    o.transform (Affine.translation (Float.ofInt box.xOffset) (Float.ofInt box.yOffset))
  else o

/-- The position of the top accent: the one that was given, or else the middle
of the glyph if there is to be one. -/
def topAccentFor (cfg : Settings) (given : Option Int) (advance : Int) : Option Int :=
  match given with
  | some t => some t
  | none => if cfg.setTopAccent then some (roundUnits (Float.ofInt advance / 2)) else none

/-- The glyph without its hints and math kerns. -/
def glyphFor (cfg : Settings) (id : GlyphIdentity) (box : CharBox) (g : Scratch) (o : Outline) :
    Glyph where
  name := id.name
  code := id.code
  unicode := id.unicode
  outline := o
  width := box.width
  height := box.height
  depth := box.depth
  italicCorrection := correctionFor cfg box
  topAccent := topAccentFor cfg g.topAccent (box.width + correctionFor cfg box)
  anchors := g.anchors
  ligatureCarets := g.carets
  comment := g.comment
  build := g.build
  postProcess := g.postProcess

/-- The font-wide extents after a glyph, as far as they are not fixed. -/
def FontInfo.extendedBy (cfg : Settings) (x : Explicit) (g : Glyph) (i : FontInfo) : FontInfo :=
  { i with
    ascent := if cfg.ascent.isNone && !x.ascent then max i.ascent g.height else i.ascent
    descent := if cfg.descent.isNone && !x.descent then max i.descent g.depth else i.descent }

/-- A ligature that waited for the next glyph, with the name of that glyph. -/
def LigatureRule.settled (glyph : String) (r : LigatureRule) : LigatureRule :=
  if r.result = .next then { r with result := .glyph glyph } else r

/-- The tables after a glyph. -/
def Tables.afterGlyph (t : Tables) (glyph : String) (alternate : Option Replacement)
    (references : List PendingReference) (g : Scratch) : Tables :=
  { t with
    ligatures := t.ligatures.map (·.settled glyph)
    references := t.references ++ references
    replacements :=
      t.replacements ++ alternate.toList ++ g.replacements.map (·.resolved glyph) }

/-- What is explicit after a glyph. -/
def Explicit.afterGlyph (x : Explicit) (glyph : String) (g : Scratch) : Explicit :=
  if g.topAccent.isSome then { x with topAccents := addNew x.topAccents glyph } else x

/-- The state with one more glyph, made of an outline and the values in `g`. -/
def commit (e : Engine σ) (cfg : Settings) (id : GlyphIdentity) (alternate : Option Replacement)
    (box : CharBox) (g : Scratch) (o : Outline) (s : State σ) : Noted (State σ) := do
  let advance := box.width + correctionFor cfg box
  let references ← referencesFor cfg s.font id.name g.references
  let (o, engine) := (postProcessed e g.postProcess (placed box o)).run s.engine
  let hints ← hintsFor id.name g.hints
  let mathKerning ← mathKernsFor id.name advance g.mathKerns
  let glyph := { glyphFor cfg id box g o with hints := hints, mathKerning := mathKerning }
  let font := { s.font with info := s.font.info.extendedBy cfg s.explicit glyph }
  return { s with
    engine := engine
    tables := s.tables.afterGlyph id.name alternate references g
    explicit := s.explicit.afterGlyph id.name g
    font := font.putGlyph glyph }

/-! ## shipments -/

/-- The state after a picture was shipped, its name and its values apart. -/
def shipPicture (e : Engine σ) (cfg : Settings) (sh : Shipment) (g : Scratch)
    (hex : Option HexCode) (s : State σ) : Noted (State σ × Option Skip) :=
  match Pictures.get s.pictures sh.picture with
  | .error k => pure (s, some k)
  | .ok p => do
    let (o, engine) ← tidied e cfg p.outline s.engine
    let s := { s with
      pictures := Table.put s.pictures sh.picture { p with outline := o }
      engine := engine }
    let (code, unicode) := shippedCode sh.box.code hex g.unicode
    match identifyShipped cfg s.font code unicode g.name with
    | none => return (s, some .anonymousGlyph)
    | some (id, alternate) =>
      if 0 ≤ code && cfg.skipsCode code then return (s, none)
      else return (← commit e cfg id alternate sh.box g o s, none)

/-- The state without what was collected for the next glyph. -/
def State.cleared (s : State σ) : State σ := { s with scratch := {}, hexCode := none }

/-- The state after a shipment, whole or broken. -/
def ship (e : Engine σ) (cfg : Settings) (shipment : Except Skip Shipment) (s : State σ) :
    Noted (State σ × Option Skip) :=
  match shipment with
  | .error k => pure (s.cleared, some k)
  | .ok sh => shipPicture e cfg sh s.scratch s.hexCode s.cleared

end FontTrace
