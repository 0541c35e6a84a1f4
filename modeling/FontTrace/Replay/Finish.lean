import FontTrace.Replay.Kerning
import FontTrace.Replay.Ligature
import FontTrace.Replay.Ship
import FontTrace.Replay.Variants

/-!
# FontTrace.Replay.Finish

What is done when all glyphs are there: operands of the tables become glyph
names, and the tables become lookups and variants.

Extensible characters come before charlists, since they may take the last
variant of one; everything else is in the order of `finish` because that is the
order of the lookups in the font.
-/

namespace FontTrace

variable {σ : Type}

/-- The glyphs with what was asked for the whole font done to them. -/
def postProcessFont (e : Engine σ) (f : Font) : StateM σ Font := do
  let p := f.info.postProcess
  let glyphs ←
    if p.addExtrema then
      f.glyphs.mapM fun g => do return { g with outline := ← g.outline.mapM e.addExtrema }
    else pure f.glyphs
  let glyphs :=
    if p.round then glyphs.map fun g => { g with outline := Outline.rounded g.outline }
    else glyphs
  return { f with glyphs := glyphs }

/-- The font with one reference. -/
def attachReference (f : Font) (r : PendingReference) : Noted Font :=
  f.changeOrNote r.glyph (.referenceFromUnknown r.target)
    fun g => { g with references := g.references ++ [⟨r.target, r.transform⟩] }

/-- The lookup of the alternates for a feature. -/
def alternateLookup (feature : String) : LookupSpec :=
  ⟨s!"gsub_single_{feature}", .gsubSingle, some feature, none⟩

/-- The font with one alternate, if the glyph that it replaces is there. -/
def addReplacement (cfg : Settings) (f : Font) (r : Replacement) : Noted Font := do
  if f.hasGlyph r.glyph then
    let spec := alternateLookup r.feature
    let rule := Rule.single r.glyph r.replacement
    let lookups := f.lookups.changeInRun cfg spec spec.subtableBase (·.addRule rule)
    return { f with lookups := lookups }
  else
    note (.replacementOfUnknown r.glyph r.feature)
    return f

/-- What the defaults of the math constants are computed from. -/
def mathInputs (s : State σ) (i : FontInfo) : MathInputs where
  sigma := s.sigma
  xi := s.xi
  em := match i.unitsPerEm with
    | some upm => Float.ofNat upm
    | none => Float.ofInt (i.ascent + i.descent)
  capHeight := Float.ofInt ((i.capHeight.filter (· ≠ 0)).getD i.ascent)

/-- The font-wide values with defaults for the math constants that were not
given explicitly. -/
def withMathDefaults (s : State σ) (i : FontInfo) : FontInfo :=
  let put (t : Table String Int) (c : String × Int) : Table String Int :=
    if s.explicit.mathConstants.contains c.1 then t else Table.put t c.1 c.2
  { i with mathConstants := (mathInputs s i).defaults.foldl put i.mathConstants }

/-- The font with all that comes from the tables of the trace. -/
def buildTables (cfg : Settings) (s : State σ) : Noted Font := do
  let t := s.tables
  let f ← buildLigatures cfg t.ligatures s.font
  let f ← placeAccents cfg s.explicit.topAccents t.kerns f
  let f ← buildKerning cfg t.kerns f
  buildVariants cfg t f

/-- The finished font, and the engine's state. -/
def finish (e : Engine σ) (cfg : Settings) (s : State σ) : Noted (Font × σ) := do
  let f ← buildTables cfg s
  let (f, engine) := (postProcessFont e f).run s.engine
  let f ← s.tables.references.foldlM attachReference f
  let f ← s.tables.replacements.foldlM (addReplacement cfg) f
  let f := if cfg.setMathDefaults then { f with info := withMathDefaults s f.info } else f
  return (f, engine)

end FontTrace
