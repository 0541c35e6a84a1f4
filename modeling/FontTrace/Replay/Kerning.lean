import FontTrace.Replay.Edit
import FontTrace.Replay.Metric

/-!
# FontTrace.Replay.Kerning

From kerning pairs to lookups.  Kerns against the skew character are no kerns:
they say where accents go, and are taken out first.
-/

namespace FontTrace

/-! ## the skew character -/

/-- The code of the skew character, if there is one. -/
def Settings.skewCode? (cfg : Settings) : Option Int :=
  if 0 ≤ cfg.skewchar then some cfg.skewchar
  else
    match cfg.mathFont? with
    | some .italic => some 127
    | some .symbols => some 48
    | _ => none

/-- The code of the skew character, if its kerns are to become accents. -/
def Settings.accentCode? (cfg : Settings) : Option Int :=
  if cfg.setTopAccent then cfg.skewCode? else none

/-- Whether a pair is a kern against the skew character. -/
def isSkew (code : Option Int) (p : KernPair CharRef) : Bool :=
  code.isSome && p.right.code? == code

/-- The glyph with its accent moved from the middle by a kern. -/
def Glyph.withSkew (g : Glyph) (kern : Int) : Glyph :=
  let middle := Float.ofInt (g.width + g.italicCorrection) / 2
  { g with topAccent := some (roundUnits (middle + Float.ofInt kern)) }

/-- The font with the accent of one glyph placed, unless it was given explicitly. -/
def placeAccent (cfg : Settings) (explicit : List String) (f : Font) (p : KernPair CharRef) :
    Noted Font := do
  let name ← f.resolve cfg.generalizedCode p.left
  if explicit.contains name then return f
  else if f.hasGlyph name then return f.changeGlyph name (·.withSkew p.kern)
  else
    note (.skewKernOfUnknown name)
    return f

/-- The font with accents placed by the kerns against the skew character. -/
def placeAccents (cfg : Settings) (explicit : List String) (kerns : List (KernPair CharRef))
    (f : Font) : Noted Font :=
  (kerns.filter (isSkew cfg.accentCode?)).foldlM (placeAccent cfg explicit) f

/-! ## kerns -/

/-- A pair with the names of its glyphs. -/
def namedPair (cfg : Settings) (f : Font) (p : KernPair CharRef) : Noted (KernPair String) := do
  let left ← f.resolve cfg.generalizedCode p.left
  let right ← f.resolve cfg.generalizedCode p.right
  return ⟨left, right, p.kern⟩

/-- The lookup of kerning. -/
def kernLookup : LookupSpec := ⟨"gpos_pair", .gposPair, some "kern", none⟩

/-- The font with one more rule for kerning. -/
def Font.addKernRule (cfg : Settings) (f : Font) (r : Rule) : Font :=
  { f with lookups :=
      f.lookups.changeInRun cfg kernLookup kernLookup.subtableBase (·.addRule r) }

/-- The font with a pair, if both glyphs are there. -/
def addPair (cfg : Settings) (f : Font) (p : KernPair String) : Noted Font := do
  if f.hasGlyph p.left && f.hasGlyph p.right then
    return f.addKernRule cfg (.pair p.left p.right p.kern)
  else
    note (.kernOfUnknown p.left p.right)
    return f

/-- The font with all kerns, pair by pair or as a table of classes. -/
def buildKerning (cfg : Settings) (kerns : List (KernPair CharRef)) (f : Font) : Noted Font := do
  let kerns := kerns.filter fun p => !isSkew cfg.accentCode? p
  if kerns.isEmpty then return f
  else
    let pairs ← kerns.mapM (namedPair cfg f)
    if cfg.kerningClasses then
      return f.addKernRule cfg (.kerningClasses (KernClasses.ofPairs pairs).compact)
    else pairs.foldlM (addPair cfg) f

end FontTrace
