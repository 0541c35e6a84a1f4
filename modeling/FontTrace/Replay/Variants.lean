import FontTrace.Replay.State

/-!
# FontTrace.Replay.Variants

From charlists and recipes to the vertical variants of glyphs.  The last
variant of a charlist may be an extensible character; then its recipe belongs
to the base of the list, and the list ends one variant earlier.
-/

namespace FontTrace

/-! ## extensible characters -/

/-- The first element that passes a test which may report, as a place and itself. -/
def firstThat {α : Type} (test : α → Noted Bool) : List α → Noted (Option (Nat × α))
  | [] => pure none
  | a :: as => do
    if ← test a then return some (0, a)
    else return (← firstThat test as).map fun (i, b) => (i + 1, b)

/-- A charlist without its last variant, if that is the given glyph. -/
def Charlist.withoutLast (cfg : Settings) (f : Font) (label : String) (c : Charlist) :
    Noted Charlist := do
  match c.variants.getLast? with
  | none => return c
  | some last =>
    if (← f.resolve cfg.generalizedCode last) = label then
      return { c with variants := c.variants.dropLast }
    else return c

/-- The charlists, where the first one with the given base is without the last
variant if that is the given glyph. -/
def detachVariant (cfg : Settings) (f : Font) (base label : String) (cs : List Charlist) :
    Noted (List Charlist) := do
  match ← firstThat (fun c => return (← f.resolve cfg.generalizedCode c.base) == base) cs with
  | none => return cs
  | some (i, c) => return cs.set i (← c.withoutLast cfg f label)

/-- A piece of an extensible character as a part of a glyph assembly; it
extends by the depth of its glyph. -/
def ExtensiblePiece.component (cfg : Settings) (f : Font) (p : ExtensiblePiece) :
    Noted VerticalComponent := do
  let glyph ← f.resolve cfg.generalizedCode p.glyph
  noteIf (!f.hasGlyph glyph) (.extensiblePieceUnknown glyph)
  let depth := ((f.glyph? glyph).map (·.depth)).getD 0
  let connector := if p.extender then depth else 0
  return ⟨glyph, p.extender, connector, connector, depth⟩

/-- The font with a glyph changed; a report if it is not there. -/
def Font.changeOrNote (f : Font) (name : String) (absent : String → Notice)
    (change : Glyph → Glyph) : Noted Font := do
  noteIf (!f.hasGlyph name) (absent name)
  return f.changeGlyph name change

/-- The charlists and the font after one recipe; `bases` are the names of the
last variants with those of their bases. -/
def Extensible.build (cfg : Settings) (bases : List (String × String))
    (state : List Charlist × Font) (e : Extensible) : Noted (List Charlist × Font) := do
  let (cs, f) := state
  let label ← f.resolve cfg.generalizedCode e.label
  let base := bases.lookup label
  let cs ← match base with
    | some base => detachVariant cfg f base label cs
    | none => pure cs
  let components ← e.pieces.mapM (·.component cfg f)
  let f ← f.changeOrNote (base.getD label) .extensibleOfUnknown
    fun g => { g with verticalComponents := components }
  return (cs, f)

/-- The names of the last variants with those of their bases. -/
def variantBases (cfg : Settings) (f : Font) (lasts : List (CharRef × CharRef)) :
    Noted (List (String × String)) :=
  lasts.mapM fun (variant, base) => do
    let variant ← f.resolve cfg.generalizedCode variant
    return (variant, ← f.resolve cfg.generalizedCode base)

/-- The charlists that remain, and the font with all extensible characters. -/
def buildExtensibles (cfg : Settings) (t : Tables) (f : Font) : Noted (List Charlist × Font) := do
  let bases ← variantBases cfg f t.lastVariants
  t.extensibles.foldlM (Extensible.build cfg bases) (t.charlists, f)

/-! ## variants -/

/-- The font with one chain of variants. -/
def Charlist.build (cfg : Settings) (f : Font) (c : Charlist) : Noted Font := do
  let base ← f.resolve cfg.generalizedCode c.base
  let variants ← c.variants.mapM (f.resolve cfg.generalizedCode)
  f.changeOrNote base .charlistOfUnknown fun g => { g with verticalVariants := variants }

/-- The font with all extensible characters and all chains of variants. -/
def buildVariants (cfg : Settings) (t : Tables) (f : Font) : Noted Font := do
  let (charlists, f) ← buildExtensibles cfg t f
  charlists.foldlM (Charlist.build cfg) f

end FontTrace
