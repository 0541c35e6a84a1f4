import FontTrace.Replay.Edit

/-!
# FontTrace.Replay.Ligature

From ligatures to lookups.  A ligature that keeps none of its characters is a
ligature rule.  One that keeps a character is a substitution of the other one
in a lookup of its own, which a context rule for the pair of characters calls;
one that keeps both puts the new glyph in front of the second character.
-/

namespace FontTrace

/-- A ligature with the names of its glyphs. -/
structure NamedLigature where
  result : String
  shape : LigatureShape
  components : List String
  feature : String
deriving DecidableEq, Repr

namespace NamedLigature

/-- The first glyph of a ligature that the font does not have. -/
def missing? (l : NamedLigature) (f : Font) : Option String :=
  (l.components ++ [l.result]).find? fun name => !f.hasGlyph name

/-- The lookup of ligatures for a feature. -/
def plainLookup (feature : String) : LookupSpec :=
  ⟨s!"gsub_ligature_{feature}", .gsubLigature, some feature, none⟩

/-- The lookup of context rules. -/
def contextLookup : LookupSpec := ⟨"gsub_contextchain", .gsubContextChain, some "calt", none⟩

/-- A substitution that only a context rule calls. -/
structure ContextSubstitution where
  lookup : LookupSpec
  rule : Rule
  /-- The context rule that calls it. -/
  context : String

/-- The substitution behind a ligature of two characters that keeps at least
one of them. -/
def substitution (shape : LigatureShape) (first second result : String) : ContextSubstitution :=
  match shape.keepsLeft, shape.keepsRight with
  | true, false =>
    let name := s!"gsub_single_after_{first}"
    ⟨⟨name, .gsubSingle, none, none⟩, .single second result, s!"{first} | {second} @<{name}> |"⟩
  | false, true =>
    let name := s!"gsub_single_before_{second}"
    ⟨⟨name, .gsubSingle, none, none⟩, .single first result, s!"| {first} @<{name}> | {second}"⟩
  | _, _ =>
    let name := s!"gsub_multiple_between_{first}_{second}"
    ⟨⟨name, .gsubMultiple, none, none⟩, .multiple second [result, second],
      s!"{first} | {second} @<{name}> |"⟩

/-- The subtable of the context rules for a pair of characters. -/
def contextSubtable (first second : String) : String :=
  s!"gsub_contextchain_subtable_{first}_{second}"

/-- The lookups with a substitution and the context rule that calls it. -/
def addInContext (cfg : Settings) (first second : String) (k : ContextSubstitution)
    (ls : Lookups) : Lookups :=
  (ls.changeInRun cfg k.lookup k.lookup.subtableBase (·.addRule k.rule)).changeSubtable
    contextLookup cfg.scripts (contextSubtable first second) (·.addRule (.contextChain k.context))

/-- The lookups with a ligature all of whose glyphs are there. -/
def addTo (cfg : Settings) (l : NamedLigature) (ls : Lookups) : Noted Lookups :=
  if !l.shape.keepsLeft && !l.shape.keepsRight then
    let spec := plainLookup l.feature
    pure (ls.changeInRun cfg spec spec.subtableBase (·.addRule (.ligature l.components l.result)))
  else
    match l.components with
    | [first, second] =>
      pure (addInContext cfg first second (substitution l.shape first second l.result) ls)
    | _ => do
      note (.ligatureNotOfTwo l.shape.spelling)
      return ls

end NamedLigature

namespace LigatureRule

/-- The name of the glyph that a ligature makes; none if it waits for a glyph
that never came. -/
def resultName (cfg : Settings) (f : Font) : LigatureResult → Noted (Option String)
  | .operand c => some <$> f.resolve cfg.generalizedCode c
  | .glyph name => pure (some name)
  | .next => pure none

/-- The font with a ligature, if all of its glyphs are there. -/
def build (cfg : Settings) (f : Font) (r : LigatureRule) : Noted Font := do
  match ← resultName cfg f r.result with
  | none =>
    note .danglingLigature
    return f
  | some result =>
    let components ← r.components.mapM (f.resolve cfg.generalizedCode)
    let l : NamedLigature := ⟨result, r.shape, components, r.feature⟩
    match l.missing? f with
    | some missing =>
      note (.ligatureOfUnknown r.shape.spelling components missing)
      return f
    | none => return { f with lookups := ← l.addTo cfg f.lookups }

end LigatureRule

/-- The font with all ligatures. -/
def buildLigatures (cfg : Settings) (rules : List LigatureRule) (f : Font) : Noted Font :=
  rules.foldlM (LigatureRule.build cfg) f

end FontTrace
