import FontTrace.Replay.State

/-!
# FontTrace.Replay.Metric

Ligature tables, variants, extensible characters and font parameters.

A ligature table is a program for each of its labels, and all of them run
through the steps at once: `pending` are the characters whose programs have
reached a step.  A step that skips hands them on to the place with its name,
here or in a later table.
-/

namespace FontTrace

variable {σ : Type}

/-! ## ligature tables -/

/-- A ligature table while it runs. -/
structure LigtableRun where
  /-- The characters whose programs are here. -/
  pending : List CharRef := []
  kerns : List (KernPair CharRef) := []
  ligatures : List LigatureRule := []
  /-- The characters whose programs go on where a name appears. -/
  skipped : Table String (List CharRef)

/-- A ligature table after one more step. -/
def LigtableRun.step (feature : String) (r : LigtableRun) : LigtableStep → LigtableRun
  | .label c => { r with pending := r.pending ++ [c] }
  | .resume name =>
    { r with pending := r.pending ++ (Table.find? r.skipped name).getD [] }
  | .kern right amount =>
    { r with kerns := r.kerns ++ r.pending.map fun left => ⟨left, right, amount⟩ }
  | .ligature right shape result =>
    { r with ligatures := r.ligatures ++
        r.pending.map fun left => ⟨.operand result, shape, [left, right], feature⟩ }
  | .skipTo name => { r with skipped := Table.put r.skipped name r.pending, pending := [] }
  | .unsupported _ => r

namespace LigtableProgram

/-- The run of a table through all of its steps. -/
def run (feature : String) (skipped : Table String (List CharRef)) (p : LigtableProgram) :
    LigtableRun :=
  p.steps.foldl (LigtableRun.step feature) { skipped := skipped }

/-- What a table says that has no counterpart in the font. -/
def unsupported (p : LigtableProgram) : List String :=
  p.steps.filterMap fun
    | .unsupported what => some what
    | _ => none

/-- The tables after a ligature table.  A broken one leaves no kerns and no
ligatures; what it skipped up to the fault stays skipped. -/
def apply (p : LigtableProgram) (t : Tables) : Tables :=
  let r := p.run t.ligatureFeature t.skipped
  if p.fault.isSome then { t with skipped := r.skipped }
  else
    { t with
      kerns := t.kerns ++ r.kerns
      ligatures := t.ligatures ++ r.ligatures
      skipped := r.skipped }

/-- The state after a ligature table, and its fault. -/
def perform (p : LigtableProgram) (s : State σ) : Noted (State σ × Option Skip) :=
  ⟨({ s with tables := p.apply s.tables }, p.fault), p.unsupported.map .unsupportedLigtable⟩

end LigtableProgram

/-! ## variants and extensible characters -/

/-- The tables with one more chain of variants. -/
def Tables.addCharlist (t : Tables) (c : Charlist) : Tables :=
  { t with
    charlists := t.charlists ++ [c]
    lastVariants := t.lastVariants ++ (c.variants.getLast?.map fun v => (v, c.base)).toList }

/-- The tables with one more extensible character. -/
def Tables.addExtensible (t : Tables) (e : Extensible) : Tables :=
  { t with extensibles := t.extensibles ++ [e] }

/-! ## font parameters -/

/-- The classic math fonts that font parameters may belong to. -/
inductive MathFont where
  | italic | symbols | extension
deriving DecidableEq, Repr

/-- The math font that the input encoding is that of. -/
def Settings.mathFont? (cfg : Settings) : Option MathFont :=
  cfg.inputEncoding.bind fun name =>
    [("tex-math-italic", MathFont.italic), ("tex-math-symbols", .symbols),
      ("tex-math-extension", .extension)].lookup (Encoding.normalName name)

/-- The glyph for the word space, with a new width. -/
def Font.withSpace (f : Font) (width : Int) : Font :=
  let space : Glyph := (f.glyph? "space").getD { name := "space", code := some 32, unicode := some 32 }
  f.putGlyph { space with width := width }

/-- The angle of upright stems from the slant per unit of height. -/
def italicAngleOf (slant : Float) : Float := if slant == 0 then 0 else -(degrees slant.atan)

/-- The font after one font parameter. -/
def FontParam.applyToFont (cfg : Settings) (p : FontParam) (f : Font) : Font :=
  if p.number = 1 then { f with info := { f.info with italicAngle := italicAngleOf p.value } }
  else if p.number = 2 ∧ cfg.spaceFromFontdimen then f.withSpace p.units
  else if p.number = 5 then { f with info := { f.info with xHeight := some p.units } }
  else f

/-- The state after one font parameter. -/
def FontParam.apply (cfg : Settings) (s : State σ) (p : FontParam) : State σ :=
  let s := s.withFont (p.applyToFont cfg s.font)
  let k := p.number.toNat
  match cfg.mathFont? with
  | some .symbols =>
    if 5 ≤ p.number ∧ p.number ≤ 22 then { s with sigma := Table.put s.sigma k p.units } else s
  | some .extension =>
    if 8 ≤ p.number ∧ p.number ≤ 13 then { s with xi := Table.put s.xi k p.units } else s
  | _ => s

/-- The state with a design size, if it is not zero. -/
def State.withDesignSize (s : State σ) (size : Float) : State σ :=
  if size == 0 then s
  else s.withFont { s.font with info := { s.font.info with designSize := some size } }

end FontTrace
