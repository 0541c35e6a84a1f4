import FontTrace.Command.Shipment
import FontTrace.Json
import FontTrace.Notice
import FontTrace.Settings

/-!
# FontTrace.Extents

How tall and how deep a font is, found from its trace before anything is built,
and the resolution at which the compiler has to run for a font of a given size.
-/

namespace FontTrace

/-- The height of the tallest and the depth of the deepest glyph. -/
structure Extents where
  ascent : Int := 0
  descent : Int := 0
deriving DecidableEq, Repr

namespace Extents

/-- Extents as far as a trace was looked at, and which of them are fixed. -/
structure Scan where
  extents : Extents := {}
  ascentFixed : Bool
  descentFixed : Bool
deriving DecidableEq, Repr

/-- The extents after a box; those that are fixed stay. -/
def Scan.box (s : Scan) (b : CharBox) : Scan :=
  { s with extents :=
      ⟨if s.ascentFixed then s.extents.ascent else max s.extents.ascent b.height,
       if s.descentFixed then s.extents.descent else max s.extents.descent b.depth⟩ }

/-- The extents after the font's own ascent. -/
def Scan.ascent (s : Scan) (value : Int) : Scan :=
  ⟨{ s.extents with ascent := value }, true, s.descentFixed⟩

/-- The extents after the font's own descent. -/
def Scan.descent (s : Scan) (value : Int) : Scan :=
  ⟨{ s.extents with descent := value }, s.ascentFixed, true⟩

/-- A length behind the scale it is to be multiplied with. -/
def scaledOperand (r : Record) : Except OperandError Int := do
  let fields ← r.exactFields 2
  let scale ← Operand.number r.firstField
  let value ← Operand.number (fields.getLastD "")
  return roundUnits (value * scale)

/-- The extents after the font's own value in a record. -/
def Scan.fix (s : Scan) (r : Record) (add : Scan → Int → Scan) : Noted Scan :=
  match scaledOperand r with
  | .ok value => pure (add s value)
  | .error _ => do
    note (.extentIgnored r.line r.name)
    return s

/-- The extents after one more record. -/
def Scan.step (cfg : Settings) (s : Scan) (r : Record) : Noted Scan :=
  match r.op with
  | .shipout =>
    if s.ascentFixed && s.descentFixed then pure s
    else
      match CharBox.read r with
      | .ok b => pure (s.box b)
      | .error cause => do
        note (.boxIgnored r.line cause)
        return s
  | .font (.metric .ascent) => if cfg.enables .font then s.fix r Scan.ascent else pure s
  | .font (.metric .descent) => if cfg.enables .font then s.fix r Scan.descent else pure s
  | _ => pure s

/-- The extents of the font that a trace describes.  Values in the settings
count most, then those of the font itself, and then the boxes of the glyphs. -/
def scan (cfg : Settings) (records : List Record) : Noted Extents := do
  let start : Scan := ⟨{}, cfg.ascent.isSome, cfg.descent.isSome⟩
  let s ← records.foldlM (Scan.step cfg) start
  return ⟨cfg.ascent.getD s.extents.ascent, cfg.descent.getD s.extents.descent⟩

/-- The extents as JSON. -/
def toJson (x : Extents) : Json := .obj [("ascent", .int x.ascent), ("descent", .int x.descent)]

end Extents

/-! ## resolution -/

/-- A resolution in pixels per inch, and how many times smaller than asked for
the font comes out at it. -/
structure Resolution where
  ppi : Float
  factor : Nat
deriving DecidableEq, Repr

namespace Resolution

/-- The largest value that the compiler accepts for most quantities. -/
def mostAccepted : Float := 4095.99998

/-- The largest value that the compiler can compute with at all. -/
def mostComputed : Float := 32767.99998

/-- `x` divided by the first number from `k` on for which that does not exceed the limit,
and this number; `q` is what `k` gives.  None if there is none within `fuel` steps. -/
def reducedFrom? (limit x : Float) : Nat → Float → Nat → Option (Float × Nat)
  | 0, _, _ => none
  | fuel + 1, q, k =>
    if q > limit then reducedFrom? limit x fuel (x / Float.ofNat (k + 1)) (k + 1) else some (q, k)

/-- `x` divided by the least number for which that does not exceed the limit, and this number.
Doubles count no further than 2 ^ 53, so a search that gets there does not end. -/
def reduced? (limit x : Float) : Option (Float × Nat) :=
  reducedFrom? limit x (Nat.pow 2 53) x 1

/-- A resolution within the limits of the compiler: brought below the higher
limit first, and then by a factor that is remembered below the lower one. -/
def within? (target : Float) : Option Resolution := do
  let (reduced, _) ← reduced? mostComputed target
  let (ppi, factor) ← reduced? mostAccepted reduced
  return ⟨ppi, factor⟩

/-- The resolution at which the extents add up to the units per em that are
asked for; none if none are asked for, or the extents do not add up to anything. -/
def plan (cfg : Settings) (x : Extents) : Option Resolution :=
  let size := x.ascent + x.descent
  if size ≤ 0 then none
  else cfg.upm.bind fun upm => within? (cfg.ppi * Float.ofNat upm / Float.ofInt size)

/-- The resolution as JSON. -/
def toJson (r : Resolution) : Json :=
  .obj [("ppi", .float r.ppi), ("ppi_factor", .nat r.factor)]

end Resolution

/-- The extents with the resolution that follows from them, as JSON. -/
def Extents.planToJson (cfg : Settings) (x : Extents) : Json :=
  .obj [("extents", x.toJson), ("plan", .option Resolution.toJson (Resolution.plan cfg x))]

end FontTrace
