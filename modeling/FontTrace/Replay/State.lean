import FontTrace.Command
import FontTrace.Font.MathConstant
import FontTrace.Notice
import FontTrace.Picture

/-!
# FontTrace.Replay.State

Everything a replay knows between two constructs.  Values for the next glyph
wait in the scratch; tables wait for the end, when all glyphs are there.
-/

namespace FontTrace

/-- What the next glyph has to do with another glyph. -/
inductive PendingReplacement where
  /-- The next glyph is replaced by another one. -/
  | by (other feature : String)
  /-- The next glyph replaces another one. -/
  | of (other feature : String)
deriving DecidableEq, Repr

/-- Values for the next glyph. -/
structure Scratch where
  name : Option String := none
  unicode : Option Nat := none
  comment : Option String := none
  topAccent : Option Int := none
  build : Bool := false
  /-- Glyphs to refer to, with their transformations as far as they can be read. -/
  references : List (String × Except OperandError (Transform Float)) := []
  postProcess : PostProcess := {}
  hints : List (Except OperandError Hint) := []
  mathKerns : List (Corner × Except OperandError Point) := []
  replacements : List PendingReplacement := []
  anchors : List Anchor := []
  carets : List Int := []

/-- The glyph that a ligature makes. -/
inductive LigatureResult where
  | operand (c : CharRef)
  | glyph (name : String)
  /-- The glyph that is shipped next. -/
  | next
deriving DecidableEq, Repr

/-- A ligature: the characters that make it, and the operator. -/
structure LigatureRule where
  result : LigatureResult
  shape : LigatureShape
  components : List CharRef
  feature : String
deriving DecidableEq, Repr

/-- An alternate of a glyph, for a feature. -/
structure Replacement where
  glyph : String
  feature : String
  replacement : String
deriving DecidableEq, Repr

/-- A glyph that another one refers to. -/
structure PendingReference where
  glyph : String
  target : String
  transform : Transform Float
deriving DecidableEq, Repr

/-- Tables that are built when all glyphs are there. -/
structure Tables where
  kerns : List (KernPair CharRef) := []
  ligatures : List LigatureRule := []
  charlists : List Charlist := []
  extensibles : List Extensible := []
  /-- The characters whose programs go on where a name appears. -/
  skipped : Table String (List CharRef) := []
  /-- The last variants of the charlists, each with the base of its list. -/
  lastVariants : List (CharRef × CharRef) := []
  replacements : List Replacement := []
  references : List PendingReference := []
  /-- The feature that new ligatures belong to. -/
  ligatureFeature : String := "liga"

/-- What was given explicitly, so that no computed value may take its place. -/
structure Explicit where
  ascent : Bool := false
  descent : Bool := false
  topAccents : List String := []
  mathConstants : List String := []
deriving DecidableEq, Repr

/-- The state of a replay with an engine whose states are in `σ`. -/
structure State (σ : Type) where
  engine : σ
  pictures : Pictures := Pictures.initial
  font : Font
  scratch : Scratch := {}
  hexCode : Option HexCode := none
  tables : Tables := {}
  explicit : Explicit := {}
  /-- Parameters of the math symbol font. -/
  sigma : FontParams := []
  /-- Parameters of the math extension font. -/
  xi : FontParams := []
  /-- Everything that was left out, in order. -/
  skipped : List Skip := []

/-- The font that a replay starts with. -/
def Font.initial (cfg : Settings) (encoding : Encoding) : Font where
  encoding := encoding
  info :=
    let blank : FontInfo := {}
    { blank with
      fontName := cfg.fontName.getD blank.fontName
      familyName := cfg.familyName.getD blank.familyName
      fullName := cfg.fullName.getD blank.fullName
      version := cfg.version
      copyright := cfg.copyright
      comment := cfg.comment
      fontlog := cfg.fontlog
      italicAngle := cfg.italicAngle
      designSize := cfg.designSize
      underlinePosition := cfg.underlinePosition.map roundUnits
      underlineWidth := cfg.underlineWidth.map roundUnits
      unitsPerEm := cfg.upm
      ascent := cfg.ascent.getD 0
      descent := cfg.descent.getD 0 }

/-- The state that a replay starts with. -/
def State.initial {σ : Type} (engine : σ) (cfg : Settings) (encoding : Encoding) : State σ where
  engine := engine
  font := Font.initial cfg encoding

/-- A change of the state that may be left out; if it is, nothing has changed. -/
abbrev Update (σ : Type) := State σ → Noted (Except Skip (State σ))

/-- The state with its pictures replaced. -/
def State.withPictures {σ : Type} (s : State σ) (ps : Pictures) : State σ := { s with pictures := ps }

/-- The state with its font replaced. -/
def State.withFont {σ : Type} (s : State σ) (f : Font) : State σ := { s with font := f }

end FontTrace
