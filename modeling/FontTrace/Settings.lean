import FontTrace.Number.Decimal
import FontTrace.Trace.Op

/-!
# FontTrace.Settings

Everything that changes how a trace is turned into a font.  Every field has a
default, so a settings file names only what it changes.
-/

namespace FontTrace

/-- A range of character codes, both ends included; a single code without `last`. -/
structure CodeRange where
  first : Int
  last : Option Int
deriving DecidableEq, Repr

/-- Whether a code lies in the range. -/
def CodeRange.has (r : CodeRange) (code : Int) : Bool :=
  match r.last with
  | some last => r.first ≤ code && code ≤ last
  | none => code == r.first

/-- Whether no code lies in the range. -/
def CodeRange.isEmpty (r : CodeRange) : Bool := r.last.any fun last => last < r.first

/-- Scales and thresholds of the geometry passes. -/
structure GeometrySettings where
  correctDirectionScale : Float := 10
  removeOverlapScale : Float := 1000
  artifactDistanceThreshold : Float := 0.01
  artifactPointThreshold : Float := 0.1
  collinearDistanceThreshold : Float := 0.01
  makeLinesDistanceThreshold : Float := 0.01
deriving DecidableEq, Repr

/-- The macro families that are switched on, apart from hexadecimal codes. -/
structure ExtensionSwitches where
  attachmentPoints : Bool := false
  font : Bool := false
  glyph : Bool := false
  ligature : Bool := false
  ligtableSwitch : Bool := false
  outline : Bool := false
deriving DecidableEq, Repr

/-- A script and the languages in which a feature applies. -/
structure ScriptLanguages where
  script : String
  languages : List String
deriving DecidableEq, Repr

/-- How a trace is turned into a font. -/
structure Settings where
  /-- A fixed ascent; the tallest glyph counts otherwise. -/
  ascent : Option Int := none
  /-- A fixed descent; the deepest glyph counts otherwise. -/
  descent : Option Int := none
  charcodeFromLastAsciiHexArg : Bool := false
  cullAtShipout : Bool := false
  fixContours : Bool := false
  removeArtifacts : Bool := false
  removeCollinear : Bool := false
  /-- Straight joins of paths become lines. -/
  makeLines : Bool := false
  extensions : ExtensionSwitches := {}
  /-- Character operands may be `U+XXXX`, hexadecimal codes and glyph names. -/
  generalizedCode : Bool := false
  glyphNameSuffix : Option String := none
  /-- Every glyph is an alternate for this feature. -/
  otSubFeature : Option String := none
  onlyCodePoints : Option (List CodeRange) := none
  ignoreCodePoints : Option (List CodeRange) := none
  inputEncoding : Option String := none
  kerningClasses : Bool := false
  scripts : List ScriptLanguages :=
    [⟨"cyrl", ["dflt"]⟩, ⟨"grek", ["dflt"]⟩, ⟨"latn", ["dflt"]⟩]
  setItalicCorrection : Bool := true
  setMathDefaults : Bool := true
  setTopAccent : Bool := false
  /-- The skew character; a negative number picks it by the encoding. -/
  skewchar : Int := -1
  spaceFromFontdimen : Bool := true
  strokeAccuracy : Option Float := none
  strokeSimplify : Bool := true
  /-- Appended to subtable names in runs that add to an existing font. -/
  subtableIndex : Option Nat := none
  ppi : Float := 1000
  usePpiFactor : Bool := false
  upm : Option Nat := none
  fontName : Option String := none
  familyName : Option String := none
  fullName : Option String := none
  version : String := "001.000"
  copyright : String := ""
  comment : String := ""
  fontlog : String := ""
  italicAngle : Float := 0
  designSize : Option Float := none
  underlinePosition : Option Float := none
  underlineWidth : Option Float := none
  geometry : GeometrySettings := {}
deriving DecidableEq, Repr

/-- Why settings cannot work. -/
inductive SettingsError where
  | ppiNotPositive (ppi : Float)
  | upmNotPositive
  | emptyCodeRange (first last : Int)
deriving DecidableEq, Repr

/-- The error in words. -/
def SettingsError.message : SettingsError → String
  | .ppiNotPositive ppi => s!"ppi must be positive, got {Decimal.text ppi}"
  | .upmNotPositive => "upm must be positive"
  | .emptyCodeRange first last => s!"code range {first}..{last} is empty"

namespace Settings

/-- Whether a macro family is switched on. -/
def enables (s : Settings) : Extension → Bool
  | .asciiHexCode => s.charcodeFromLastAsciiHexArg
  | .attachmentPoints => s.extensions.attachmentPoints
  | .font => s.extensions.font
  | .glyph => s.extensions.glyph
  | .ligature => s.extensions.ligature
  | .ligtableSwitch => s.extensions.ligtableSwitch
  | .outline => s.extensions.outline

/-- Whether glyphs with this code are left out. -/
def skipsCode (s : Settings) (code : Int) : Bool :=
  s.onlyCodePoints.any (fun only => !only.any (·.has code)) ||
    s.ignoreCodePoints.any fun ignored => ignored.any (·.has code)

/-- The threshold for straight joins, if they are to become lines. -/
def makeLinesThreshold (s : Settings) : Option Float :=
  if s.makeLines then some s.geometry.makeLinesDistanceThreshold else none

/-- The code ranges of both lists. -/
def codeRanges (s : Settings) : List CodeRange :=
  s.onlyCodePoints.getD [] ++ s.ignoreCodePoints.getD []

/-- The settings, unless they cannot work. -/
def validate (s : Settings) : Except SettingsError Unit :=
  if s.ppi ≤ 0 then .error (.ppiNotPositive s.ppi)
  else if s.upm = some 0 then .error .upmNotPositive
  else
    match s.codeRanges.find? (·.isEmpty) with
    | some r => .error (.emptyCodeRange r.first (r.last.getD r.first))
    | none => .ok ()

end Settings

end FontTrace
