import FontTrace.CommandLine.Argument
import FontTrace.Number.Decimal
import FontTrace.Number.Integer
import FontTrace.Settings

/-!
# FontTrace.CommandLine.Request

What a command line asks for.

Arguments count from left to right.  A switch may be given once, apart from
those that add up (`-v`, `-x`); a path must not be empty, and a number must be
one.  The first argument that breaks a rule makes the command line unusable,
unless help or the version was asked for before.
-/

namespace FontTrace

/-- What to do, and with what. -/
structure Request where
  log : Option String := none
  prologue : Option String := none
  prologueFile : Option String := none
  settings : Option String := none
  newConfig : Bool := false
  verbose : Nat := 0
  logFile : Bool := false
  tokens : Bool := false
  prerun : Bool := false
  ufo : Option String := none
  cleanLog : Option String := none
  upm : Option Nat := none
  ppi : Option Float := none
  encoding : Option String := none
  kerningClasses : Bool := false
  extensions : List String := []
deriving DecidableEq, Repr

/-- Why a command line leads to no run. -/
inductive NoRun where
  | help
  | version
  | unusable
deriving DecidableEq, Repr

namespace Request

/-- A path, which must not be empty. -/
def path? (text : String) : Option String := if text.isEmpty then none else some text

/-- Units per em, as they may be written on a command line. -/
def unitsPerEm? (text : String) : Option Nat :=
  (int64OfText? 10 text.toList).bind nat32OfInt?

/-- The value of a switch that may be given once. -/
def once {α : Type} (before : Option α) (given : Option α) : Option (Option α) :=
  if before.isSome then none else given.map some

/-- The request with a value for a switch. -/
def withValue (r : Request) (s : Switch) (text : String) : Option Request :=
  match s with
  | .prologue => (once r.prologue (some text)).map fun v => { r with prologue := v }
  | .prologueFile => (once r.prologueFile (path? text)).map fun v => { r with prologueFile := v }
  | .settings => (once r.settings (path? text)).map fun v => { r with settings := v }
  | .ufo => (once r.ufo (path? text)).map fun v => { r with ufo := v }
  | .cleanLog => (once r.cleanLog (path? text)).map fun v => { r with cleanLog := v }
  | .upm => (once r.upm (unitsPerEm? text)).map fun v => { r with upm := v }
  | .ppi => (once r.ppi (Decimal.ofText? text.toList)).map fun v => { r with ppi := v }
  | .encoding => (once r.encoding (some text)).map fun v => { r with encoding := v }
  | .extension => some { r with extensions := r.extensions ++ [text] }
  | _ => none

/-- The request with a switch that has no value, other than help and the version. -/
def withFlag (r : Request) (s : Switch) : Option Request :=
  match s with
  | .newConfig => if r.newConfig then none else some { r with newConfig := true }
  | .verbose => some { r with verbose := r.verbose + 1 }
  | .logFile => if r.logFile then none else some { r with logFile := true }
  | .tokens => if r.tokens then none else some { r with tokens := true }
  | .prerun => if r.prerun then none else some { r with prerun := true }
  | .kerningClasses => if r.kerningClasses then none else some { r with kerningClasses := true }
  | _ => none

/-- A part of a request, without which the command line is unusable. -/
def orUnusable {α : Type} : Option α → Except NoRun α
  | some a => .ok a
  | none => .error .unusable

/-- The request after one more argument. -/
def take (r : Request) : Argument → Except NoRun Request
  | .operand text => orUnusable ((once r.log (path? text)).map fun v => { r with log := v })
  | .value s text => orUnusable (r.withValue s text)
  | .flag .help => .error .help
  | .flag .version => .error .version
  | .flag s => orUnusable (r.withFlag s)
  | .unknown => .error .unusable

/-- Whether nothing is missing: there is a log, or none is needed. -/
def isComplete (r : Request) : Bool := r.log.isSome || r.newConfig

/-- The request in the words of a command line. -/
def ofWords (words : List String) : Except NoRun Request := do
  let r ← (Argument.ofWords words).foldlM take {}
  if r.isComplete then return r else throw .unusable

/-! ## settings -/

/-- The extension names of a command line; `all` stands for every one. -/
def extensionNames : List String := [
  "ascii-hex-code", "attachment-points", "font", "glyph", "ligature", "ligtable-switch",
  "outline", "all"]

/-- The extension switches with one more extension. -/
def enable (x : ExtensionSwitches) (name : String) : ExtensionSwitches :=
  let on (this : String) (before : Bool) : Bool := before || name == this || name == "all"
  { attachmentPoints := on "attachment-points" x.attachmentPoints
    font := on "font" x.font
    glyph := on "glyph" x.glyph
    ligature := on "ligature" x.ligature
    ligtableSwitch := on "ligtable-switch" x.ligtableSwitch
    outline := on "outline" x.outline }

/-- The settings with what the command line says about them. -/
def override (r : Request) (s : Settings) : Settings :=
  { s with
    upm := r.upm <|> s.upm
    ppi := r.ppi.getD s.ppi
    inputEncoding := r.encoding <|> s.inputEncoding
    kerningClasses := s.kerningClasses || r.kerningClasses
    charcodeFromLastAsciiHexArg :=
      s.charcodeFromLastAsciiHexArg ||
        r.extensions.any fun name => name == "ascii-hex-code" || name == "all"
    extensions := r.extensions.foldl enable s.extensions }

end Request

end FontTrace
