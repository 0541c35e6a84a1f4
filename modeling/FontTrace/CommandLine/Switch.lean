/-!
# FontTrace.CommandLine.Switch

The switches of the program, by their long names and their letters.
-/

namespace FontTrace

/-- A switch of the program. -/
inductive Switch where
  | prologue | prologueFile | settings | newConfig | verbose | logFile | tokens | prerun | ufo
  | cleanLog | upm | ppi | encoding | kerningClasses | extension | help | version
deriving DecidableEq, Repr

namespace Switch

/-- All switches, in the order of the usage text. -/
def all : List Switch := [
  .prologue, .prologueFile, .settings, .newConfig, .verbose, .logFile, .tokens, .prerun, .ufo,
  .cleanLog, .upm, .ppi, .encoding, .kerningClasses, .extension, .help, .version]

/-- The name that is written after two hyphens. -/
def name : Switch → String
  | prologue => "prologue"
  | prologueFile => "prologue-file"
  | settings => "settings"
  | newConfig => "new-config"
  | verbose => "verbose"
  | logFile => "log-file"
  | tokens => "tokens"
  | prerun => "prerun"
  | ufo => "ufo"
  | cleanLog => "clean-log"
  | upm => "upm"
  | ppi => "ppi"
  | encoding => "encoding"
  | kerningClasses => "kerning-classes"
  | extension => "extension"
  | help => "help"
  | version => "version"

/-- The letter that is written after one hyphen. -/
def letter? : Switch → Option Char
  | settings => some 's'
  | verbose => some 'v'
  | extension => some 'x'
  | help => some 'h'
  | version => some 'V'
  | _ => none

/-- What the usage text calls the value of a switch that has one. -/
def value? : Switch → Option String
  | prologue => some "TEXT"
  | prologueFile | settings | cleanLog => some "FILE"
  | ufo => some "DIR"
  | upm => some "UPM"
  | ppi => some "PPI"
  | encoding => some "ENCODING"
  | extension => some "NAME"
  | _ => none

/-- Whether a switch has a value. -/
def takesValue (s : Switch) : Bool := s.value?.isSome

/-- What a switch is for. -/
def purpose : Switch → String
  | prologue => "Prologue text sent to the compiler"
  | prologueFile => "File holding the prologue sent to the compiler"
  | settings => "Settings JSON for this run"
  | newConfig => "Initialize user config directory with default settings"
  | verbose => "More output; repeat for per-record tracing"
  | logFile => "Also write diagnostics to the log file"
  | tokens => "Print the trace records as JSON and stop"
  | prerun => "Print the extents and the resolution for the real run, then stop"
  | ufo => "Write the font as a UFO"
  | cleanLog => "Write the log without prologue and trace markers"
  | upm => "Target units per em"
  | ppi => "Pixels per inch the compiler ran with"
  | encoding => "Name of the input encoding, e.g. \"TeX math symbols\""
  | kerningClasses => "Group kerning pairs into classes"
  | extension => "Enable a trace extension (repeatable)"
  | help => "Print help"
  | version => "Print version"

/-- The switch of a name. -/
def ofName? (name : String) : Option Switch := all.find? (·.name == name)

/-- The switch of a letter. -/
def ofLetter? (c : Char) : Option Switch := all.find? (·.letter? == some c)

theorem mem_all (s : Switch) : s ∈ all := by cases s <;> decide

theorem ofName?_name (s : Switch) : ofName? s.name = some s := by cases s <;> decide

/-- A line of the usage text. -/
def usage (s : Switch) : String :=
  let short := match s.letter? with
    | some c => "-" ++ String.singleton c ++ ", "
    | none => "    "
  let value := match s.value? with
    | some v => " <" ++ v ++ ">"
    | none => ""
  let head := "  " ++ short ++ "--" ++ s.name ++ value
  head ++ String.ofList (List.replicate (34 - head.length) ' ') ++ s.purpose

end Switch

end FontTrace
