import FontTrace.CommandLine.Failure
import FontTrace.Engine.Basic
import FontTrace.Extents
import FontTrace.Font.Json
import FontTrace.Replay
import FontTrace.Settings.Json
import FontTrace.Trace.Json
import FontTrace.Ufo.Files

/-!
# FontTrace.CommandLine.Run

What a request does, over any file system.

A run first checks that the request can be met, before it touches anything, and
then goes from the log to its result.  What is printed before a failure stays
printed, and a notice does not stop a run.
-/

namespace FontTrace

/-- What a run has printed and noticed. -/
structure Transcript where
  printed : String := ""
  notices : List Notice := []
deriving DecidableEq, Repr

/-- A run: it may fail, it prints, and it uses the file system of `m`. -/
abbrev Run (m : Type → Type) := ExceptT Failure (StateT Transcript m)

namespace Run

variable {m : Type → Type} [Monad m]

/-! ## steps -/

/-- An operation of the file system. -/
def lift {α : Type} (x : m α) : Run m α := ExceptT.lift (StateT.lift x)

/-- An operation of the file system that may fail, and what its failure means. -/
def liftOr {α : Type} (x : m (Except FileError α)) (meaning : FileError → Failure) :
    Run m α := do
  match ← lift x with
  | .ok a => return a
  | .error e => throw (meaning e)

/-- Prints a line. -/
def printLine (line : String) : Run m Unit :=
  modify fun t => { t with printed := t.printed ++ line ++ "\n" }

/-- A computation that reports. -/
def noting {α : Type} (x : Noted α) : Run m α := do
  modify fun t => { t with notices := t.notices ++ x.notices }
  return x.value

/-- A value, or what its absence means. -/
def orFail {ε α : Type} (x : Except ε α) (meaning : ε → Failure) : Run m α :=
  match x with
  | .ok a => return a
  | .error e => throw (meaning e)

/-! ## places -/

/-- The user's settings file in the configuration directory. -/
def settingsPath (config : String) : String := config ++ "/settings.json"

/-- The directory of log files in the configuration directory. -/
def logsPath (config : String) : String := config ++ "/logs"

/-- The log file in the configuration directory. -/
def logFilePath (config : String) : String := logsPath config ++ "/mfvec.log"

/-! ## checks -/

/-- Fails if there is no such file. -/
def requireFile (files : Storage m) (what : InputFile) (path : String) : Run m Unit := do
  if !(← lift (files.isThere path)) then throw (.missing what path)

/-- Fails if the request cannot be met. -/
def check (files : Storage m) (r : Request) : Run m Unit := do
  r.log.forM (requireFile files .log)
  match r.prologue, r.prologueFile with
  | some _, some _ => throw .twoPrologues
  | none, none => throw .noPrologue
  | none, some path => requireFile files .prologue path
  | some _, none => pure ()
  r.settings.forM (requireFile files .settings)
  match r.extensions.find? fun name => !Request.extensionNames.contains name with
  | some name => throw (.unknownExtension name)
  | none => pure ()

/-! ## the user's configuration -/

/-- Makes the configuration directory with a settings file, unless there is one. -/
def makeConfiguration (files : Storage m) (config : String) : Run m Unit := do
  liftOr (files.makeDirectories config) .configuration
  printLine s!"Created config directory: {shownText config}"
  liftOr (files.makeDirectories (logsPath config)) .configuration
  printLine s!"Created logs directory: {shownText (logsPath config)}"
  let path := settingsPath config
  if ← lift (files.isThere path) then
    printLine s!"Settings file already exists: {shownText path}"
  else
    let defaults : Settings := {}
    liftOr (files.write path defaults.toJson.render) .configuration
    printLine s!"Created settings file: {shownText path}"
  printLine "\nConfiguration initialized successfully!"
  printLine s!"  - Edit settings at: {shownText path}"
  printLine s!"  - View logs in: {shownText (logsPath config)}"

/-- The settings in a file, if it can be read and understood. -/
def settingsIn? (files : Storage m) (path : String) : Run m (Option Settings) := do
  if ← lift (files.isThere path) then
    match ← lift (files.read path) with
    | .ok text => return Settings.ofFile? text
    | .error _ => return none
  else return none

/-- The settings that a request starts from: those of its own file, which has to
be usable, or else those of the user, if they are. -/
def baseSettings (files : Storage m) (config : String) (r : Request) : Run m Settings := do
  match r.settings with
  | some path =>
    match ← settingsIn? files path with
    | some s => return s
    | none => throw (.settingsUnusable path)
  | none => return (← settingsIn? files (settingsPath config)).getD {}

/-- The settings of a request. -/
def settings (files : Storage m) (config : String) (r : Request) : Run m Settings := do
  let s := r.override (← baseSettings files config r)
  orFail s.validate .settings
  return s

/-! ## from the log to the font -/

/-- The text of the prologue. -/
def prologue (files : Storage m) (r : Request) : Run m String := do
  match r.prologue, r.prologueFile with
  | some text, _ => return text
  | none, some path => liftOr (files.read path) (.prologueUnreadable path)
  | none, none => throw .noPrologue

/-- The text of the log. -/
def log (files : Storage m) (r : Request) : Run m String :=
  match r.log with
  | some path => liftOr (files.read path) (.logUnreadable path)
  | none => return ""

/-- Writes a font as a UFO, in the place of what is there. -/
def writeUfo (files : Storage m) (path : String) (f : Font) : Run m Unit := do
  let ufo ← noting (Ufo.ofFont f)
  if ← lift (files.isThere path) then
    liftOr (files.removeTree path) (.ufo path .removeOld)
  liftOr (files.makeDirectory path) (.ufo path .makeDirectory)
  let write (directory : String) (file : String × String) : Run m Unit :=
    liftOr (files.write s!"{directory}/{file.1}" file.2) (.ufo path (.write file.1))
  ufo.files.forM (write path)
  let glyphs := s!"{path}/{Ufo.glyphDirectory}"
  liftOr (files.makeDirectory glyphs) (.ufo path .makeDirectory)
  ufo.glyphFiles.forM (write glyphs)

/-- Prints the font of a trace, and writes it as a UFO if that is asked for. -/
def build (files : Storage m) (r : Request) (cfg : Settings) (records : List Record) :
    Run m Unit := do
  let f ← noting (fontOf Engine.basic () cfg .unicode records)
  printLine f.toJson.render
  r.ufo.forM fun path => writeUfo files path f

/-- What a request does with a log. -/
def process (files : Storage m) (config : String) (r : Request) : Run m Unit := do
  if r.logFile then liftOr (files.makeDirectories (logsPath config)) .logDirectory
  let prologue ← prologue files r
  let log ← log files r
  r.cleanLog.forM fun path =>
    liftOr (files.write path (cleanLog log prologue)) (.cleanLogUnwritable path)
  let records ← orFail (tokenize log prologue) .trace
  if r.tokens then printLine (Json.list Record.toJson records).render
  else
    let cfg ← settings files config r
    if r.prerun then
      let x ← noting (Extents.scan cfg records)
      printLine (x.planToJson cfg).render
    else build files r cfg records

/-- What a request does. -/
def perform (files : Storage m) (config : String) (r : Request) : Run m Unit :=
  if r.newConfig then makeConfiguration files config
  else do
    check files r
    process files config r

end Run

/-! ## the whole program -/

/-- What a run leaves behind, apart from the files it wrote. -/
structure Outcome where
  exitCode : Nat
  stdout : String := ""
  stderr : String := ""
  notices : List Notice := []
  /-- The file that the notices are to be added to. -/
  diagnosticsFile : Option String := none
deriving DecidableEq, Repr

namespace Outcome

/-- The version of the program. -/
def versionText : String := "mfvec 0.1.0\n"

/-- How to use the program. -/
def usageText : String :=
  "Turns an instrumented METAFONT log into a font model\n\n" ++
    "Usage: mfvec [OPTIONS] [LOG]\n\n" ++
    "Arguments:\n  [LOG]  Compiler log to interpret\n\n" ++
    "Options:\n" ++ String.join (Switch.all.map fun s => s.usage ++ "\n")

/-- The report about a command line that cannot be used. -/
def unusableText : String :=
  "error: unusable arguments\n\nFor more information, try '--help'.\n"

/-- The outcome of a command line that leads to no run. -/
def ofNoRun : NoRun → Outcome
  | .help => { exitCode := 0, stdout := usageText }
  | .version => { exitCode := 0, stdout := versionText }
  | .unusable => { exitCode := 2, stderr := unusableText }

/-- The outcome of a run. -/
def ofRun (result : Except Failure Unit) (t : Transcript) : Outcome :=
  match result with
  | .ok () => { exitCode := 0, stdout := t.printed, notices := t.notices }
  | .error f =>
    { exitCode := 1, stdout := t.printed, stderr := f.report, notices := t.notices }

end Outcome

/-- What the program does with the words of its command line.  `config` is the
user's configuration directory. -/
def runWords {m : Type → Type} [Monad m] (files : Storage m) (config : String)
    (words : List String) : m Outcome :=
  match Request.ofWords words with
  | .error e => return Outcome.ofNoRun e
  | .ok r => do
    let (result, t) ← (Run.perform files config r).run.run {}
    let diagnosticsFile := if r.logFile then some (Run.logFilePath config) else none
    return { Outcome.ofRun result t with diagnosticsFile }

end FontTrace
