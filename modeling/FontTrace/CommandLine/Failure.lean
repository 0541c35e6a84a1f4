import FontTrace.CommandLine.Request
import FontTrace.Storage
import FontTrace.Trace.Log

/-!
# FontTrace.CommandLine.Failure

Why a run ends without its result, and the report about it: what went wrong, and
below it the causes, the nearest first.
-/

namespace FontTrace

/-- The files that a run reads. -/
inductive InputFile where
  | log | prologue | settings
deriving DecidableEq, Repr

/-- The file as a message begins with it. -/
def InputFile.title : InputFile → String
  | log => "Log file"
  | prologue => "Prologue file"
  | settings => "Settings file"

/-- The steps of writing a UFO. -/
inductive UfoStep where
  | removeOld
  | makeDirectory
  | write (file : String)
deriving DecidableEq, Repr

/-- A step that failed, in words. -/
def UfoStep.failed : UfoStep → String
  | removeOld => "failed to remove target directory before overwriting"
  | makeDirectory => "failed to create target font directory"
  | write file => s!"failed to write {file}"

/-- Why a run ends without its result. -/
inductive Failure where
  | missing (what : InputFile) (path : String)
  | twoPrologues
  | noPrologue
  | unknownExtension (name : String)
  /-- The user's configuration could not be made. -/
  | configuration (cause : FileError)
  /-- The directory of the log file could not be made. -/
  | logDirectory (cause : FileError)
  | prologueUnreadable (path : String) (cause : FileError)
  | logUnreadable (path : String) (cause : FileError)
  | cleanLogUnwritable (path : String) (cause : FileError)
  | trace (error : TraceError)
  | settingsUnusable (path : String)
  | settings (error : SettingsError)
  | ufo (path : String) (step : UfoStep) (cause : FileError)
deriving DecidableEq, Repr

namespace Failure

/-- What went wrong. -/
def message : Failure → String
  | missing what path =>
    s!"{what.title} does not exist: {path}\nMake sure the path is correct and the file exists."
  | twoPrologues =>
    "Give the prologue either with --prologue or with --prologue-file, not both"
  | noPrologue => "The prologue is required: use --prologue or --prologue-file"
  | unknownExtension name =>
    let known := String.intercalate ", " Request.extensionNames
    s!"Unknown extension: '{name}'\nAvailable extensions: {known}"
  | configuration _ => "Failed to initialize config directory"
  | logDirectory cause => cause.message
  | prologueUnreadable path _ => s!"can't read prologue file {path}"
  | logUnreadable path cause => s!"can't read trace {path}: {cause.message}"
  | cleanLogUnwritable path _ => s!"can't write cleaned log to {path}"
  | trace error => error.message
  | settingsUnusable path => s!"can't load settings from {path}"
  | settings error => error.message
  | ufo path _ _ => s!"can't write UFO to {path}"

/-- The causes, the nearest first. -/
def causes : Failure → List String
  | configuration cause | prologueUnreadable _ cause | logUnreadable _ cause
  | cleanLogUnwritable _ cause => [cause.message]
  | ufo _ step cause => [step.failed, cause.message]
  | _ => []

/-- The report about a failed run. -/
def report (f : Failure) : String :=
  let causes := String.join (f.causes.map fun cause => s!"  caused by: {cause}\n")
  s!"\nmfvec failed:\n{f.message}\n{causes}\nTry running with --help for usage information.\n"

end Failure

end FontTrace
