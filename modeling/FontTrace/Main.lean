import FontTrace.CommandLine.Run

/-!
# FontTrace.Main

The program: the run of `FontTrace.CommandLine.Run` on the disk.
-/

namespace FontTrace

namespace Disk

/-- The system's error in the terms of a run. -/
def fileError : IO.Error → FileError
  | .noFileOrDirectory .. => .notFound
  | .alreadyExists .. => .alreadyThere
  | .inappropriateType _ _ details =>
    if details = "is a directory" then .isDirectory else .notDirectory
  | .permissionDenied .. => .system "Permission denied" 13
  | .invalidArgument .. => .badPath
  | e => .system (toString e) 5

/-- An operation with its error as a value. -/
def attempt {α : Type} (x : IO α) : IO (Except FileError α) := do
  match ← x.toBaseIO with
  | .ok a => return .ok a
  | .error e => return .error (fileError e)

/-- Whether a path leads to something. -/
def isThere (path : String) : IO Bool := do
  return (← (IO.FS.realPath path).toBaseIO) matches .ok _

/-- The text of a file. -/
def read (path : String) : IO (Except FileError String) := do
  match ← attempt (IO.FS.readBinFile path) with
  | .error e => return .error e
  | .ok bytes =>
    match String.fromUTF8? bytes with
    | some text => return .ok text
    | none => return .error .notText

/-- The operations on the disk. -/
def storage : Storage IO where
  isThere := isThere
  read := read
  write path text := attempt (IO.FS.writeFile path text)
  makeDirectory path := attempt (IO.FS.createDir path)
  makeDirectories path := attempt (IO.FS.createDirAll path)
  removeTree path := attempt (IO.FS.removeDirAll path)

/-- Adds to a file, which may be missing. -/
def addTo (path text : String) : IO Unit := do
  let handle ← IO.FS.Handle.mk path .append
  handle.putStr text

/-- The user's configuration directory. -/
def configuration : IO String := do
  let home := (← IO.getEnv "HOME").getD "."
  let base :=
    match ← IO.getEnv "XDG_CONFIG_HOME" with
    | some dir => if dir.startsWith "/" then dir else home ++ "/.config"
    | none => home ++ "/.config"
  return base ++ "/mfvec"

end Disk

/-- A notice as a line of diagnostics. -/
def Notice.diagnostic (n : Notice) : String :=
  let line := match n.line? with
    | some (some line) => s!" line={line}"
    | _ => ""
  let glyph := match n.glyph? with
    | some glyph => s!" glyph={glyph}"
    | none => ""
  s!" WARN {n.message}{line}{glyph}\n"

end FontTrace

open FontTrace

/-- Runs the program. -/
def main (words : List String) : IO UInt32 := do
  let outcome ← runWords Disk.storage (← Disk.configuration) words
  let diagnostics := String.join (outcome.notices.map Notice.diagnostic)
  IO.print outcome.stdout
  IO.eprint diagnostics
  IO.eprint outcome.stderr
  if let some path := outcome.diagnosticsFile then
    if let .error e ← (Disk.addTo path diagnostics).toBaseIO then IO.eprint s!"{e}\n"
  return outcome.exitCode.toUInt32
