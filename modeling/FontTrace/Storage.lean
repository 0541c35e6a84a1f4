/-!
# FontTrace.Storage

What a run needs from a file system, for any monad: the same run works on a
disk and on files that are held in memory (`FontTrace.Storage.Tree`).
-/

namespace FontTrace

/-- Why a file or directory could not be used. -/
inductive FileError where
  /-- The system's own words, and its number for them. -/
  | system (description : String) (code : Nat)
  /-- The bytes of the file are no text. -/
  | notText
deriving DecidableEq, Repr

namespace FileError

/-- Nothing has that name. -/
def notFound : FileError := .system "No such file or directory" 2

/-- The name is taken. -/
def alreadyThere : FileError := .system "File exists" 17

/-- A file stands where a directory is needed. -/
def notDirectory : FileError := .system "Not a directory" 20

/-- A directory stands where a file is needed. -/
def isDirectory : FileError := .system "Is a directory" 21

/-- The operation makes no sense for that path. -/
def badPath : FileError := .system "Invalid argument" 22

/-- The error in words. -/
def message : FileError → String
  | system description code => s!"{description} (os error {code})"
  | notText => "stream did not contain valid UTF-8"

end FileError

/-- The operations of a file system.  Paths are texts, as a user writes them. -/
structure Storage (m : Type → Type) where
  isThere : String → m Bool
  read : String → m (Except FileError String)
  /-- Writes a file, in the place of one that is there. -/
  write : String → String → m (Except FileError Unit)
  /-- Makes a directory in one that is there. -/
  makeDirectory : String → m (Except FileError Unit)
  /-- Makes a directory and those it lies in, as far as they are missing. -/
  makeDirectories : String → m (Except FileError Unit)
  /-- Removes a directory and all that is in it. -/
  removeTree : String → m (Except FileError Unit)

end FontTrace
