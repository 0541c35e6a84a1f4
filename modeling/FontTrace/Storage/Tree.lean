import FontTrace.Storage
import FontTrace.Table
import FontTrace.Text.Scan

/-!
# FontTrace.Storage.Tree

Files and directories that are held in memory.

A place is the list of names on the way from the root.  A path is walked name by
name: each step needs a directory to start from, `.` stays, and `..` goes back.
The last name of a path need not be taken.

* `Tree.find?_put` — writing an entry changes its own place only;
* `Tree.find?_without` — removing a place removes what lies below it, and nothing else.
-/

namespace FontTrace

/-- What stands at a place. -/
inductive Entry where
  | file (text : String)
  | directory
deriving DecidableEq, Repr

/-- The names on the way from the root. -/
abbrev Place := List String

/-- Files and directories, and the directory from which relative paths start. -/
structure Tree where
  home : Place
  entries : Table Place Entry
deriving DecidableEq, Repr

namespace Tree

/-! ## entries -/

/-- What stands at a place; the root is a directory in any case. -/
def find? (t : Tree) (p : Place) : Option Entry :=
  if p.isEmpty then some .directory else Table.find? t.entries p

/-- The tree with an entry at a place. -/
def put (t : Tree) (p : Place) (e : Entry) : Tree := { t with entries := Table.put t.entries p e }

theorem find?_put (t : Tree) {p : Place} (hp : p ≠ []) (q : Place) (e : Entry) :
    (t.put p e).find? q = if p = q then some e else t.find? q := by
  by_cases hq : q = []
  · subst hq; simp [find?, hp]
  · simp [find?, put, hq, Table.find?_put]

/-- The tree with a directory at a place, and at all places on the way to it. -/
def withDirectory (t : Tree) (p : Place) : Tree :=
  (List.range (p.length + 1)).foldl
    (fun t n => if (t.find? (p.take n)).isNone then t.put (p.take n) .directory else t) t

/-- The tree with a file, and the directories on the way to it. -/
def withFile (t : Tree) (p : Place) (text : String) : Tree :=
  (t.withDirectory p.dropLast).put p (.file text)

/-- The tree without a place and all that lies below it. -/
def without (t : Tree) (p : Place) : Tree :=
  { t with entries := t.entries.filter fun (q, _) => !p.isPrefixOf q }

theorem find?_filter (entries : Table Place Entry) (keep : Place → Bool) (q : Place) :
    Table.find? (entries.filter fun (p, _) => keep p) q =
      if keep q then Table.find? entries q else none := by
  induction entries with
  | nil => simp
  | cons e entries ih =>
    obtain ⟨p, v⟩ := e
    by_cases hk : keep p <;> by_cases hq : p = q
    · subst hq; simp [hk, Table.find?]
    · simp [hk, hq, Table.find?, ih]
    · subst hq; simp [hk, ih]
    · simp [hk, hq, Table.find?, ih]

theorem find?_without (t : Tree) (p : Place) {q : Place} (hq : q ≠ []) :
    (t.without p).find? q = if p.isPrefixOf q then none else t.find? q := by
  cases h : p.isPrefixOf q <;>
    simp [find?, hq, without, find?_filter t.entries (fun q => !p.isPrefixOf q), h]

/-! ## paths -/

/-- A step by one name. -/
def enter (t : Tree) (p : Place) (name : String) : Except FileError Place :=
  match t.find? p with
  | none => .error .notFound
  | some (.file _) => .error .notDirectory
  | some .directory =>
    .ok (if name = "." then p else if name = ".." then p.dropLast else p ++ [name])

/-- The names in a path.  One that ends in a stroke names a directory, which
another step by `.` makes sure of. -/
def pathNames (path : String) : List String :=
  (piecesBetween '/' path.toList).map fun cs => if cs.isEmpty then "." else String.ofList cs

/-- The place to which a path leads. -/
def placeOf (t : Tree) (path : String) : Except FileError Place :=
  if path.isEmpty then .error .notFound
  else (pathNames path).foldlM t.enter (if path.startsWith "/" then [] else t.home)

/-- The place to which a path leads once its last directory is made: there a
stroke at the end of the path says nothing new. -/
def placeToMake (t : Tree) (path : String) : Except FileError Place :=
  let trimmed := path.toList.reverse.dropWhile (· == '/')
  t.placeOf (if trimmed.isEmpty then path else String.ofList trimmed.reverse)

/-- The last name of a path. -/
def lastName (path : String) : String := (pathNames path).getLastD "."

/-! ## operations -/

/-- Whether a path leads to something. -/
def isThere (t : Tree) (path : String) : Bool :=
  match t.placeOf path with
  | .ok p => (t.find? p).isSome
  | .error _ => false

/-- The text of a file. -/
def read (t : Tree) (path : String) : Except FileError String := do
  match t.find? (← t.placeOf path) with
  | some (.file text) => return text
  | some .directory => throw .isDirectory
  | none => throw .notFound

/-- The tree with a file written. -/
def write (t : Tree) (path text : String) : Except FileError Tree := do
  let p ← t.placeToMake path
  if path.endsWith "/" || t.find? p = some .directory then throw .isDirectory
  return t.put p (.file text)

/-- The tree with a directory made. -/
def makeDirectory (t : Tree) (path : String) : Except FileError Tree := do
  let p ← t.placeToMake path
  if (t.find? p).isSome then throw .alreadyThere
  return t.put p .directory

/-- A step that makes the directory it enters. -/
def enterNew (t : Tree × Place) (name : String) : Except FileError (Tree × Place) := do
  let p ← t.1.enter t.2 name
  return (if (t.1.find? p).isNone then t.1.put p .directory else t.1, p)

/-- The tree with a directory made, and those on the way to it. -/
def makeDirectories (t : Tree) (path : String) : Except FileError Tree := do
  if path.isEmpty then return t
  let start := if path.startsWith "/" then [] else t.home
  let (t, p) ← (pathNames path).foldlM enterNew (t, start)
  if t.find? p = some .directory then return t
  throw .alreadyThere

/-- The tree without a directory and all that is in it.  One that is named `.`
is emptied, but cannot be removed itself. -/
def removeTree (t : Tree) (path : String) : Tree × Except FileError Unit :=
  match t.placeOf path with
  | .error e => (t, .error e)
  | .ok p =>
    match t.find? p with
    | none => (t, .error .notFound)
    | some (.file _) => (t, .error .notDirectory)
    | some .directory =>
      if lastName path = "." && !path.endsWith "/" then
        ((t.without p).withDirectory p, .error .badPath)
      else (t.without p, .ok ())

/-- An update that may fail, as an operation on a state. -/
def attempt (f : Tree → Except FileError Tree) : StateM Tree (Except FileError Unit) := fun t =>
  match f t with
  | .ok t => (.ok (), t)
  | .error e => (.error e, t)

/-- The operations on files in memory. -/
def storage : Storage (StateM Tree) where
  isThere path := fun t => (t.isThere path, t)
  read path := fun t => (t.read path, t)
  write path text := attempt (·.write path text)
  makeDirectory path := attempt (·.makeDirectory path)
  makeDirectories path := attempt (·.makeDirectories path)
  removeTree path := fun t => let (t, r) := t.removeTree path; (r, t)

end Tree

end FontTrace
