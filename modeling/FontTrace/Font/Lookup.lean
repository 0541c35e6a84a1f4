import FontTrace.Font.KernClass
import FontTrace.Settings

/-!
# FontTrace.Font.Lookup

OpenType lookups in their order.  A lookup keeps its place once it is there; a
new one comes last, unless it has to stand right behind another one.
Subtables, their rules and their anchor classes are kept in the order in which
they were added, and none is added twice.
-/

namespace FontTrace

/-- The kinds of lookups. -/
inductive LookupKind where
  | gsubSingle | gsubMultiple | gsubLigature | gsubContextChain
  | gposPair | gposMarkToBase | gposMarkToMark
deriving DecidableEq, Repr

/-- One rule of a subtable. -/
inductive Rule where
  | single (glyph replacement : String)
  | multiple (glyph : String) (replacement : List String)
  | ligature (components : List String) (ligature : String)
  | pair (left right : String) (kern : Int)
  /-- `backtrack | input @<lookup> | lookahead` -/
  | contextChain (rule : String)
  | kerningClasses (table : KernClasses)
deriving DecidableEq, Repr

/-- A named group of rules. -/
structure Subtable where
  name : String
  anchorClasses : List String := []
  rules : List Rule := []
deriving DecidableEq, Repr

/-- A list with an element at the end, unless it is in it already. -/
def addNew {α : Type} [DecidableEq α] (xs : List α) (x : α) : List α :=
  if x ∈ xs then xs else xs ++ [x]

theorem nodup_addNew {α : Type} [DecidableEq α] {xs : List α} (h : xs.Nodup) (x : α) :
    (addNew xs x).Nodup := by
  unfold addNew
  split
  · exact h
  · rename_i hx
    exact List.nodup_append.2 ⟨h, by simp, by rintro a ha b hb rfl; simp_all⟩

namespace Subtable

/-- The subtable with one more rule. -/
def addRule (s : Subtable) (r : Rule) : Subtable := { s with rules := addNew s.rules r }

/-- The subtable with one more anchor class. -/
def addAnchorClass (s : Subtable) (c : String) : Subtable :=
  { s with anchorClasses := addNew s.anchorClasses c }

end Subtable

/-- A lookup.  It has scripts only if it is registered under a feature; others
are reached from context rules. -/
structure Lookup where
  name : String
  kind : LookupKind
  feature : Option String
  scripts : List ScriptLanguages
  subtables : List Subtable
deriving DecidableEq, Repr

/-- A list with the first element that passes the test changed; if there is
none, with a changed new element at the end. -/
def changeOrAppend {α : Type} (test : α → Bool) (fresh : α) (f : α → α) : List α → List α
  | [] => [f fresh]
  | x :: xs => if test x then f x :: xs else x :: changeOrAppend test fresh f xs

namespace Lookup

/-- The subtable of the given name. -/
def subtable? (l : Lookup) (name : String) : Option Subtable :=
  l.subtables.find? fun s => s.name == name

/-- The lookup with the subtable of the given name changed; the subtable is
made if need be. -/
def changeSubtable (l : Lookup) (name : String) (f : Subtable → Subtable) : Lookup :=
  { l with subtables :=
      changeOrAppend (fun s => s.name == name) { name := name } f l.subtables }

end Lookup

/-- What a lookup is like when it has to be made. -/
structure LookupSpec where
  name : String
  kind : LookupKind
  feature : Option String := none
  /-- A new lookup goes right behind this one, if it is there. -/
  after : Option String := none
deriving DecidableEq, Repr

/-- The name of a subtable in the run with the given index. -/
def subtableName (base : String) (index : Option Nat) : String :=
  match index with
  | some i => s!"{base}_{i}"
  | none => base

/-- All lookups of a font. -/
abbrev Lookups := List Lookup

namespace Lookups

/-- The lookup of the given name. -/
def find? (ls : Lookups) (name : String) : Option Lookup :=
  List.find? (fun l => l.name == name) ls

/-- The names of the lookups. -/
def names (ls : Lookups) : List String := ls.map (·.name)

/-- The lookup that a specification asks for, before it has any subtables. -/
def fresh (spec : LookupSpec) (scripts : List ScriptLanguages) : Lookup :=
  { name := spec.name
    kind := spec.kind
    feature := spec.feature
    scripts := if spec.feature.isSome then scripts else []
    subtables := [] }

/-- The place of a new lookup. -/
def placeFor (ls : Lookups) (spec : LookupSpec) : Nat :=
  match spec.after.bind fun name => ls.findIdx? fun l => l.name == name with
  | some i => i + 1
  | none => ls.length

/-- The lookups with the one that a specification names: unchanged if it is
there, else with a new one. -/
def ensure (ls : Lookups) (spec : LookupSpec) (scripts : List ScriptLanguages) : Lookups :=
  if (find? ls spec.name).isSome then ls
  else ls.insertIdx (placeFor ls spec) (fresh spec scripts)

/-- The lookups with the lookup of the given name changed. -/
def change (ls : Lookups) (name : String) (f : Lookup → Lookup) : Lookups :=
  match ls with
  | [] => []
  | l :: ls => if l.name = name then f l :: ls else l :: change ls name f

/-- The lookups with one subtable of one lookup changed; both are made if need be. -/
def changeSubtable (ls : Lookups) (spec : LookupSpec) (scripts : List ScriptLanguages)
    (subtable : String) (f : Subtable → Subtable) : Lookups :=
  change (ensure ls spec scripts) spec.name fun l => l.changeSubtable subtable f

end Lookups

end FontTrace
