import FontTrace.Json
import FontTrace.Number.Integer

/-!
# FontTrace.Json.Fields

Reading typed values out of JSON.  A record is an object, of which unknown
fields are passed over and known ones may stand only once, or an array of the
fields in their order, of which some at the end may be missing.  Nothing is
converted, except that an integer may stand for a double.
-/

namespace FontTrace.Json

/-- A truth value. -/
def bool? : Json → Option Bool
  | .bool b => some b
  | _ => none

/-- A text. -/
def str? : Json → Option String
  | .str s => some s
  | _ => none

/-- A signed 64-bit integer. -/
def int64? : Json → Option Int
  | .int n => if fits64 n then some n else none
  | _ => none

/-- An unsigned 32-bit integer. -/
def nat32? : Json → Option Nat
  | .int n => nat32OfInt? n
  | _ => none

/-- A double. -/
def float? : Json → Option Float
  | .int n => some (Float.ofInt n)
  | .float x => if x.isFinite then some x else none
  | _ => none

/-- A value that may be missing. -/
def option? {α : Type} (read : Json → Option α) : Json → Option (Option α)
  | .null => some none
  | j => (read j).map some

/-- A list of values. -/
def list? {α : Type} (read : Json → Option α) : Json → Option (List α)
  | .arr items => items.mapM read
  | _ => none

/-- The values of a record's fields. -/
abbrev Fields := String → Option Json

/-- The fields of a record with the given field names. -/
def fields? (names : List String) : Json → Option Fields
  | .obj fields =>
    let known := (fields.map (·.1)).filter names.contains
    if known.all fun name => known.count name = 1 then some fun name => fields.lookup name
    else none
  | .arr items =>
    if items.length ≤ names.length then some fun name => (names.zip items).lookup name else none
  | _ => none

/-- A field with a default. -/
def Fields.get? {α : Type} (fs : Fields) (name : String) (read : Json → Option α) (default : α) :
    Option α :=
  match fs name with
  | some j => read j
  | none => some default

/-- A field that must be there. -/
def Fields.need? {α : Type} (fs : Fields) (name : String) (read : Json → Option α) : Option α :=
  (fs name).bind read

end FontTrace.Json
