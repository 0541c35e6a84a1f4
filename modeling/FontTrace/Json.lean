import FontTrace.Number.Decimal

/-!
# FontTrace.Json

JSON values and their written form.  Numbers keep the distinction between an
integer literal and one with a point or exponent, because a settings file may
use only the former for a count; object fields keep their order and may repeat.

Objects are written one field a line, indented by two blanks a level.
-/

namespace FontTrace

/-- A JSON value. -/
inductive Json where
  | null
  | bool (value : Bool)
  | int (value : Int)
  | float (value : Float)
  | str (value : String)
  /-- A string with an unpaired surrogate: it denotes no text. -/
  | brokenStr
  | arr (items : List Json)
  | obj (fields : List (String × Json))
  /-- An object with such a string for the name of a field: it has no fields that
  could be asked for. -/
  | brokenObj
deriving Inhabited

namespace Json

/-! ## building -/

/-- An array of encoded items. -/
def list {α : Type} (encode : α → Json) (xs : List α) : Json := arr (xs.map encode)

/-- A value that may be missing. -/
def option {α : Type} (encode : α → Json) (x : Option α) : Json := (x.map encode).getD null

/-- A pair, as an array of two. -/
def pair {α β : Type} (f : α → Json) (g : β → Json) (p : α × β) : Json := arr [f p.1, g p.2]

/-- A count or an index. -/
def nat (n : Nat) : Json := int n

/-! ## taking apart -/

/-- The nesting depth of arrays and objects. -/
def depth : Json → Nat
  | arr items => items.attach.foldl (fun n ⟨j, _⟩ => max n (depth j)) 0 + 1
  | obj fields => fields.attach.foldl (fun n ⟨(_, j), _⟩ => max n (depth j)) 0 + 1
  | _ => 0
decreasing_by
  all_goals simp_wf
  · rename_i h; have := List.sizeOf_lt_of_mem h; omega
  · rename_i h; have := List.sizeOf_lt_of_mem h; simp at this; omega

/-- Whether every string denotes a text and every number lies in the range of
the doubles. -/
def isClean : Json → Bool
  | arr items => items.attach.all fun ⟨j, _⟩ => isClean j
  | obj fields => fields.attach.all fun ⟨(_, j), _⟩ => isClean j
  | float x => x.isFinite
  | brokenStr | brokenObj => false
  | _ => true
decreasing_by
  all_goals simp_wf
  · rename_i h; have := List.sizeOf_lt_of_mem h; omega
  · rename_i h; have := List.sizeOf_lt_of_mem h; simp at this; omega

/-! ## writing -/

/-- A character inside a written string. -/
def escaped (c : Char) : String :=
  if c = '"' then "\\\""
  else if c = '\\' then "\\\\"
  else if c = '\n' then "\\n"
  else if c = '\r' then "\\r"
  else if c = '\t' then "\\t"
  else if c = Char.ofNat 8 then "\\b"
  else if c = Char.ofNat 12 then "\\f"
  else if c.toNat < 0x20 then "\\u00" ++ (hexDigits 2 c.toNat).toLower
  else String.singleton c

/-- A written string. -/
def quoted (s : String) : String :=
  s.toList.foldl (fun out c => out ++ escaped c) "\"" ++ "\""

/-- A line end and the indentation of the given level. -/
def newline (level : Nat) : String := "\n" ++ String.ofList (List.replicate (2 * level) ' ')

/-- Written items between brackets, one a line; no items give no lines. -/
def bracketed (opening closing : String) (level : Nat) (items : List String) : String :=
  if items.isEmpty then opening ++ closing
  else
    opening ++ newline (level + 1) ++ String.intercalate ("," ++ newline (level + 1)) items ++
      newline level ++ closing

/-- The written form of a value that stands at the given level. -/
def renderAt (level : Nat) : Json → String
  | null => "null"
  | bool b => if b then "true" else "false"
  | int n => toString n
  | float x => Decimal.jsonText x
  | str s => quoted s
  | brokenStr | brokenObj => "null"
  | arr items =>
    bracketed "[" "]" level (items.attach.map fun ⟨j, _⟩ => renderAt (level + 1) j)
  | obj fields =>
    bracketed "\x7b" "\x7d" level
      (fields.attach.map fun ⟨(k, j), _⟩ => quoted k ++ ": " ++ renderAt (level + 1) j)
termination_by j => sizeOf j
decreasing_by
  all_goals simp_wf
  · rename_i h; have := List.sizeOf_lt_of_mem h; omega
  · rename_i h; have := List.sizeOf_lt_of_mem h; simp at this; omega

/-- The written form of a value. -/
def render (j : Json) : String := renderAt 0 j

end Json

end FontTrace
