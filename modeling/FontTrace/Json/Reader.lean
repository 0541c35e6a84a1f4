import FontTrace.Json
import FontTrace.Text.Scan

/-!
# FontTrace.Json.Reader

Reading JSON text, strictly: one value, blanks around it, nothing else.

A number without point and exponent that fits into 64 bits is an integer, any
other number a double; `-0` is a double, since no integer has a negative zero.
A number beyond the doubles becomes infinite, and whoever asks for the value
of a field refuses it there.
-/

namespace FontTrace.Json

/-- The rest of a text after JSON's blanks. -/
def skipSpace (cs : List Char) : List Char :=
  cs.dropWhile fun c => c = ' ' || c = '\n' || c = '\r' || c = '\t'

/-! ## strings -/

/-- A UTF-16 unit from four hexadecimal digits. -/
def unit? : List Char → Option (Nat × List Char)
  | a :: b :: c :: d :: cs => (natOfDigits? 16 [a, b, c, d]).map (·, cs)
  | _ => none

/-- What an escape stands for: a character, or nothing if it is one half of a
surrogate pair without the other. -/
def escape? : List Char → Option (Option Char × List Char)
  | 'u' :: cs => do
    let (high, cs) ← unit? cs
    if 0xD800 ≤ high ∧ high < 0xDC00 then
      match strip ['\\', 'u'] cs with
      | none => return (none, cs)
      | some more =>
        let (low, rest) ← unit? more
        if 0xDC00 ≤ low ∧ low < 0xE000 then
          return (some (Char.ofNat (0x10000 + (high - 0xD800) * 0x400 + (low - 0xDC00))), rest)
        else return (none, rest)
    else if 0xDC00 ≤ high ∧ high < 0xE000 then return (none, cs)
    else return (some (Char.ofNat high), cs)
  | c :: cs =>
    match [('"', '"'), ('\\', '\\'), ('/', '/'), ('n', '\n'), ('r', '\r'), ('t', '\t'),
        ('b', Char.ofNat 8), ('f', Char.ofNat 12)].lookup c with
    | some d => some (some d, cs)
    | none => none
  | [] => none

/-- The characters of a string up to its closing quote, and whether all of
them are characters.  `seen` holds them in reverse order. -/
def stringFrom (seen : List Char) (clean : Bool) :
    Nat → List Char → Option ((List Char × Bool) × List Char)
  | 0, _ => none
  | _ + 1, [] => none
  | fuel + 1, c :: cs =>
    if c = '"' then some ((seen.reverse, clean), cs)
    else if c = '\\' then
      match escape? cs with
      | some (some d, rest) => stringFrom (d :: seen) clean fuel rest
      | some (none, rest) => stringFrom seen false fuel rest
      | none => none
    else if c.toNat < 0x20 then none
    else stringFrom (c :: seen) clean fuel cs

/-! ## numbers -/

/-- The digits at the front of a text. -/
def digitsSpan (cs : List Char) : List Char × List Char :=
  (cs.takeWhile Char.isDigit, cs.dropWhile Char.isDigit)

/-- A fraction: a point and at least one digit, or nothing. -/
def fraction? : List Char → Option (List Char × List Char)
  | '.' :: cs =>
    let (ds, rest) := digitsSpan cs
    if ds.isEmpty then none else some ('.' :: ds, rest)
  | cs => some ([], cs)

/-- An exponent: a letter, an optional sign and at least one digit, or nothing. -/
def exponent? : List Char → Option (List Char × List Char)
  | c :: cs =>
    if c = 'e' ∨ c = 'E' then
      let (sign, cs) :=
        match cs with
        | '-' :: r => (['-'], r)
        | '+' :: r => ([], r)
        | r => ([], r)
      let (ds, rest) := digitsSpan cs
      if ds.isEmpty then none else some ('e' :: sign ++ ds, rest)
    else some ([], c :: cs)
  | [] => some ([], [])

/-- A number.  No zero stands in front of another digit. -/
def number? (cs : List Char) : Option (Json × List Char) := do
  let (negative, cs) :=
    match cs with
    | '-' :: r => (true, r)
    | r => (false, r)
  let (whole, rest) := digitsSpan cs
  if whole.isEmpty ∨ (whole.head? = some '0' ∧ whole.length ≠ 1) then none
  let (part, rest) ← fraction? rest
  let (exponent, rest) ← exponent? rest
  let n ← natOfDigits? 10 whole
  let sign := if negative then ['-'] else []
  let double ← Decimal.ofText? (sign ++ whole ++ part ++ exponent)
  let integral := part.isEmpty && exponent.isEmpty &&
    (if negative then n != 0 && n ≤ Nat.pow 2 63 else n < Nat.pow 2 64)
  return (if integral then .int (if negative then -(n : Int) else n) else .float double, rest)

/-! ## values -/

mutual

/-- A value at the front of a text.  Each call gives up one unit of fuel and
at least one in two takes a character. -/
def valueHere? : Nat → List Char → Option (Json × List Char)
  | 0, _ => none
  | fuel + 1, cs =>
    match skipSpace cs with
    | [] => none
    | '"' :: rest =>
      match stringFrom [] true (rest.length + 1) rest with
      | some ((s, clean), rest) =>
        some (if clean then .str (String.ofList s) else .brokenStr, rest)
      | none => none
    | '[' :: rest =>
      match skipSpace rest with
      | ']' :: rest => some (.arr [], rest)
      | rest => itemsHere? [] fuel rest
    | '\x7b' :: rest =>
      match skipSpace rest with
      | '\x7d' :: rest => some (.obj [], rest)
      | rest => fieldsHere? [] true fuel rest
    | rest =>
      match strip ['n', 'u', 'l', 'l'] rest with
      | some rest => some (.null, rest)
      | none =>
        match strip ['t', 'r', 'u', 'e'] rest with
        | some rest => some (.bool true, rest)
        | none =>
          match strip ['f', 'a', 'l', 's', 'e'] rest with
          | some rest => some (.bool false, rest)
          | none => number? rest

/-- The items of an array up to its closing bracket. -/
def itemsHere? (seen : List Json) : Nat → List Char → Option (Json × List Char)
  | 0, _ => none
  | fuel + 1, cs =>
    match valueHere? fuel cs with
    | none => none
    | some (j, rest) =>
      match skipSpace rest with
      | ',' :: rest => itemsHere? (j :: seen) fuel rest
      | ']' :: rest => some (.arr (j :: seen).reverse, rest)
      | _ => none

/-- The fields of an object up to its closing brace, and whether all of their
names denote a text. -/
def fieldsHere? (seen : List (String × Json)) (clean : Bool) :
    Nat → List Char → Option (Json × List Char)
  | 0, _ => none
  | fuel + 1, cs =>
    match skipSpace cs with
    | '"' :: rest =>
      match stringFrom [] true (rest.length + 1) rest with
      | some ((key, cleanKey), rest) =>
        match skipSpace rest with
        | ':' :: rest =>
          match valueHere? fuel rest with
          | none => none
          | some (j, rest) =>
            let seen := (String.ofList key, j) :: seen
            let clean := clean && cleanKey
            match skipSpace rest with
            | ',' :: rest => fieldsHere? seen clean fuel rest
            | '\x7d' :: rest => some (if clean then .obj seen.reverse else .brokenObj, rest)
            | _ => none
        | _ => none
      | none => none
    | _ => none

end

/-- The value that a whole text denotes. -/
def ofText? (s : String) : Option Json :=
  let cs := s.toList
  match valueHere? (2 * cs.length + 2) cs with
  | some (j, rest) => if (skipSpace rest).isEmpty then some j else none
  | none => none

end FontTrace.Json
