import FontTrace.Geometry.Path
import FontTrace.Number.Decimal
import FontTrace.Text.Blank
import FontTrace.Text.Scan
import FontTrace.Trace.OperandError

/-!
# FontTrace.Trace.Operand

Reading operands: numbers, pairs, paths, strings and characters, as the
compiler shows them.

* `Operand.number` accepts finite numbers only, the compiler shows no others;
* `Operand.path` reads `(x,y)..controls (a,b) and (c,d) ..(x,y)` and so on, up to
  a `cycle` or to the end of what looks like a join;
* `CharRef` is a character operand: a code, or a string.
-/

namespace FontTrace

namespace Operand

/-! ## numbers -/

/-- A finite number, blanks around it allowed. -/
def number? (cs : List Char) : Option Float :=
  (Decimal.ofText? (trimBlanks cs)).filter Float.isFinite

/-- A finite number. -/
def number (text : String) : Except OperandError Float :=
  match number? text.toList with
  | some x => .ok x
  | none => .error (.number text)

/-- A number to the nearest integer. -/
def rounded (text : String) : Except OperandError Int := (number text).map roundUnits

/-- The integer part of a number. -/
def truncated (text : String) : Except OperandError Int := (number text).map truncUnits

/-! ## pairs -/

/-- The two texts of a pair `(x,y)` that stands here on one line, and what
follows it. -/
def pairHere? (cs : List Char) : Option ((List Char × List Char) × List Char) := do
  let cs ← strip ['('] cs
  let (x, cs) ← upTo [','] cs
  let (y, cs) ← upTo [')'] cs
  return ((x, y), cs)

/-- The first pair of texts, and what follows it. -/
def firstPair? (cs : List Char) : Option ((List Char × List Char) × List Char) :=
  (seek anywhere pairHere? cs).map (·.2)

/-- A point from the texts of its coordinates. -/
def point? (p : List Char × List Char) : Option Point := do
  let x ← number? p.1
  let y ← number? p.2
  return ⟨x, y⟩

/-- The first pair in a text. -/
def pair (text : String) : Except OperandError Point :=
  match (firstPair? text.toList).bind fun p => point? p.1 with
  | some p => .ok p
  | none => .error (.pair text)

/-! ## paths -/

/-- What a join leads to: the texts of a point, or back to the start. -/
abbrev JoinEnd := Option (List Char × List Char)

/-- The end of a join, and what follows it. -/
def joinEnd? (cs : List Char) : Option (JoinEnd × List Char) := do
  let cs ← strip [')', ' ', '.', '.'] cs
  match pairHere? cs with
  | some (p, rest) => return (some p, rest)
  | none => (strip ['c', 'y', 'c', 'l', 'e'] cs).map (none, ·)

/-- The texts of a join: two control points and the end. -/
structure JoinText where
  c1 : List Char × List Char
  c2 : List Char × List Char
  stop : JoinEnd

/-- A join that stands here on one line, and what follows it. -/
def joinHere? (cs : List Char) : Option (JoinText × List Char) := do
  let cs ← strip "..controls (".toList cs
  let (x1, cs) ← upTo [','] cs
  let (y1, cs) ← upTo ") and (".toList cs
  let (x2, cs) ← upTo [','] cs
  let (y2, stop, rest) ← seek onThisLine joinEnd? cs
  return (⟨(x1, y1), (x2, y2), stop⟩, rest)

/-- A join from its texts; none if one of them is no number. -/
def JoinText.read? (t : JoinText) : Option Join := do
  let c1 ← point? t.c1
  let c2 ← point? t.c2
  match t.stop with
  | some p => return ⟨c1, c2, some (← point? p)⟩
  | none => return ⟨c1, c2, none⟩

theorem length_of_joinHere {cs rest : List Char} {t : JoinText}
    (h : joinHere? cs = some (t, rest)) : rest.length < cs.length := by
  simp only [joinHere?, upTo, Option.bind_eq_bind, Option.bind_eq_some_iff, Option.pure_def,
    Option.some.injEq, Prod.mk.injEq, Prod.exists] at h
  obtain ⟨a, ha, x1, b, hb, y1, c, hc, x2, d, hd, y2, stop, r, hr, -, rfl⟩ := h
  obtain ⟨sb, hb₁, hb₂⟩ := seek_eq_some hb
  obtain ⟨sc, hc₁, hc₂⟩ := seek_eq_some hc
  obtain ⟨sd, hd₁, hd₂⟩ := seek_eq_some hd
  obtain ⟨sr, hr₁, hr₂⟩ := seek_eq_some hr
  have l₁ := length_of_strip ha
  have l₂ := length_of_strip hb₂
  have l₃ := length_of_strip hc₂
  have l₄ := length_of_strip hd₂
  have l₅ : r.length ≤ sr.length := by
    simp only [joinEnd?, pairHere?, upTo, Option.bind_eq_bind, Option.bind_eq_some_iff] at hr₂
    obtain ⟨e, he, hr₂⟩ := hr₂
    have m₁ := length_of_strip he
    split at hr₂
    · rename_i p rest' hp
      simp only [Option.pure_def, Option.some.injEq, Prod.mk.injEq] at hr₂
      obtain ⟨-, rfl⟩ := hr₂
      simp only [Option.bind_eq_some_iff, Option.pure_def, Option.some.injEq,
        Prod.mk.injEq, Prod.exists] at hp
      obtain ⟨f, hf, x, g, hg, y, k, hk, -, rfl⟩ := hp
      obtain ⟨sg, hg₁, hg₂⟩ := seek_eq_some hg
      obtain ⟨sk, hk₁, hk₂⟩ := seek_eq_some hk
      have m₂ := length_of_strip hf
      have m₃ := length_of_strip hg₂
      have m₄ := length_of_strip hk₂
      subst hg₁ hk₁
      simp only [List.length_append] at *
      omega
    · simp only [Option.map_eq_some_iff, Prod.mk.injEq] at hr₂
      obtain ⟨f, hf, -, rfl⟩ := hr₂
      have m₂ := length_of_strip hf
      omega
  have l₀ : "..controls (".toList.length = 12 := rfl
  subst hb₁ hc₁ hd₁ hr₁
  simp only [List.length_append] at *
  omega

/-- The joins of a text up to the first one that leads back to the start;
other text between them does not count.  None if a coordinate is no number. -/
def joins? (cs : List Char) : Option (List Join) :=
  match _h : seek anywhere joinHere? cs with
  | none => some []
  | some (_, t, rest) =>
    match t.read? with
    | none => none
    | some j => if j.stop.isNone then some [j] else (joins? rest).map (j :: ·)
termination_by cs.length
decreasing_by
  obtain ⟨r, hr, hs⟩ := seek_eq_some _h
  have := length_of_joinHere hs
  rw [hr, List.length_append]
  omega

/-- A path: the first pair, and the joins behind it. -/
def path? (cs : List Char) : Option Path := do
  let (p, rest) ← firstPair? cs
  let start ← point? p
  let joins ← joins? rest
  return ⟨start, joins⟩

/-- A path. -/
def path (text : String) : Except OperandError Path :=
  match path? text.toList with
  | some p => .ok p
  | none => .error (.path text)

/-! ## strings -/

/-- What stands between the two double quotes of a string, blanks around them
allowed; none if there are no two quotes. -/
def unquoted? (cs : List Char) : Option (List Char) :=
  match trimBlanks cs with
  | '"' :: rest => if rest.getLast? = some '"' then some rest.dropLast else none
  | _ => none

/-- The contents of a quoted string. -/
def unquote? (text : String) : Option String := (unquoted? text.toList).map String.ofList

/-- The contents of a quoted string, or an error. -/
def string (text : String) : Except OperandError String :=
  match unquote? text with
  | some s => .ok s
  | none => .error (.string text)

/-- The contents of a quoted string; anything else without the blanks around
it.  The compiler shows the names of pictures and points quoted. -/
def nameOf (text : String) : String := (unquote? text).getD (trimmed text)

/-- The contents of a quoted string; anything else as it is. -/
def contents (text : String) : String := (unquote? text).getD text

end Operand

/-! ## characters -/

/-- A character operand: a code as the compiler counts, or a string. -/
inductive CharRef where
  | code (n : Int)
  | text (s : String)
deriving DecidableEq, Repr

namespace CharRef

/-- A quoted operand is a string, any other one a number, rounded. -/
def read (text : String) : Except OperandError CharRef :=
  match Operand.unquote? text with
  | some s => .ok (.text s)
  | none => (Operand.rounded text).map .code

/-- The code the compiler goes by: that of the first character of a string. -/
def code? : CharRef → Option Int
  | .code n => some n
  | .text s => s.toList.head?.map fun c => (c.toNat : Int)

/-- Whether this is the number zero, which stands for no piece in the recipe of
an extensible character. -/
def isZero : CharRef → Bool
  | .code n => n == 0
  | .text _ => false

/-- The operand as it is shown. -/
def shown : CharRef → String
  | .code n => toString n
  | .text s => s!"\"{s}\""

end CharRef

end FontTrace
