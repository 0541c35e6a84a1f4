import FontTrace.Number.Integer
import FontTrace.Trace.Record

/-!
# FontTrace.Trace.Log

From the text of a compiler log to its records, and to the log as it would
look without them.

The instrumented compiler writes every record between two markers, as
`MARKER name MARKER` or `MARKER name>> operands MARKER`, into a log that also
holds error reports and whose lines are broken at a fixed width.  Reading it
takes four steps: error reports go (`withoutReports`), line ends go
(`joinLines`), everything up to the prologue goes, and the rest is cut into
records (`recordsOf`).  Cleaning works on the raw log instead, where a line
end may stand between any two characters of the prologue or a marker.
-/

namespace FontTrace

/-- The marker on both sides of a record. -/
def marker : List Char := "@mf2vec@".toList

/-! ## error reports -/

/-- The text after the error report that starts here: `! `, up to a line that
starts with `l.`, up to an empty line. -/
def afterReport? (cs : List Char) : Option (List Char) := do
  let body ← strip ['!', ' '] cs
  let (_, context) ← splitAtFirst ['\n', 'l', '.'] body
  let (_, rest) ← splitAtFirst ['\n', '\n'] context
  return rest

theorem length_of_afterReport {cs rest : List Char} (h : afterReport? cs = some rest) :
    rest.length < cs.length := by
  simp only [afterReport?, Option.bind_eq_bind, Option.bind_eq_some_iff, Option.pure_def,
    Option.some.injEq, Prod.exists] at h
  obtain ⟨b, hb, p, q, hq, p', r, hr, rfl⟩ := h
  have h₁ := length_of_strip hb
  have h₂ := length_of_splitAtFirst hq
  have h₃ := length_of_splitAtFirst hr
  simp only [List.length_cons, List.length_nil] at h₁ h₂ h₃
  omega

/-- The text without error reports.  `kept` is the text before this place in
reverse order, `atStart` tells whether a line starts here. -/
def withoutReportsFrom (kept : List Char) (atStart : Bool) (cs : List Char) : List Char :=
  match cs with
  | [] => kept.reverse
  | c :: rest =>
    match _h : (if atStart then afterReport? (c :: rest) else none) with
    | some after => withoutReportsFrom kept true after
    | none => withoutReportsFrom (c :: kept) (c == '\n') rest
termination_by cs.length
decreasing_by
  · split at _h
    · exact length_of_afterReport _h
    · simp at _h
  · simp

/-- The log without error reports, whose excerpts of the source would
otherwise be taken for output. -/
def withoutReports (log : List Char) : List Char := withoutReportsFrom [] true log

/-- The log as one line.  The compiler breaks lines without regard to what it
breaks. -/
def joinLines (log : List Char) : List Char := log.filter fun c => c != '\n' && c != '\r'

/-! ## records -/

/-- The characters of record names. -/
def isNameChar (c : Char) : Bool :=
  c.isAlpha || c == '_' || c == ':' || c == '=' || c == '|'

/-- The line number in a path label.  Only ASCII digits have a value, and a
number beyond 32 bits is no line. -/
def lineNumber? (digits : List Char) : Option Nat := (natOfDigits? 10 digits).filter fits32

/-- The line in the label in front of a body, if there is one, and the rest of
the body. -/
def labelled (cs : List Char) : Option Nat × List Char :=
  match pathLabel? cs with
  | some (digits, rest) => (lineNumber? digits, rest)
  | none => (none, cs)

/-- The record that starts with a marker here, and the text after it. -/
def recordHere? (cs : List Char) : Option (Record × List Char) := do
  let cs ← strip marker cs
  let name := cs.takeWhile isNameChar
  if name.isEmpty then none
  let cs := cs.dropWhile isNameChar
  match strip ['>', '>', ' '] cs with
  | some cs =>
    let (line, cs) := labelled cs
    let (body, rest) ← splitAtFirst marker cs
    return (⟨String.ofList name, line, String.ofList body⟩, rest)
  | none =>
    let rest ← strip marker cs
    return (⟨String.ofList name, none, ""⟩, rest)

theorem length_labelled_le (cs : List Char) : (labelled cs).2.length ≤ cs.length := by
  have h := length_afterLabel_le cs
  unfold afterLabel at h
  unfold labelled
  split <;> simp_all

theorem length_of_recordHere {cs rest : List Char} {r : Record}
    (h : recordHere? cs = some (r, rest)) : rest.length < cs.length := by
  simp only [recordHere?, Option.bind_eq_bind, Option.bind_eq_some_iff] at h
  obtain ⟨a, ha, h⟩ := h
  have h₁ := length_of_strip ha
  have h₂ := (List.dropWhile_sublist isNameChar (l := a)).length_le
  have hm : marker.length = 8 := rfl
  split at h
  · simp at h
  · simp only [Option.pure_def] at h
    split at h
    · rename_i b hb
      simp only [Option.bind_eq_some_iff, Option.some.injEq, Prod.mk.injEq, Prod.exists] at h
      obtain ⟨p, q, hq, -, rfl⟩ := h
      have h₃ := length_of_strip hb
      have h₄ := length_labelled_le b
      have h₅ := length_of_splitAtFirst hq
      omega
    · simp only [Option.bind_eq_some_iff, Option.some.injEq, Prod.mk.injEq] at h
      obtain ⟨q, hq, -, rfl⟩ := h
      have h₃ := length_of_strip hq
      omega

/-- The records of a text that is one line, the ones found so far in reverse
order. -/
def recordsFrom (found : List Record) (cs : List Char) : List Record :=
  match cs with
  | [] => found.reverse
  | c :: rest =>
    match _h : recordHere? (c :: rest) with
    | some (r, after) => recordsFrom (r :: found) after
    | none => recordsFrom found rest
termination_by cs.length
decreasing_by
  · exact length_of_recordHere _h
  · simp

/-- The records of a text that is one line. -/
def recordsOf (cs : List Char) : List Record := recordsFrom [] cs

/-- Why a run cannot start. -/
inductive TraceError where
  /-- The prologue does not occur in the log. -/
  | missingPrologue
deriving DecidableEq, Repr

/-- The error in words. -/
def TraceError.message : TraceError → String
  | .missingPrologue => "the prologue sent to the compiler does not appear in its output"

/-- The records that a log holds after the first occurrence of the prologue. -/
def tokenize (log prologue : String) : Except TraceError (List Record) :=
  match splitAtFirst prologue.toList (joinLines (withoutReports log.toList)) with
  | some (_, after) => .ok (recordsOf after)
  | none => .error .missingPrologue

/-! ## cleaning -/

/-- `next` on the text after the word `pat`, between any two characters of
which one line end may stand.  A line end counts as such a break first and as
a character of the word second. -/
def stripBroken {α : Type} (next : List Char → Option α) : List Char → List Char → Option α
  | [], cs => next cs
  | _ :: _, [] => none
  | [p], c :: cs => if p = c then next cs else none
  | p :: ps, c :: cs =>
    if p = c then
      match cs with
      | '\n' :: rest => stripBroken next ps rest <|> stripBroken next ps cs
      | _ => stripBroken next ps cs
    else none

/-- The text after a marker at the start of a line, given the line end before it. -/
def markerLine? (cs : List Char) : Option (List Char) :=
  strip ['\n'] cs >>= stripBroken some marker

/-- The text after the prologue and the line end behind it. -/
def afterPrologue? (prologue cs : List Char) : Option (List Char) :=
  stripBroken (strip ['\n']) prologue cs

/-- The text after what is cut out here: the prologue with its line end, or a
stretch from one marker at the start of a line to the next. -/
def afterEcho? (prologue cs : List Char) : Option (List Char) :=
  afterPrologue? prologue cs <|> do
    let span ← markerLine? cs
    let (_, rest) ← seek anywhere markerLine? span
    return rest

theorem length_of_stripBroken {next : List Char → Option (List Char)} {n : Nat}
    (hn : ∀ ds rest, next ds = some rest → rest.length + n ≤ ds.length)
    {pat cs rest : List Char} (h : stripBroken next pat cs = some rest) :
    rest.length + n ≤ cs.length := by
  fun_induction stripBroken next pat cs with
  | case1 cs => exact hn _ _ h
  | case2 => simp at h
  | case3 p cs => have := hn _ _ h; simp only [List.length_cons]; omega
  | case4 => simp at h
  | case5 p ps _ rest' ih₁ ih₂ =>
    simp only [Option.orElse_eq_orElse, Option.orElse_eq_or, Option.or_eq_some_iff] at h
    rcases h with h | ⟨-, h⟩
    · have := ih₁ h; simp only [List.length_cons]; omega
    · have := ih₂ h; simp only [List.length_cons] at this ⊢; omega
  | case6 p ps hps cs hcs ih => have := ih h; simp only [List.length_cons]; omega
  | case7 => simp at h

theorem length_of_markerLine {cs rest : List Char} (h : markerLine? cs = some rest) :
    rest.length < cs.length := by
  simp only [markerLine?, Option.bind_eq_bind, Option.bind_eq_some_iff] at h
  obtain ⟨a, ha, h⟩ := h
  have h₁ := length_of_strip ha
  have h₂ := length_of_stripBroken (n := 0) (by rintro ds r ⟨⟩; simp) h
  simp only [List.length_cons, List.length_nil] at h₁
  omega

theorem length_of_afterEcho {prologue cs rest : List Char}
    (h : afterEcho? prologue cs = some rest) : rest.length < cs.length := by
  unfold afterEcho? at h
  cases hp : afterPrologue? prologue cs with
  | some r =>
    have hr : r = rest := by simpa [hp] using h
    have := length_of_stripBroken (n := 1)
      (fun ds r hd => by have := length_of_strip hd; simp only [List.length_cons,
        List.length_nil] at this; omega) (hr ▸ hp)
    omega
  | none =>
    simp only [hp, Option.bind_eq_bind, Option.pure_def, Option.orElse_eq_orElse,
      Option.orElse_eq_or, Option.none_or, Option.bind_eq_some_iff, Option.some.injEq,
      Prod.exists] at h
    obtain ⟨a, ha, p, q, hq, rfl⟩ := h
    obtain ⟨r, hr, hq⟩ := seek_eq_some hq
    have h₁ := length_of_markerLine ha
    have h₂ := length_of_markerLine hq
    rw [hr, List.length_append] at h₁
    omega

/-- The text without what is cut out; `kept` is the text before this place in
reverse order. -/
def withoutEchoes (prologue kept cs : List Char) : List Char :=
  match cs with
  | [] => kept.reverse
  | c :: rest =>
    match _h : afterEcho? prologue (c :: rest) with
    | some after => withoutEchoes prologue kept after
    | none => withoutEchoes prologue (c :: kept) rest
termination_by cs.length
decreasing_by
  · exact length_of_afterEcho _h
  · simp

/-- The log as the compiler would have written it without instrumentation. -/
def cleanLog (log prologue : String) : String :=
  String.ofList (withoutEchoes prologue.toList [] log.toList)

end FontTrace
