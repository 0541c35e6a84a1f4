import FontTrace.Trace.Record

/-!
# FontTrace.Proofs.Trace.Operands

Operands read back from the body that they were joined to.  A separator takes
the label of a path with it, so operands that begin with a label would lose it;
all others come back as they were.

* `pathLabel?_eq_none` — where no label is read;
* `beginsWithLabel_of_append` — a label ends before a character that no label has;
* `operandsOf_intercalate` — joined operands are read back.
-/

namespace FontTrace

/-! ## labels -/

/-- The label of a path is in front of a text. -/
def BeginsWithLabel (cs : List Char) : Prop :=
  ∃ words ∈ pathLabels, ∃ digits rest, digits ≠ [] ∧ (∀ d ∈ digits, isDecimalDigit d = true) ∧
    cs = words ++ (digits ++ ':' :: rest)

theorem findSome?_strip_pathLabels {words : List Char} (h : words ∈ pathLabels)
    (rest : List Char) : pathLabels.findSome? (strip · (words ++ rest)) = some rest := by
  simp only [pathLabels, List.mem_cons, List.not_mem_nil, or_false] at h
  rcases h with rfl | rfl
  · simp only [pathLabels, List.findSome?_cons, strip_append]
  · -- the two labels differ in their second character
    have hother : strip "Path at line ".toList ("Pen polygon at line ".toList ++ rest) = none := rfl
    simp only [pathLabels, List.findSome?_cons, hother, strip_append]

/-- A label is read with all of its digits. -/
theorem pathLabel?_append {words digits : List Char} (hwords : words ∈ pathLabels)
    (hne : digits ≠ []) (hdigits : ∀ d ∈ digits, isDecimalDigit d = true) (rest : List Char) :
    pathLabel? (words ++ (digits ++ ':' :: rest)) = some (digits, rest) := by
  have hcolon : ∀ c ∈ (':' :: rest).head?, isDecimalDigit c = false := by
    rintro c ⟨⟩
    decide
  have htake := takeWhile_append_of_stop hdigits hcolon
  have hdrop := dropWhile_append_of_stop hdigits hcolon
  have hstrip : strip [':'] (':' :: rest) = some rest := strip_append [':'] rest
  simp only [pathLabel?, findSome?_strip_pathLabels hwords, Option.bind_eq_bind, Option.bind_some,
    htake, hdrop, List.isEmpty_eq_false_iff.mpr hne, Bool.false_eq_true, if_false, hstrip,
    Option.pure_def]

theorem pathLabel?_eq_none {cs : List Char} (h : ¬BeginsWithLabel cs) : pathLabel? cs = none := by
  cases hlabel : pathLabel? cs with
  | none => rfl
  | some found =>
      refine absurd ?_ h
      obtain ⟨digits, rest⟩ := found
      simp only [pathLabel?, Option.bind_eq_bind, Option.bind_eq_some_iff] at hlabel
      obtain ⟨behind, hwords, hlabel⟩ := hlabel
      obtain ⟨words, hmem, hstrip⟩ := List.exists_of_findSome?_eq_some hwords
      split at hlabel
      · simp at hlabel
      · next hne =>
          simp only [Option.pure_def, Option.bind_eq_some_iff, Option.some.injEq,
            Prod.mk.injEq] at hlabel
          obtain ⟨after, hcolon, hdigits, -⟩ := hlabel
          refine ⟨words, hmem, behind.takeWhile isDecimalDigit, after, ?_, ?_, ?_⟩
          · exact fun hnil => hne (List.isEmpty_iff.mpr hnil)
          · exact fun d hd => List.all_eq_true.mp List.all_takeWhile d hd
          · rw [strip_eq_some_iff.mp hstrip, ← List.singleton_append (x := ':'),
              ← strip_eq_some_iff.mp hcolon, List.takeWhile_append_dropWhile]

theorem beginsWithLabel_iff {cs : List Char} : BeginsWithLabel cs ↔ (pathLabel? cs).isSome := by
  constructor
  · rintro ⟨words, hwords, digits, rest, hne, hdigits, rfl⟩
    rw [pathLabel?_append hwords hne hdigits]
    rfl
  · intro hsome
    by_cases h : BeginsWithLabel cs
    · exact h
    · rw [pathLabel?_eq_none h] at hsome
      cases hsome

instance (cs : List Char) : Decidable (BeginsWithLabel cs) :=
  decidable_of_iff _ beginsWithLabel_iff.symm

theorem afterLabel_eq_self {cs : List Char} (h : ¬BeginsWithLabel cs) : afterLabel cs = cs := by
  rw [afterLabel, pathLabel?_eq_none h]

/-- A label ends before a character that no label has. -/
theorem beginsWithLabel_of_append {stop : Char} (hwords : ∀ words ∈ pathLabels, stop ∉ words)
    (hdigit : isDecimalDigit stop = false) (hcolon : stop ≠ ':') {cs rest : List Char}
    (h : BeginsWithLabel (cs ++ stop :: rest)) : BeginsWithLabel cs := by
  obtain ⟨words, hmem, digits, after, hne, hdigits, heq⟩ := h
  have hstop : stop ∉ words ++ (digits ++ [':']) := by
    simp only [List.mem_append, List.mem_singleton, not_or]
    refine ⟨hwords words hmem, fun hd => ?_, hcolon⟩
    rw [hdigits stop hd] at hdigit
    cases hdigit
  have hlabel : cs ++ stop :: rest = (words ++ (digits ++ [':'])) ++ after := by
    rw [heq]
    simp
  rcases List.append_eq_append_iff.mp hlabel with ⟨more, hmore, hrest⟩ | ⟨more, rfl, -⟩
  · cases more with
    | nil =>
        rw [List.append_nil] at hmore
        exact ⟨words, hmem, digits, [], hne, hdigits, hmore.symm⟩
    | cons c more =>
        obtain ⟨rfl, -⟩ := List.cons.inj hrest
        exact absurd (hmore ▸ List.mem_append_right cs List.mem_cons_self) hstop
  · exact ⟨words, hmem, digits, more, hne, hdigits, by simp⟩

/-! ## operands -/

/-- What stands between two operands. -/
def operandSeparator : List Char := ['>', '>', ' ']

/-- A separator that follows a text does not begin in it. -/
theorem separator?_append_eq_none {cs : List Char} (h : ¬operandSeparator <:+: cs)
    (hne : cs ≠ []) (rest : List Char) : separator? (cs ++ (operandSeparator ++ rest)) = none := by
  have hstrip : strip operandSeparator (cs ++ (operandSeparator ++ rest)) = none := by
    match cs, hne with
    | [a], _ => simp [operandSeparator, strip]
    | [a, b], _ => simp [operandSeparator, strip]
    | a :: b :: c :: cs, _ =>
        cases hs : strip operandSeparator (a :: b :: c :: cs ++ (operandSeparator ++ rest)) with
        | none => rfl
        | some after =>
            have heq := strip_eq_some_iff.mp hs
            simp only [operandSeparator, List.cons_append, List.nil_append, List.cons.injEq] at heq
            obtain ⟨rfl, rfl, rfl, -⟩ := heq
            exact absurd ⟨[], cs, rfl⟩ h
  rw [separator?, ← operandSeparator, hstrip, Option.map_none]

theorem separator?_eq_none {cs : List Char} (h : ¬operandSeparator <:+: cs) :
    separator? cs = none := by
  cases hs : strip operandSeparator cs with
  | none => rw [separator?, ← operandSeparator, hs, Option.map_none]
  | some rest => exact absurd ⟨[], rest, (strip_eq_some_iff.mp hs).symm⟩ h

/-- Joined operands are read back, unless one behind a separator begins with a label. -/
theorem operandsOf_intercalate {first : List Char} {others : List (List Char)}
    (hsep : ∀ f ∈ first :: others, ¬operandSeparator <:+: f)
    (hlabel : ∀ f ∈ others, ¬BeginsWithLabel f) :
    operandsOf (operandSeparator.intercalate (first :: others)) = first :: others := by
  induction others generalizing first with
  | nil =>
      have hnone : seek anywhere separator? first = none := by
        refine seek_eq_none fun s hs => separator?_eq_none fun hoccurs => ?_
        exact hsep first List.mem_cons_self (hoccurs.trans hs.isInfix)
      rw [List.intercalate_singleton, operandsOf]
      split
      · rfl
      · next hsome =>
          rw [hnone] at hsome
          cases hsome
  | cons f others ih =>
      have hfirst : ¬BeginsWithLabel (operandSeparator.intercalate (f :: others)) := by
        cases others with
        | nil =>
            rw [List.intercalate_singleton]
            exact hlabel f List.mem_cons_self
        | cons f' others =>
            rw [List.intercalate_cons_cons, List.append_assoc]
            refine fun h => hlabel f List.mem_cons_self ?_
            have hstop : ∀ words ∈ pathLabels, '>' ∉ words := by decide
            exact beginsWithLabel_of_append hstop (by decide) (by decide) h
      have hsome : seek anywhere separator? (operandSeparator.intercalate (first :: f :: others)) =
          some (first, operandSeparator.intercalate (f :: others)) := by
        rw [List.intercalate_cons_cons, List.append_assoc]
        refine seek_append (fun s hs hne => ?_) ?_
        · refine separator?_append_eq_none (fun hoccurs => ?_) hne _
          exact hsep first List.mem_cons_self (hoccurs.trans hs.isInfix)
        · rw [separator?, ← operandSeparator, strip_append, Option.map_some,
            afterLabel_eq_self hfirst]
      rw [operandsOf]
      split
      · next hnone =>
          rw [hsome] at hnone
          cases hnone
      · next hfound =>
          rw [hsome] at hfound
          obtain ⟨rfl, rfl⟩ := Prod.mk.inj (Option.some.inj hfound)
          rw [ih (fun g hg => hsep g (List.mem_cons_of_mem first hg))
            fun g hg => hlabel g (List.mem_cons_of_mem f hg)]

/-- The operands of a record are those that its body was joined from. -/
theorem Record.fields_of_joined {r : Record} {first : String} {others : List String}
    (hbody : r.body = ">> ".intercalate (first :: others))
    (hsep : ∀ f ∈ first :: others, ¬operandSeparator <:+: f.toList)
    (hlabel : ∀ f ∈ others, ¬BeginsWithLabel f.toList) : r.fields = first :: others := by
  have hread : operandsOf r.body.toList = (first :: others).map String.toList := by
    rw [hbody, String.toList_intercalate, List.map_cons]
    exact operandsOf_intercalate (by simpa using hsep) (by simpa using hlabel)
  rw [Record.fields, hread, List.map_map]
  simp

end FontTrace
