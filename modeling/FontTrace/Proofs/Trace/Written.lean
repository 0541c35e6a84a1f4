import FontTrace.Proofs.Trace.Operands
import FontTrace.Proofs.Trace.Prologue
import Mathlib.Tactic.MkIffOfInductiveProp

/-!
# FontTrace.Proofs.Trace.Written

Records read back from the log that the compiler wrote them to.  The form of
the log is stated on its own: how a record is spelled between two markers
(`Spelling`), what stands around records (`Written`), and that lines may be
broken anywhere (`Wrapped`).

* `recordHere?_spelled` — one record is read back;
* `recordsFrom_written` — so are all records of a text;
* `exists_gap` — a prologue that is found too early hides no record;
* `tokenize_written` — a log is read back, and so are the operands in it.
-/

namespace FontTrace

/-! ## the form of a log -/

/-- The records that can be written: a body must not be taken for the end of
its record or for a label. -/
@[mk_iff]
structure Record.Printable (r : Record) : Prop where
  name_ne_nil : r.name.toList ≠ []
  name : ∀ c ∈ r.name.toList, isNameChar c = true
  line : ∀ n ∈ r.line, fits32 n = true
  marker : '@' ∉ r.body.toList
  oneLine : ∀ c ∈ r.body.toList, isLineEnd c = false
  label : ¬BeginsWithLabel r.body.toList

-- the texts are gone through; there is also an instance that tries all characters
instance (r : Record) : Decidable r.Printable :=
  haveI := List.decidableBAll (isNameChar · = true) r.name.toList
  haveI := List.decidableBAll (isLineEnd · = false) r.body.toList
  decidable_of_iff _ (Record.printable_iff r).symm

/-- What stands between the markers of a record. -/
inductive Spelling : Record → List Char → Prop
  | bare (name : String) : Spelling ⟨name, none, ""⟩ name.toList
  | plain (name body : String) :
      Spelling ⟨name, none, body⟩ (name.toList ++ (operandSeparator ++ body.toList))
  | labelled (name body : String) (line : Nat) {words : List Char} (h : words ∈ pathLabels) :
      Spelling ⟨name, some line, body⟩ (name.toList ++ (operandSeparator ++
        (words ++ (Nat.toDigits 10 line ++ ':' :: body.toList))))

/-- Records in their markers, with any text in front of them, between them and
behind them. -/
inductive Written : List Record → List Char → Prop
  | nil {noise : List Char} (h : '@' ∉ noise) : Written [] noise
  | cons {noise spelled rest : List Char} {r : Record} {records : List Record}
      (h : '@' ∉ noise) (hr : Spelling r spelled) (hrecords : Written records rest) :
      Written (r :: records) (noise ++ (marker ++ (spelled ++ (marker ++ rest))))

/-- A text with line ends put in. -/
inductive Wrapped : List Char → List Char → Prop
  | nil : Wrapped [] []
  | keep (c : Char) {text log : List Char} (h : Wrapped text log) :
      Wrapped (c :: text) (c :: log)
  | lineEnd {c : Char} (hc : isLineEnd c = true) {text log : List Char} (h : Wrapped text log) :
      Wrapped text (c :: log)

/-! ## line ends -/

theorem joinLines_cons (c : Char) (cs : List Char) :
    joinLines (c :: cs) = if isLineEnd c then joinLines cs else c :: joinLines cs := by
  rw [joinLines_eq_filter, joinLines_eq_filter, List.filter_cons]
  cases isLineEnd c <;> rfl

theorem not_mem_joinLines {c : Char} {cs : List Char} (h : c ∉ cs) : c ∉ joinLines cs :=
  fun hmem => h (List.mem_filter.mp hmem).1

theorem Wrapped.joinLines_eq {text log : List Char} (h : Wrapped text log) :
    joinLines log = joinLines text := by
  induction h with
  | nil => rfl
  | keep c h ih => rw [joinLines_cons, joinLines_cons, ih]
  | lineEnd hc h ih => rw [joinLines_cons, if_pos hc, ih]

theorem Wrapped.sublist {text log : List Char} (h : Wrapped text log) : text.Sublist log := by
  induction h with
  | nil => exact .slnil
  | keep c h ih => exact ih.cons_cons c
  | lineEnd hc h ih => exact ih.cons _

/-- A text is wrapped if nothing but line ends was put into it. -/
theorem wrapped_iff {text log : List Char} :
    Wrapped text log ↔ text.Sublist log ∧ joinLines log = joinLines text := by
  constructor
  · intro h
    exact ⟨h.sublist, h.joinLines_eq⟩
  · rintro ⟨hsub, hjoin⟩
    induction hsub with
    | slnil => exact .nil
    | @cons text log c hsub ih =>
        rw [joinLines_cons] at hjoin
        split at hjoin
        · next hc => exact .lineEnd hc (ih hjoin)
        · -- a character that was put in would make the log longer
          have hle : (joinLines text).length ≤ (joinLines log).length :=
            (hsub.filter _).length_le
          rw [← hjoin, List.length_cons] at hle
          omega
    | @cons_cons text log c hsub ih =>
        rw [joinLines_cons, joinLines_cons] at hjoin
        split at hjoin
        · exact .keep c (ih hjoin)
        · exact .keep c (ih (List.cons.inj hjoin).2)

instance (text log : List Char) : Decidable (Wrapped text log) :=
  decidable_of_iff _ wrapped_iff.symm

/-- Characters of a class without line ends are no line ends. -/
theorem not_isLineEnd_of {p : Char → Bool} (hlf : p '\n' = false) (hcr : p '\r' = false)
    {c : Char} (h : p c = true) : isLineEnd c = false := by
  cases hc : isLineEnd c with
  | false => rfl
  | true =>
      simp only [isLineEnd, Bool.or_eq_true, beq_iff_eq] at hc
      rcases hc with rfl | rfl
      · rw [hlf] at h
        cases h
      · rw [hcr] at h
        cases h

theorem not_isLineEnd_of_mem_toDigits {n : Nat} {c : Char} (h : c ∈ Nat.toDigits 10 n) :
    isLineEnd c = false :=
  not_isLineEnd_of (by decide) (by decide) (Nat.isDigit_of_mem_toDigits (by decide) (by decide) h)

/-- A record is written in one line. -/
theorem Spelling.joinLines_eq {r : Record} {spelled : List Char} (h : Spelling r spelled)
    (hr : r.Printable) : joinLines spelled = spelled := by
  have hname : joinLines r.name.toList = r.name.toList :=
    joinLines_eq_self_iff.mpr fun c hc =>
      not_isLineEnd_of (by decide) (by decide) (hr.name c hc)
  have hbody : joinLines r.body.toList = r.body.toList := joinLines_eq_self_iff.mpr hr.oneLine
  cases h with
  | bare name => exact hname
  | plain name body =>
      rw [joinLines_append, joinLines_append, hname, hbody]
      rfl
  | labelled name body line hwords =>
      have hlabel : ∀ words ∈ pathLabels, joinLines words = words := by decide
      have hdigits : joinLines (Nat.toDigits 10 line) = Nat.toDigits 10 line :=
        joinLines_eq_self_iff.mpr fun c hc => not_isLineEnd_of_mem_toDigits hc
      rw [joinLines_append, joinLines_append, joinLines_append, joinLines_append, joinLines_cons,
        hname, hbody, hlabel _ hwords, hdigits]
      rfl

/-- Line ends stand between records, and are not missed there. -/
theorem Written.joinLines {records : List Record} {text : List Char} (h : Written records text)
    (hrecords : ∀ r ∈ records, r.Printable) : Written records (joinLines text) := by
  induction h with
  | nil h => exact .nil (not_mem_joinLines h)
  | cons h hr _ ih =>
      have hmarker : FontTrace.joinLines marker = marker := rfl
      rw [joinLines_append, joinLines_append, joinLines_append, joinLines_append, hmarker,
        hr.joinLines_eq (hrecords _ List.mem_cons_self)]
      exact .cons (not_mem_joinLines h) hr (ih fun r hr => hrecords r (List.mem_cons_of_mem _ hr))

/-! ## one record -/

theorem strip_marker_eq_none {c : Char} (h : c ≠ '@') (cs : List Char) :
    strip marker (c :: cs) = none :=
  if_neg (Ne.symm h)

/-- A body ends at the next marker. -/
theorem splitAtFirst_marker {body : List Char} (h : '@' ∉ body) (rest : List Char) :
    splitAtFirst marker (body ++ (marker ++ rest)) = some (body, rest) := by
  refine seek_append (fun s hs hne => ?_) (strip_append marker rest)
  obtain ⟨c, cs, rfl⟩ := List.exists_cons_of_ne_nil hne
  exact strip_marker_eq_none (fun hc => h (hs.subset (hc ▸ List.mem_cons_self))) _

theorem lineNumber?_toDigits {n : Nat} (h : fits32 n = true) :
    lineNumber? (Nat.toDigits 10 n) = some n := by
  rw [lineNumber?, natOfDigits?_toDigits, Option.filter_some, if_pos h]

/-- A name ends before the first character that no name has. -/
theorem recordHere?_append {name cs : List Char} (hne : name ≠ [])
    (hname : ∀ c ∈ name, isNameChar c = true) (hstop : ∀ c ∈ cs.head?, isNameChar c = false) :
    recordHere? (marker ++ (name ++ cs)) =
      match strip operandSeparator cs with
      | some cs => (splitAtFirst marker (labelled cs).2).map fun (body, rest) =>
          (⟨String.ofList name, (labelled cs).1, String.ofList body⟩, rest)
      | none => (strip marker cs).map fun rest => (⟨String.ofList name, none, ""⟩, rest) := by
  have htake := takeWhile_append_of_stop hname hstop
  have hdrop := dropWhile_append_of_stop hname hstop
  have hseparator : ['>', '>', ' '] = operandSeparator := rfl
  simp only [recordHere?, strip_append, Option.bind_eq_bind, Option.bind_some, htake, hdrop,
    List.isEmpty_eq_false_iff.mpr hne, Bool.false_eq_true, if_false, hseparator]
  cases strip operandSeparator cs with
  | none => cases strip marker cs <;> rfl
  | some behind =>
      dsimp only
      cases splitAtFirst marker (labelled behind).2 <;> rfl

/-- A record is read back. -/
theorem recordHere?_spelled {r : Record} {spelled : List Char} (hr : r.Printable)
    (h : Spelling r spelled) (rest : List Char) :
    recordHere? (marker ++ (spelled ++ (marker ++ rest))) = some (r, rest) := by
  have hsplit := splitAtFirst_marker hr.marker rest
  cases h with
  | bare name =>
      rw [recordHere?_append hr.name_ne_nil hr.name (by rintro c ⟨⟩; decide)]
      have hseparator : strip operandSeparator (marker ++ rest) = none := rfl
      simp only [hseparator, strip_append, Option.map_some, String.ofList_toList]
  | plain name body =>
      have hstop : ∀ words ∈ pathLabels, '@' ∉ words := by decide
      have hlabel : pathLabel? (body.toList ++ (marker ++ rest)) = none :=
        pathLabel?_eq_none fun h =>
          hr.label (beginsWithLabel_of_append hstop (by decide) (by decide) h)
      rw [List.append_assoc, List.append_assoc,
        recordHere?_append hr.name_ne_nil hr.name (by rintro c ⟨⟩; decide)]
      simp only [strip_append, labelled, hlabel, hsplit, Option.map_some, String.ofList_toList]
  | labelled name body line hwords =>
      have hdigits : ∀ d ∈ Nat.toDigits 10 line, isDecimalDigit d = true := fun d hd =>
        isDecimalDigit_of_isDigit (Nat.isDigit_of_mem_toDigits (by decide) (by decide) hd)
      have hlabel := pathLabel?_append hwords Nat.toDigits_ne_nil hdigits
        (body.toList ++ (marker ++ rest))
      simp only [List.append_assoc, List.cons_append]
      rw [recordHere?_append hr.name_ne_nil hr.name (by rintro c ⟨⟩; decide)]
      simp only [strip_append, labelled, hlabel, hsplit, lineNumber?_toDigits (hr.line line rfl),
        Option.map_some, String.ofList_toList]

/-! ## all records -/

theorem recordHere?_eq_none {c : Char} (h : c ≠ '@') (cs : List Char) :
    recordHere? (c :: cs) = none := by
  simp only [recordHere?, strip_marker_eq_none h, Option.bind_eq_bind, Option.bind_none]

/-- There are no records in a text without markers. -/
theorem recordsFrom_noise {noise : List Char} (h : '@' ∉ noise) (found : List Record)
    (cs : List Char) : recordsFrom found (noise ++ cs) = recordsFrom found cs := by
  induction noise with
  | nil => rfl
  | cons c noise ih =>
      rw [List.mem_cons, not_or] at h
      have hnone := recordHere?_eq_none (Ne.symm h.1) (noise ++ cs)
      rw [List.cons_append, recordsFrom]
      split
      · next hsome =>
          rw [hnone] at hsome
          cases hsome
      · exact ih h.2

theorem recordsFrom_of_recordHere {cs rest : List Char} {r : Record}
    (h : recordHere? cs = some (r, rest)) (found : List Record) :
    recordsFrom found cs = recordsFrom (r :: found) rest := by
  cases cs with
  | nil => cases h
  | cons c cs =>
      rw [recordsFrom]
      split
      · next hsome =>
          rw [h] at hsome
          obtain ⟨rfl, rfl⟩ := Prod.mk.inj (Option.some.inj hsome)
          rfl
      · next hnone =>
          rw [h] at hnone
          cases hnone

/-- The records of a text are read back in order. -/
theorem recordsFrom_written {records : List Record} {text : List Char} (h : Written records text)
    (hrecords : ∀ r ∈ records, r.Printable) (found : List Record) :
    recordsFrom found text = found.reverse ++ records := by
  induction h generalizing found with
  | @nil noise h =>
      rw [← List.append_nil noise, recordsFrom_noise h, recordsFrom, List.append_nil]
  | cons h hr _ ih =>
      have hhere := recordHere?_spelled (hrecords _ List.mem_cons_self) hr
      rw [recordsFrom_noise h, recordsFrom_of_recordHere (hhere _),
        ih fun r hr => hrecords r (List.mem_cons_of_mem _ hr)]
      simp

/-! ## the log -/

/-- What is behind the first occurrence of the prologue and in front of the
text holds no marker: all the markers there are belong to one prologue. -/
theorem exists_gap {front : List Char} (hfront : '@' ∉ front) (prologue text : List Char) :
    ∃ skipped gap, splitAtFirst prologue (front ++ (prologue ++ text)) =
      some (skipped, gap ++ text) ∧ '@' ∉ gap := by
  obtain ⟨skipped, rest, hsplit, more, rfl⟩ := exists_splitAtFirst front prologue text
  have heq := splitAtFirst_eq_some hsplit
  rw [List.append_assoc, List.append_cancel_left_eq, ← List.append_assoc] at heq
  have hmore : '@' ∉ more := fun h => hfront (List.mem_append_right skipped h)
  rcases List.append_eq_append_iff.mp heq with ⟨gap, hlong, rfl⟩ | ⟨gap, hgap, rfl⟩
  · have hlength := congrArg List.length hlong
    simp only [List.length_append] at hlength
    have hnil : gap = [] := List.length_eq_zero_iff.mp (by omega)
    exact ⟨skipped, [], by rw [hsplit, hnil, List.nil_append, List.nil_append], List.not_mem_nil⟩
  · refine ⟨skipped, gap, hsplit, ?_⟩
    have hcount := congrArg (List.count '@') hgap
    rw [List.count_append, List.count_append, List.count_eq_zero.mpr hmore] at hcount
    exact List.count_eq_zero.mp (by omega)

/-- The records of a log are read back, in order and with the operations that
their names stand for, and so are the operands that a body was joined from. -/
theorem tokenize_written {prologue log : String} {front text : List Char} {records : List Record}
    (hprologue : ∀ c ∈ prologue.toList, isLineEnd c = false) (hfront : '@' ∉ front)
    (hrecords : ∀ r ∈ records, r.Printable) (htext : Written records text)
    (hlog : Wrapped (front ++ (prologue.toList ++ text)) log.toList)
    (hreports : ¬reportStart <:+: log.toList) :
    tokenize log prologue = .ok records ∧
      ∀ (r : Record) (first : String) (others : List String),
        r.body = ">> ".intercalate (first :: others) →
        (∀ f ∈ first :: others, ¬operandSeparator <:+: f.toList) →
        (∀ f ∈ others, ¬BeginsWithLabel f.toList) → r.fields = first :: others := by
  refine ⟨?_, fun r first others hbody hsep hlabel => r.fields_of_joined hbody hsep hlabel⟩
  have hline : joinLines (withoutReports log.toList) =
      joinLines front ++ (prologue.toList ++ joinLines text) := by
    have hlines : ∀ line ∈ piecesBetween '\n' log.toList, ¬reportStart <+: line :=
      fun line hline hreport =>
        hreports (hreport.isInfix.trans (infix_of_mem_piecesBetween hline))
    rw [withoutReports_eq_self hlines, hlog.joinLines_eq, joinLines_append, joinLines_append,
      joinLines_eq_self_iff.mpr hprologue]
  obtain ⟨skipped, gap, hsplit, hgap⟩ :=
    exists_gap (not_mem_joinLines hfront) prologue.toList (joinLines text)
  rw [tokenize, hline, hsplit]
  simp only [recordsOf, recordsFrom_noise hgap,
    recordsFrom_written (htext.joinLines hrecords) hrecords, List.reverse_nil, List.nil_append]

/-- A log with lines broken in the prologue, in a marker and in a label. -/
theorem tokenize_written_in_broken_lines :
    let records : List Record :=
      [⟨"picture", none, "\"a\">> \"b\""⟩, ⟨"contour", some 12, "(0,0)"⟩, ⟨"=:|", none, ""⟩]
    let prologue := "input mf2vec"
    let front := "**".toList
    let text := "\n(a".toList ++ (marker ++ (("picture".toList ++ (operandSeparator ++
      "\"a\">> \"b\"".toList)) ++ (marker ++ ([] ++ (marker ++ (("contour".toList ++
      (operandSeparator ++ ("Path at line ".toList ++ (Nat.toDigits 10 12 ++ ':' ::
      "(0,0)".toList)))) ++ (marker ++ ([' '] ++ (marker ++ ("=:|".toList ++
      (marker ++ [')'])))))))))))
    let broken := "**input mf\n2vec\n(a@mf2vec@picture\r\n>> \"a\">> \"b\"@mf".toList ++
      "2v\nec@@mf2vec@contour>> Path at line 1\n2:(0,0)\n@mf2vec@ @mf2vec@=:|@mf2vec@)".toList
    let log := String.ofList broken
    (∀ c ∈ prologue.toList, isLineEnd c = false) ∧ '@' ∉ front ∧
    (∀ r ∈ records, r.Printable) ∧ Written records text ∧
    Wrapped (front ++ (prologue.toList ++ text)) log.toList ∧ ¬reportStart <:+: log.toList ∧
    tokenize log prologue = .ok records ∧
      ∀ (r : Record) (first : String) (others : List String),
        r.body = ">> ".intercalate (first :: others) →
        (∀ f ∈ first :: others, ¬operandSeparator <:+: f.toList) →
        (∀ f ∈ others, ¬BeginsWithLabel f.toList) → r.fields = first :: others := by
  intro records prologue front text broken log
  have hbroken : log.toList = broken := String.toList_ofList
  have hprologue : ∀ c ∈ prologue.toList, isLineEnd c = false :=
    joinLines_eq_self_iff.mp (by decide)
  have hfront : '@' ∉ front := by decide
  have hrecords : ∀ r ∈ records, r.Printable := by decide +kernel
  have htext : Written records text := by
    refine .cons (by decide) (.plain _ _) (.cons (by decide) (.labelled _ _ _ ?_) ?_)
    · exact List.mem_cons_self
    · exact .cons (by decide) (.bare _) (.nil (by decide))
  have hlog : Wrapped (front ++ (prologue.toList ++ text)) log.toList := by
    rw [hbroken]
    decide +kernel
  have hreports : ¬reportStart <:+: log.toList := by
    rw [hbroken]
    decide +kernel
  exact ⟨hprologue, hfront, hrecords, htext, hlog, hreports,
    tokenize_written hprologue hfront hrecords htext hlog hreports⟩

end FontTrace
