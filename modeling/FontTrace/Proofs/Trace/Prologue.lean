import FontTrace.Trace.Log

/-!
# FontTrace.Proofs.Trace.Prologue

When the prologue is found in a log.  It is not looked for in the log itself,
but in what is left of it when error reports and line ends are gone:

* `withoutReports_eq_self` — a log stays as it is if no line of it begins like a report;
* `joinLines_eq_self_iff` — a text stays as it is if it is one line;
* `exists_tokenize_iff` — the prologue has to occur in what is left;
* `prologue_found_iff_one_line` — a prologue that occurs in a log without
  reports is found if it is one line, and only then.
-/

namespace FontTrace

/-! ## error reports -/

/-- What a report begins with, at the start of a line. -/
def reportStart : List Char := ['!', ' ']

theorem afterReport?_eq_none {cs : List Char} (h : ¬reportStart <+: cs) :
    afterReport? cs = none := by
  cases hstrip : strip ['!', ' '] cs with
  | none => simp [afterReport?, hstrip]
  | some rest => exact absurd ⟨rest, (strip_eq_some_iff.mp hstrip).symm⟩ h

section Scan

variable {atStart : Bool} {c : Char} {cs kept : List Char}

theorem withoutReportsFrom_of_none
    (h : (if atStart then afterReport? (c :: cs) else none) = none) :
    withoutReportsFrom kept atStart (c :: cs) = withoutReportsFrom (c :: kept) (c == '\n') cs := by
  rw [withoutReportsFrom]
  split
  · next after hsome =>
      rw [h] at hsome
      cases hsome
  · rfl

/-- No line of a text begins like a report.  The lines behind the first one are full
lines, and the first one is if the text is at the start of a line. -/
structure ReportFree (atStart : Bool) (cs : List Char) : Prop where
  first : atStart = true → ¬reportStart <+: cs
  others : ∀ line ∈ (piecesBetween '\n' cs).tail, ¬reportStart <+: line

theorem reportFree_of_lines (h : ∀ line ∈ piecesBetween '\n' cs, ¬reportStart <+: line) :
    ReportFree true cs := by
  obtain ⟨others, hpieces⟩ := exists_piecesBetween '\n' cs
  refine ⟨fun _ hreport => ?_, fun line hline => h line (List.mem_of_mem_tail hline)⟩
  refine h (cs.takeWhile (· != '\n')) (by simp [hpieces]) ?_
  obtain ⟨after, rfl⟩ := hreport
  exact ⟨after.takeWhile (· != '\n'), rfl⟩

theorem ReportFree.afterReport?_eq_none (h : ReportFree atStart cs) :
    (if atStart then afterReport? cs else none) = none := by
  cases atStart with
  | false => rfl
  | true => exact FontTrace.afterReport?_eq_none (h.first rfl)

theorem ReportFree.rest (h : ReportFree atStart (c :: cs)) : ReportFree (c == '\n') cs := by
  obtain ⟨others, hpieces⟩ := exists_piecesBetween '\n' cs
  refine ⟨fun hc hreport => ?_, fun line hline => h.others line ?_⟩
  · have hline : cs.takeWhile (· != '\n') ∈ (piecesBetween '\n' (c :: cs)).tail := by
      simp [piecesBetween, eq_of_beq hc, hpieces]
    obtain ⟨after, rfl⟩ := hreport
    exact h.others _ hline ⟨after.takeWhile (· != '\n'), rfl⟩
  · by_cases hc : c = '\n'
    · simp only [piecesBetween, hc, if_true, List.tail_cons]
      exact List.mem_of_mem_tail hline
    · simpa [piecesBetween, hc, hpieces] using hline

/-- A text stays as it is if no line of it begins like a report. -/
theorem withoutReportsFrom_eq (h : ReportFree atStart cs) :
    withoutReportsFrom kept atStart cs = kept.reverse ++ cs := by
  induction cs generalizing kept atStart with
  | nil => simp [withoutReportsFrom]
  | cons c cs ih =>
      rw [withoutReportsFrom_of_none h.afterReport?_eq_none, ih h.rest]
      simp

/-- A log stays as it is if no line of it begins like a report. -/
theorem withoutReports_eq_self (h : ∀ line ∈ piecesBetween '\n' cs, ¬reportStart <+: line) :
    withoutReports cs = cs :=
  withoutReportsFrom_eq (reportFree_of_lines h)

end Scan

/-! ## line ends -/

/-- The characters that may stand where a line is broken. -/
def isLineEnd (c : Char) : Bool := c == '\n' || c == '\r'

theorem joinLines_eq_filter (cs : List Char) : joinLines cs = cs.filter fun c => !isLineEnd c := by
  refine List.filter_congr fun c _ => ?_
  simp [isLineEnd, bne]

theorem joinLines_append (cs ds : List Char) :
    joinLines (cs ++ ds) = joinLines cs ++ joinLines ds :=
  List.filter_append _ _

/-- A text stays as it is if it is one line. -/
theorem joinLines_eq_self_iff {cs : List Char} :
    joinLines cs = cs ↔ ∀ c ∈ cs, isLineEnd c = false := by
  rw [joinLines_eq_filter, List.filter_eq_self]
  simp

theorem not_isLineEnd_of_mem_joinLines {cs : List Char} {c : Char} (h : c ∈ joinLines cs) :
    isLineEnd c = false := by
  rw [joinLines_eq_filter, List.mem_filter] at h
  simpa using h.2

/-! ## the prologue -/

/-- Records can be read if the prologue occurs in what is left of the log. -/
theorem exists_tokenize_iff (log prologue : String) :
    (∃ records, tokenize log prologue = .ok records) ↔
      prologue.toList <:+: joinLines (withoutReports log.toList) := by
  rw [← splitAtFirst_isSome_iff, tokenize]
  cases splitAtFirst prologue.toList (joinLines (withoutReports log.toList)) with
  | none => simp
  | some parts => simp

/-- A prologue that occurs in a log without reports is found if and only if it
is one line: line ends are dropped from the log and not from the prologue. -/
theorem prologue_found_iff_one_line (log prologue : String)
    (hlines : ∀ line ∈ piecesBetween '\n' log.toList, ¬reportStart <+: line)
    (hoccurs : prologue.toList <:+: log.toList) :
    (∃ records, tokenize log prologue = .ok records) ↔
      ∀ c ∈ prologue.toList, isLineEnd c = false := by
  rw [exists_tokenize_iff, withoutReports_eq_self hlines]
  constructor
  · intro hfound c hc
    exact not_isLineEnd_of_mem_joinLines (hfound.subset hc)
  · intro hline
    obtain ⟨before, after, heq⟩ := hoccurs
    refine ⟨joinLines before, joinLines after, ?_⟩
    rw [← heq, joinLines_append, joinLines_append, joinLines_eq_self_iff.mpr hline]

/-- A prologue in one line, with lines in front of it and behind it. -/
theorem prologue_found_in_echoed_line :
    let log := "This is METAFONT\n**\\mode:=mf2vec; input font\n(font.mf\n@mf2vec@end>> 10\n@mf2vec@"
    let prologue := "\\mode:=mf2vec; input font"
    (∀ line ∈ piecesBetween '\n' log.toList, ¬reportStart <+: line) ∧
    prologue.toList <:+: log.toList ∧
    ((∃ records, tokenize log prologue = .ok records) ↔
      ∀ c ∈ prologue.toList, isLineEnd c = false) := by
  intro log prologue
  have hlines : ∀ line ∈ piecesBetween '\n' log.toList, ¬reportStart <+: line := by decide +kernel
  have hoccurs : prologue.toList <:+: log.toList := by decide +kernel
  exact ⟨hlines, hoccurs, prologue_found_iff_one_line log prologue hlines hoccurs⟩

/-- A prologue of two lines is not found, though the log begins with it. -/
theorem prologue_of_two_lines_not_found :
    let prologue := "mode:=mf2vec;\ninput font"
    let log := "mode:=mf2vec;\ninput font\n@mf2vec@end>> 10@mf2vec@\n"
    prologue ≠ "" ∧ prologue.toList <:+: log.toList ∧
    (∀ line ∈ piecesBetween '\n' log.toList, ¬reportStart <+: line) ∧
    tokenize log prologue = .error .missingPrologue := by
  intro prologue log
  have hnone : splitAtFirst prologue.toList (joinLines (withoutReports log.toList)) = none := by
    decide +kernel
  refine ⟨by decide, by decide +kernel, by decide +kernel, ?_⟩
  rw [tokenize, hnone]

end FontTrace
