import FontTrace.Proofs.Trace.Prologue

/-!
# FontTrace.Proofs.Trace.Reports

Error reports leave no trace in what is read.  A report begins with `! ` at the start of a line
and ends with the first empty line behind the first line that begins with `l.`; between these,
markers and even the prologue may stand.

* `afterReport?_report` — a report is recognized up to its own empty line, whatever follows;
* `withoutReportsFrom_lines` — full lines that begin no report are kept;
* `withoutReports_report` — a report between full lines and any other text is cut out, and
  nothing else changes;
* `tokenize_of_report` — so the log with the report has the records of the log without it.
-/

namespace FontTrace

/-! ## one report -/

/-- What the line with the place of an error begins with, behind a line end. -/
def contextStart : List Char := ['\n', 'l', '.']

/-- The end of a line and an empty line. -/
def emptyLine : List Char := ['\n', '\n']

/-- An error report: the message, and the place in the source where it was found. -/
def errorReport (message context : List Char) : List Char :=
  reportStart ++ (message ++ (contextStart ++ (context ++ emptyLine)))

section Report

variable {message context : List Char}

/-- The place of the error is behind all of the message. -/
theorem splitAtFirst_message (h : ¬contextStart <:+: message) (after : List Char) :
    splitAtFirst contextStart (message ++ (contextStart ++ after)) = some (message, after) := by
  refine splitAtFirst_append (fun s hs hne hpre => ?_) after
  match s, hne with
  | [a], _ => simp [contextStart] at hpre
  | [a, b], _ => simp [contextStart] at hpre
  | a :: b :: c :: s, _ =>
      simp only [contextStart, List.cons_append, List.cons_prefix_cons] at hpre
      obtain ⟨rfl, rfl, rfl, -⟩ := hpre
      exact h (List.IsInfix.trans ⟨[], s, rfl⟩ hs.isInfix)

/-- The report ends behind all of the context. -/
theorem splitAtFirst_context (h : ¬emptyLine <:+: context) (hend : context.getLast? ≠ some '\n')
    (after : List Char) :
    splitAtFirst emptyLine (context ++ (emptyLine ++ after)) = some (context, after) := by
  refine splitAtFirst_append (fun s hs hne hpre => ?_) after
  match s, hne with
  | [a], _ =>
      simp only [emptyLine, List.cons_append, List.cons_prefix_cons] at hpre
      obtain ⟨rfl, -⟩ := hpre
      obtain ⟨front, rfl⟩ := hs
      exact hend List.getLast?_concat
  | a :: b :: s, _ =>
      simp only [emptyLine, List.cons_append, List.cons_prefix_cons] at hpre
      obtain ⟨rfl, rfl, -⟩ := hpre
      exact h (List.IsInfix.trans ⟨[], s, rfl⟩ hs.isInfix)

/-- A report is recognized up to its own end, whatever follows it. -/
theorem afterReport?_report (hmessage : ¬contextStart <:+: message)
    (hcontext : ¬emptyLine <:+: context) (hend : context.getLast? ≠ some '\n')
    (after : List Char) : afterReport? (errorReport message context ++ after) = some after := by
  have hstart : ['!', ' '] = reportStart := rfl
  have hplace : ['\n', 'l', '.'] = contextStart := rfl
  have hempty : ['\n', '\n'] = emptyLine := rfl
  have hmessage := splitAtFirst_message hmessage (context ++ (emptyLine ++ after))
  have hcontext := splitAtFirst_context hcontext hend after
  simp only [errorReport, List.append_assoc, afterReport?, hstart, hplace, hempty, strip_append,
    Option.bind_eq_bind, Option.bind_some, hmessage, hcontext, Option.pure_def]

end Report

/-! ## the text around it -/

section Scan

variable {atStart : Bool} {cs kept lines : List Char}

theorem withoutReportsFrom_of_report {after : List Char} (h : afterReport? cs = some after) :
    withoutReportsFrom kept true cs = withoutReportsFrom kept true after := by
  cases cs with
  | nil => cases h
  | cons c cs =>
      rw [withoutReportsFrom]
      split
      · next hsome =>
          rw [if_pos rfl, h] at hsome
          rw [Option.some.inj hsome]
      · next hnone =>
          rw [if_pos rfl, h] at hnone
          cases hnone

/-- What a line begins with does not change with what is behind its end. -/
theorem afterReport?_append_eq_none (h : ReportFree atStart lines)
    (hend : lines.getLast? = some '\n') (rest : List Char) :
    (if atStart then afterReport? (lines ++ rest) else none) = none := by
  cases atStart with
  | false => rfl
  | true =>
      refine afterReport?_eq_none fun hreport => ?_
      match lines, hend with
      | [c], hend =>
          obtain rfl : c = '\n' := by simpa using hend
          simp [reportStart] at hreport
      | a :: b :: lines, _ =>
          simp only [reportStart, List.cons_append, List.cons_prefix_cons] at hreport
          obtain ⟨rfl, rfl, -⟩ := hreport
          exact h.first rfl ⟨lines, rfl⟩

/-- Full lines that begin no report are kept, and behind them a line starts. -/
theorem withoutReportsFrom_lines (h : ReportFree atStart lines)
    (hend : lines.getLast? = some '\n') (rest : List Char) :
    withoutReportsFrom kept atStart (lines ++ rest) =
      withoutReportsFrom (lines.reverse ++ kept) true rest := by
  induction lines generalizing kept atStart with
  | nil => cases hend
  | cons c lines ih =>
      have hnone := afterReport?_append_eq_none h hend rest
      rw [List.cons_append] at hnone ⊢
      rw [withoutReportsFrom_of_none hnone]
      cases lines with
      | nil =>
          obtain rfl : c = '\n' := by simpa using hend
          rfl
      | cons d lines =>
          rw [ih h.rest (by simpa using hend)]
          simp

/-- A report between full lines and any other text is cut out, and nothing else changes. -/
theorem withoutReports_report {message context : List Char}
    (hlines : ∀ line ∈ piecesBetween '\n' lines, ¬reportStart <+: line)
    (hfull : lines = [] ∨ lines.getLast? = some '\n') (hmessage : ¬contextStart <:+: message)
    (hcontext : ¬emptyLine <:+: context) (hend : context.getLast? ≠ some '\n')
    (after : List Char) :
    withoutReports (lines ++ (errorReport message context ++ after)) =
      withoutReports (lines ++ after) := by
  have hreport := afterReport?_report hmessage hcontext hend after
  rcases hfull with rfl | hfull
  · exact withoutReportsFrom_of_report hreport
  · have hfree := reportFree_of_lines hlines
    rw [withoutReports, withoutReports, withoutReportsFrom_lines hfree hfull,
      withoutReportsFrom_lines hfree hfull, withoutReportsFrom_of_report hreport]

end Scan

/-! ## the log -/

/-- A report between full lines and any other text leaves no trace: the prologue is found, or
missing, as it is without the report, and the records are the same. -/
theorem tokenize_of_report {lines message context after prologue : String}
    (hlines : ∀ line ∈ piecesBetween '\n' lines.toList, ¬reportStart <+: line)
    (hfull : lines = "" ∨ lines.toList.getLast? = some '\n')
    (hmessage : ¬"\nl.".toList <:+: message.toList)
    (hcontext : ¬"\n\n".toList <:+: context.toList)
    (hend : context.toList.getLast? ≠ some '\n') :
    tokenize (lines ++ ("! " ++ message ++ "\n" ++ "l." ++ context ++ "\n" ++ "\n") ++ after)
        prologue =
      tokenize (lines ++ after) prologue := by
  have hstart : "! ".toList = reportStart := rfl
  have hplace : "\n".toList ++ "l.".toList = contextStart := rfl
  have hempty : "\n".toList ++ "\n".toList = emptyLine := rfl
  have hreport : (lines ++ ("! " ++ message ++ "\n" ++ "l." ++ context ++ "\n" ++ "\n") ++
      after).toList =
        lines.toList ++ (errorReport message.toList context.toList ++ after.toList) := by
    simp only [String.toList_append, errorReport, ← hstart, ← hplace, ← hempty, List.append_assoc]
  have hfull' : lines.toList = [] ∨ lines.toList.getLast? = some '\n' :=
    hfull.imp_left fun h => by rw [h]; rfl
  rw [tokenize, tokenize, hreport, String.toList_append,
    withoutReports_report hlines hfull' hmessage hcontext hend]

/-- A report in the middle of a record, with the prologue and a whole record in it. -/
theorem tokenize_of_report_in_record :
    let lines := "**input font\n@mf2vec@picture\n"
    let message := "Undefined. \n@mf2vec@end>> 10@mf2vec@\n! l.\n\ninput font"
    let context := "7 kern\n@mf2vec@ 3"
    let after := ">> \"a\"@mf2vec@\n! Emergency stop.\nl.9\n\n"
    let log := lines ++ ("! " ++ message ++ "\n" ++ "l." ++ context ++ "\n" ++ "\n") ++ after
    (∀ line ∈ piecesBetween '\n' lines.toList, ¬reportStart <+: line) ∧
    lines.toList.getLast? = some '\n' ∧ ¬"\nl.".toList <:+: message.toList ∧
    ¬"\n\n".toList <:+: context.toList ∧ context.toList.getLast? ≠ some '\n' ∧
    tokenize log "input font" = tokenize (lines ++ after) "input font" ∧
    tokenize log "input font" = .ok [⟨"picture", none, "\"a\""⟩] := by
  intro lines message context after log
  have hlines : ∀ line ∈ piecesBetween '\n' lines.toList, ¬reportStart <+: line := by
    decide +kernel
  have hfull : lines.toList.getLast? = some '\n' := by decide +kernel
  have hmessage : ¬"\nl.".toList <:+: message.toList := by decide +kernel
  have hcontext : ¬"\n\n".toList <:+: context.toList := by decide +kernel
  have hend : context.toList.getLast? ≠ some '\n' := by decide +kernel
  have hsame : tokenize log "input font" = tokenize (lines ++ after) "input font" :=
    tokenize_of_report hlines (.inr hfull) hmessage hcontext hend
  refine ⟨hlines, hfull, hmessage, hcontext, hend, hsame, hsame.trans ?_⟩
  have hsplit : (splitAtFirst "input font".toList
      (joinLines (withoutReports (lines ++ after).toList))).map (recordsOf ·.2) =
        some [⟨"picture", none, "\"a\""⟩] := by
    decide +kernel
  obtain ⟨⟨_, _⟩, hfound, hrecords⟩ := Option.map_eq_some_iff.mp hsplit
  rw [tokenize, hfound]
  exact congrArg Except.ok hrecords

end FontTrace
