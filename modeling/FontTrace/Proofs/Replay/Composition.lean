import FontTrace.Engine.Basic
import FontTrace.Proofs.Replay.Step

/-!
# FontTrace.Proofs.Replay.Composition

Replays of traces that are cut in two.  A cut in front of a record that goes on
with nothing is a cut between two constructs, unless the construct in front of
it lacks a record.  One that does is always left out, and the reason says so;
therefore the list of what was left out shows whether the first part may stand
alone.

* `skipped_follow` — the list only grows, and names every construct that lacks a record;
* `run_append` — the replay of both parts is the replay of the second one after
  that of the first one.
-/

namespace FontTrace

variable {σ : Type}

/-- Whether something was left out since a record was not there. -/
def Skip.isTruncated : Skip → Bool
  | .truncated _ => true
  | _ => false

/-- The source line of a construct is of no matter for what it does. -/
theorem perform_eq_of_content_eq {k k' : Construct} (h : k.content = k'.content)
    (e : Engine σ) (cfg : Settings) (s : State σ) : k.perform e cfg s = k'.perform e cfg s := by
  obtain ⟨head, command, line⟩ := k
  obtain ⟨head', command', line'⟩ := k'
  cases h
  rfl

/-- Two scripts with the same constructs end in the same state. -/
theorem value_follow_of_contents_eq {script script' : Script}
    (h : script.contents = script'.contents) (e : Engine σ) (cfg : Settings) (s : State σ) :
    (s.follow e cfg script).value = (s.follow e cfg script').value := by
  rw [value_follow, value_follow]
  induction script generalizing script' s with
  | nil =>
      rw [List.map_eq_nil_iff.mp h.symm]
  | cons k script ih =>
      cases script' with
      | nil => cases h
      | cons k' script' =>
          have hk : k.content = k'.content := (List.cons.inj h).1
          have hstep : (State.step e cfg s k).value = (State.step e cfg s k').value := by
            rw [value_step, value_step, perform_eq_of_content_eq hk]
          rw [List.foldl_cons, List.foldl_cons, hstep]
          exact ih (List.cons.inj h).2 _

/-- A construct that lacks a record is left out for that reason. -/
theorem skip_of_isCut {k : Construct} (hk : k.IsCut) (e : Engine σ) (cfg : Settings)
    (s : State σ) : ∃ op, (k.perform e cfg s).value.2 = some (.truncated op) := by
  obtain ⟨hx, hcut⟩ := hk
  have hon : k.isDisabled cfg = false := by rw [Construct.isDisabled, hx]; rfl
  unfold Construct.perform
  rw [hon]
  rcases hcut with ⟨op, h⟩ | ⟨op, h⟩
  · rw [h]
    exact ⟨op, rfl⟩
  · rw [h]
    exact ⟨op, rfl⟩

/-- What a script leaves out comes behind what was left out before, and every
construct that lacks a record is in it. -/
theorem skipped_follow (e : Engine σ) (cfg : Settings) (s : State σ) (script : Script) :
    ∃ reasons, (s.follow e cfg script).value.skipped = s.skipped ++ reasons ∧
      ∀ k ∈ script, k.IsCut → ∃ op, .truncated op ∈ reasons := by
  rw [value_follow]
  induction script generalizing s with
  | nil => exact ⟨[], (List.append_nil _).symm, fun k hk => absurd hk List.not_mem_nil⟩
  | cons k script ih =>
      obtain ⟨reasons, hreasons, hcut⟩ := ih (State.step e cfg s k).value
      refine ⟨(k.perform e cfg s).value.2.toList ++ reasons, ?_, ?_⟩
      · rw [List.foldl_cons, hreasons, value_step, List.append_assoc]
      · intro k' hk' hcut'
        rcases List.mem_cons.mp hk' with rfl | hmem
        · obtain ⟨op, hop⟩ := skip_of_isCut hcut' e cfg s
          exact ⟨op, List.mem_append_left _ (by rw [hop]; exact List.mem_singleton_self _)⟩
        · obtain ⟨op, hop⟩ := hcut k' hmem hcut'
          exact ⟨op, List.mem_append_right _ hop⟩

/-- A replay that reports no missing record has met no construct that lacks one. -/
theorem not_isCut_of_run {e : Engine σ} {cfg : Settings} {s : State σ} {records : List Record}
    (h : ∀ reason ∈ (s.run e cfg records).value.skipped.drop s.skipped.length,
      reason.isTruncated = false) :
    ∀ k ∈ Script.ofRecords records, ¬k.IsCut := by
  intro k hk hcut
  obtain ⟨reasons, hreasons, hmem⟩ := skipped_follow e cfg s (Script.ofRecords records)
  obtain ⟨op, hop⟩ := hmem k hk hcut
  rw [State.run, hreasons, List.drop_left] at h
  exact absurd (h _ hop) (by simp [Skip.isTruncated])

/-- If the replay of the first part of a trace reports no missing record, and the
second part does not go on with it, then the replay of the whole ends where the
replay of the second part ends that begins where the first one has ended. -/
theorem run_append (e : Engine σ) (cfg : Settings) (s : State σ) (first second : List Record)
    (hfirst : ∀ reason ∈ (s.run e cfg first).value.skipped.drop s.skipped.length,
      reason.isTruncated = false)
    (hsecond : ∀ r ∈ second.head?, r.op.continues = false) :
    (s.run e cfg (first ++ second)).value = ((s.run e cfg first).value.run e cfg second).value := by
  have hcontents : (Script.ofRecords (first ++ second)).contents =
      (Script.ofRecords first ++ Script.ofRecords second).contents := by
    rw [Script.contents, Script.contents, List.map_append]
    exact Script.contents_append (c := Cursor.start first) rfl hsecond (not_isCut_of_run hfirst)
  rw [State.run, value_follow_of_contents_eq hcontents, value_follow, List.foldl_append,
    State.run, State.run, value_follow, value_follow]

/-- A cut behind `addto`, with a list of variants in front of it that is complete. -/
theorem run_append_after_addto :
    let first : List Record := [⟨"charlist", none, "\"a\""⟩, ⟨":", none, "\"b\""⟩,
      ⟨"addto", none, "\"p\""⟩, ⟨"also", none, "\"q\""⟩]
    let second : List Record := [⟨"picture", none, "\"q\""⟩]
    let s := State.initial () {} .unicode
    (∀ reason ∈ (s.run Engine.basic {} first).value.skipped.drop s.skipped.length,
      reason.isTruncated = false) ∧
    (∀ r ∈ second.head?, r.op.continues = false) ∧
    (s.run Engine.basic {} (first ++ second)).value =
      ((s.run Engine.basic {} first).value.run Engine.basic {} second).value := by
  intro first second s
  have hfirst : ∀ reason ∈ (s.run Engine.basic {} first).value.skipped.drop s.skipped.length,
      reason.isTruncated = false := by decide +kernel
  have hsecond : ∀ r ∈ second.head?, r.op.continues = false := by decide +kernel
  exact ⟨hfirst, hsecond, run_append Engine.basic {} s first second hfirst hsecond⟩

end FontTrace
