/-!
# FontTrace.Text.Scan

Searching in a text held as a list of characters.  Everything the log and
operand readers look for is a fixed word, or a fixed word after the shortest
possible stretch of other text, so two functions do all of the searching:
`strip` for a word right here and `seek` for the first place where something
can be read.

* `strip_eq_some_iff` — `strip` succeeds exactly on texts that start with the word;
* `seek_eq_some` — what `seek` skipped, put back in front, gives the text again;
* `seek_append` — nothing can be read in what `seek` skipped;
* `intercalate_piecesBetween`, `piecesBetween_intercalate` — a text and its pieces between
  separators make each other.
-/

namespace FontTrace

/-- What follows the word `pat` in a text that starts with it. -/
def strip : List Char → List Char → Option (List Char)
  | [], cs => some cs
  | _ :: _, [] => none
  | p :: ps, c :: cs => if p = c then strip ps cs else none

theorem strip_eq_some_iff {pat cs rest : List Char} :
    strip pat cs = some rest ↔ cs = pat ++ rest := by
  induction pat generalizing cs with
  | nil => simp [strip]
  | cons p ps ih =>
    cases cs with
    | nil => simp [strip]
    | cons c cs =>
      by_cases h : p = c
      · subst h; simp [strip, ih]
      · simp [strip, h, Ne.symm h]

@[simp] theorem strip_append (pat rest : List Char) : strip pat (pat ++ rest) = some rest :=
  strip_eq_some_iff.2 rfl

theorem length_of_strip {pat cs rest : List Char} (h : strip pat cs = some rest) :
    cs.length = pat.length + rest.length := by
  rw [strip_eq_some_iff.1 h, List.length_append]

/-! ## the longest stretch of characters of a class -/

theorem takeWhile_append_of_stop {p : Char → Bool} {cs rest : List Char}
    (h : ∀ c ∈ cs, p c = true) (hstop : ∀ c ∈ rest.head?, p c = false) :
    (cs ++ rest).takeWhile p = cs := by
  rw [List.takeWhile_append_of_pos h]
  cases rest with
  | nil => rw [List.takeWhile_nil, List.append_nil]
  | cons c rest => simp [hstop c rfl]

theorem dropWhile_append_of_stop {p : Char → Bool} {cs rest : List Char}
    (h : ∀ c ∈ cs, p c = true) (hstop : ∀ c ∈ rest.head?, p c = false) :
    (cs ++ rest).dropWhile p = rest := by
  rw [List.dropWhile_append_of_pos h]
  cases rest with
  | nil => rfl
  | cons c rest => simp [hstop c rfl]

/-! ## the first place where something can be read -/

/-- `seek`, with the characters passed so far in reverse order: texts are
long, and the search runs in constant stack space. -/
def seekFrom {α : Type} (halt : Char → Bool) (read : List Char → Option α) :
    List Char → List Char → Option (List Char × α)
  | seen, [] => (read []).map fun a => (seen.reverse, a)
  | seen, c :: cs =>
    match read (c :: cs) with
    | some a => some (seen.reverse, a)
    | none => if halt c then none else seekFrom halt read (c :: seen) cs

/-- The shortest stretch of text after which `read` succeeds, and what it
reads.  The stretch never contains a character at which `halt` holds. -/
def seek {α : Type} (halt : Char → Bool) (read : List Char → Option α) (cs : List Char) :
    Option (List Char × α) :=
  seekFrom halt read [] cs

theorem seekFrom_eq_some {α : Type} {halt : Char → Bool} {read : List Char → Option α}
    {seen cs before : List Char} {a : α}
    (h : seekFrom halt read seen cs = some (before, a)) :
    ∃ skipped rest, before = seen.reverse ++ skipped ∧ cs = skipped ++ rest ∧
      read rest = some a := by
  induction cs generalizing seen with
  | nil =>
    simp only [seekFrom, Option.map_eq_some_iff, Prod.mk.injEq] at h
    obtain ⟨b, hb, rfl, rfl⟩ := h
    exact ⟨[], [], by simp, rfl, hb⟩
  | cons c cs ih =>
    unfold seekFrom at h
    split at h
    · rename_i b hb
      simp only [Option.some.injEq, Prod.mk.injEq] at h
      obtain ⟨rfl, rfl⟩ := h
      exact ⟨[], c :: cs, by simp, rfl, hb⟩
    · split at h
      · simp at h
      · obtain ⟨skipped, rest, h₁, h₂, h₃⟩ := ih h
        exact ⟨c :: skipped, rest, by simp [h₁], by simp [h₂], h₃⟩

theorem seek_eq_some {α : Type} {halt : Char → Bool} {read : List Char → Option α}
    {cs before : List Char} {a : α} (h : seek halt read cs = some (before, a)) :
    ∃ rest, cs = before ++ rest ∧ read rest = some a := by
  obtain ⟨skipped, rest, h₁, h₂, h₃⟩ := seekFrom_eq_some h
  exact ⟨rest, by simp [h₁, h₂], h₃⟩

/-- Never stops early: the search goes on over line ends. -/
def anywhere (_ : Char) : Bool := false

/-- What can be read somewhere is found, there or at an earlier place. -/
theorem exists_seek {α : Type} {read : List Char → Option α} {rest : List Char} {a : α}
    (h : read rest = some a) (before : List Char) :
    ∃ skipped b, seek anywhere read (before ++ rest) = some (skipped, b) ∧ skipped <+: before := by
  suffices hfrom : ∀ seen, ∃ skipped b, seekFrom anywhere read seen (before ++ rest) =
      some (seen.reverse ++ skipped, b) ∧ skipped <+: before by
    exact hfrom []
  induction before with
  | nil =>
      intro seen
      refine ⟨[], a, ?_, List.nil_prefix⟩
      cases rest with
      | nil => simp [seekFrom, h]
      | cons c cs => simp [seekFrom, h]
  | cons c cs ih =>
      intro seen
      cases hread : read (c :: cs ++ rest) with
      | some b =>
          refine ⟨[], b, ?_, List.nil_prefix⟩
          rw [List.cons_append] at hread ⊢
          simp [seekFrom, hread]
      | none =>
          obtain ⟨skipped, b, hseek, hpre⟩ := ih (c :: seen)
          refine ⟨c :: skipped, b, ?_, List.cons_prefix_cons.mpr ⟨rfl, hpre⟩⟩
          rw [List.cons_append] at hread ⊢
          simpa [seekFrom, hread, anywhere] using hseek

theorem seekFrom_append {α : Type} {halt : Char → Bool} {read : List Char → Option α}
    {before rest : List Char} {a : α} (hpass : ∀ c ∈ before, halt c = false)
    (hbefore : ∀ s, s <:+ before → s ≠ [] → read (s ++ rest) = none) (h : read rest = some a)
    (seen : List Char) :
    seekFrom halt read seen (before ++ rest) = some (seen.reverse ++ before, a) := by
  induction before generalizing seen with
  | nil => cases rest <;> simp [seekFrom, h]
  | cons c before ih =>
      have hnone := hbefore (c :: before) List.suffix_rfl (List.cons_ne_nil c before)
      have hrest := ih (fun d hd => hpass d (List.mem_cons_of_mem c hd))
        (fun s hs => hbefore s (hs.trans (List.suffix_cons c before))) (c :: seen)
      rw [List.cons_append] at hnone ⊢
      simp [seekFrom, hnone, hpass c List.mem_cons_self, hrest]

/-- The search ends at the first place where something can be read, if it gets there. -/
theorem seek_append_of_passes {α : Type} {halt : Char → Bool} {read : List Char → Option α}
    {before rest : List Char} {a : α} (hpass : ∀ c ∈ before, halt c = false)
    (hbefore : ∀ s, s <:+ before → s ≠ [] → read (s ++ rest) = none) (h : read rest = some a) :
    seek halt read (before ++ rest) = some (before, a) :=
  seekFrom_append hpass hbefore h []

/-- What can be read right here is found here. -/
theorem seek_of_read {α : Type} {halt : Char → Bool} {read : List Char → Option α}
    {cs : List Char} {a : α} (h : read cs = some a) : seek halt read cs = some ([], a) := by
  cases cs <;> simp [seek, seekFrom, h]

/-- The search ends at the first place where something can be read. -/
theorem seek_append {α : Type} {read : List Char → Option α} {before rest : List Char} {a : α}
    (hbefore : ∀ s, s <:+ before → s ≠ [] → read (s ++ rest) = none) (h : read rest = some a) :
    seek anywhere read (before ++ rest) = some (before, a) :=
  seek_append_of_passes (fun _ _ => rfl) hbefore h

/-- The search fails where nothing can be read anywhere. -/
theorem seek_eq_none {α : Type} {read : List Char → Option α} {cs : List Char}
    (h : ∀ s, s <:+ cs → read s = none) : seek anywhere read cs = none := by
  cases hseek : seek anywhere read cs with
  | none => rfl
  | some found =>
      obtain ⟨rest, rfl, hread⟩ := seek_eq_some hseek
      rw [h rest (List.suffix_append _ _)] at hread
      cases hread

/-- Stops at the end of the line. -/
def onThisLine (c : Char) : Bool := c == '\n'

/-- The text before and after the first occurrence of `pat`. -/
def splitAtFirst (pat cs : List Char) : Option (List Char × List Char) :=
  seek anywhere (strip pat) cs

theorem splitAtFirst_eq_some {pat cs before after : List Char}
    (h : splitAtFirst pat cs = some (before, after)) : cs = before ++ (pat ++ after) := by
  obtain ⟨rest, h₁, h₂⟩ := seek_eq_some h
  rw [h₁, strip_eq_some_iff.1 h₂]

/-- What occurs in a text is found, there or at an earlier place. -/
theorem exists_splitAtFirst (before pat after : List Char) :
    ∃ skipped rest, splitAtFirst pat (before ++ (pat ++ after)) = some (skipped, rest) ∧
      skipped <+: before :=
  exists_seek (strip_append pat after) before

/-- A word is found where it occurs for the first time. -/
theorem splitAtFirst_append {pat before : List Char}
    (h : ∀ s, s <:+ before → s ≠ [] → ¬pat <+: s ++ pat) (after : List Char) :
    splitAtFirst pat (before ++ (pat ++ after)) = some (before, after) := by
  refine seek_append (fun s hs hne => ?_) (strip_append pat after)
  cases hstrip : strip pat (s ++ (pat ++ after)) with
  | none => rfl
  | some rest =>
      have hpre : pat <+: s ++ (pat ++ after) := ⟨rest, (strip_eq_some_iff.mp hstrip).symm⟩
      rw [← List.append_assoc] at hpre
      exact absurd (List.prefix_of_prefix_length_le hpre (List.prefix_append _ _) (by simp))
        (h s hs hne)

theorem splitAtFirst_isSome_iff {pat cs : List Char} :
    (splitAtFirst pat cs).isSome ↔ pat <:+: cs := by
  constructor
  · intro h
    obtain ⟨⟨before, after⟩, hsplit⟩ := Option.isSome_iff_exists.mp h
    exact ⟨before, after, by rw [splitAtFirst_eq_some hsplit, List.append_assoc]⟩
  · rintro ⟨before, after, rfl⟩
    obtain ⟨skipped, rest, hsplit, -⟩ := exists_splitAtFirst before pat after
    rw [List.append_assoc, hsplit]
    rfl

theorem length_of_splitAtFirst {pat cs before after : List Char}
    (h : splitAtFirst pat cs = some (before, after)) :
    cs.length = before.length + pat.length + after.length := by
  rw [splitAtFirst_eq_some h]; simp [Nat.add_assoc]

/-- The text up to the first `stop` on this line, and what follows the `stop`. -/
def upTo (stop : List Char) (cs : List Char) : Option (List Char × List Char) :=
  seek onThisLine (strip stop) cs

/-- The pieces of a text between the occurrences of one character. -/
def piecesBetween (sep : Char) : List Char → List (List Char)
  | [] => [[]]
  | c :: cs =>
    if c = sep then [] :: piecesBetween sep cs
    else
      match piecesBetween sep cs with
      | [] => [[c]]
      | p :: ps => (c :: p) :: ps

/-- The first piece is what stands in front of the first separator. -/
theorem exists_piecesBetween (sep : Char) (cs : List Char) :
    ∃ others, piecesBetween sep cs = cs.takeWhile (· != sep) :: others := by
  induction cs with
  | nil => exact ⟨[], rfl⟩
  | cons c cs ih =>
      by_cases h : c = sep
      · exact ⟨piecesBetween sep cs, by simp [piecesBetween, h]⟩
      · obtain ⟨others, hothers⟩ := ih
        exact ⟨others, by simp [piecesBetween, h, hothers]⟩

/-- Pieces are stretches of the text. -/
theorem infix_of_mem_piecesBetween {sep : Char} {cs p : List Char}
    (h : p ∈ piecesBetween sep cs) : p <:+: cs := by
  induction cs generalizing p with
  | nil =>
      rw [piecesBetween, List.mem_singleton] at h
      exact h ▸ List.infix_rfl
  | cons c cs ih =>
      by_cases hc : c = sep
      · rw [piecesBetween, if_pos hc] at h
        rcases List.mem_cons.mp h with rfl | h
        · exact List.nil_infix
        · exact (ih h).trans (List.suffix_cons c cs).isInfix
      · obtain ⟨others, hothers⟩ := exists_piecesBetween sep cs
        rw [piecesBetween, if_neg hc, hothers] at h
        rcases List.mem_cons.mp h with rfl | h
        · exact (List.cons_prefix_cons.mpr ⟨rfl, List.takeWhile_prefix _⟩).isInfix
        · exact (ih (by rw [hothers]; exact List.mem_cons_of_mem _ h)).trans
            (List.suffix_cons c cs).isInfix

/-- Put together again, the pieces are the text. -/
theorem intercalate_piecesBetween (sep : Char) (cs : List Char) :
    [sep].intercalate (piecesBetween sep cs) = cs := by
  induction cs with
  | nil => rfl
  | cons c cs ih =>
      obtain ⟨others, hothers⟩ := exists_piecesBetween sep cs
      rw [hothers] at ih
      by_cases hc : c = sep
      · rw [piecesBetween, if_pos hc, hothers, List.intercalate_cons_cons, ih, hc]
        rfl
      · rw [piecesBetween, if_neg hc, hothers]
        cases others with
        | nil => simpa using ih
        | cons other others => simpa using ih

theorem piecesBetween_of_not_mem {sep : Char} {cs : List Char} (h : sep ∉ cs) :
    piecesBetween sep cs = [cs] := by
  induction cs with
  | nil => rfl
  | cons c cs ih =>
      have hc : sep ≠ c ∧ sep ∉ cs := by simpa using h
      rw [piecesBetween, if_neg hc.1.symm, ih hc.2]

theorem piecesBetween_append {sep : Char} {cs : List Char} (h : sep ∉ cs) (rest : List Char) :
    piecesBetween sep (cs ++ sep :: rest) = cs :: piecesBetween sep rest := by
  induction cs with
  | nil => rw [List.nil_append, piecesBetween, if_pos rfl]
  | cons c cs ih =>
      have hc : sep ≠ c ∧ sep ∉ cs := by simpa using h
      rw [List.cons_append, piecesBetween, if_neg hc.1.symm, ih hc.2]

/-- Pieces without the separator are those of the text that they make. -/
theorem piecesBetween_intercalate {sep : Char} {first : List Char} {others : List (List Char)}
    (h : ∀ p ∈ first :: others, sep ∉ p) :
    piecesBetween sep ([sep].intercalate (first :: others)) = first :: others := by
  induction others generalizing first with
  | nil => rw [List.intercalate_singleton, piecesBetween_of_not_mem (h first List.mem_cons_self)]
  | cons other others ih =>
      have hrest := ih fun p hp => h p (List.mem_cons_of_mem _ hp)
      rw [List.intercalate_cons_cons, List.append_assoc, List.singleton_append,
        piecesBetween_append (h first List.mem_cons_self), hrest]

/-- No piece has the separator in it. -/
theorem not_mem_of_mem_piecesBetween {sep : Char} {cs p : List Char}
    (h : p ∈ piecesBetween sep cs) : sep ∉ p := by
  induction cs generalizing p with
  | nil =>
      rw [piecesBetween, List.mem_singleton] at h
      simp [h]
  | cons c cs ih =>
      by_cases hc : c = sep
      · rw [piecesBetween, if_pos hc] at h
        rcases List.mem_cons.mp h with rfl | h
        · exact List.not_mem_nil
        · exact ih h
      · obtain ⟨others, hothers⟩ := exists_piecesBetween sep cs
        rw [hothers] at ih
        rw [piecesBetween, if_neg hc, hothers] at h
        rcases List.mem_cons.mp h with rfl | h
        · have hfirst := ih List.mem_cons_self
          simp [Ne.symm hc, hfirst]
        · exact ih (List.mem_cons_of_mem _ h)

end FontTrace
