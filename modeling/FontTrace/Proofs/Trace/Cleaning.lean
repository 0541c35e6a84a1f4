import FontTrace.Trace.Log

/-!
# FontTrace.Proofs.Trace.Cleaning

What cleaning leaves of a log.  It works on the raw log, in which a line may end between
any two characters of the prologue and of a marker, and it cuts at the first place that it
recognizes, so the places before that one have to be looked at as well.

* `stripBroken_append`, `exists_of_stripBroken` — a word is recognized in broken lines if
  and only if it stands there;
* `afterEcho?_eq_none_of_unmarked` — nothing is cut in the compiler's own output,
  `afterEcho?_span` — a span is cut up to its own end, and `afterEcho?_prologue` — the
  prologue with its line end;
* `cleanLog_of_instrumented` — so the compiler's own output is left, unless the prologue
  stands in the log once more, in front of the place where it was written.
-/

namespace FontTrace

/-! ## words in broken lines -/

/-- A word as it stands in a log whose lines are broken without regard to it: between any
two of its characters there may be a line end. -/
inductive Broken : List Char → List Char → Prop
  | nil : Broken [] []
  | last (c : Char) : Broken [c] [c]
  | keep (c : Char) {d : Char} {word text : List Char} (h : Broken (d :: word) text) :
      Broken (c :: d :: word) (c :: text)
  | lineEnd (c : Char) {d : Char} {word text : List Char} (h : Broken (d :: word) text) :
      Broken (c :: d :: word) (c :: '\n' :: text)

/-- The text without its line ends. -/
def unbroken (text : List Char) : List Char := text.filter (· != '\n')

theorem unbroken_append (text rest : List Char) :
    unbroken (text ++ rest) = unbroken text ++ unbroken rest := List.filter_append ..

theorem unbroken_eq_self {text : List Char} (h : '\n' ∉ text) : unbroken text = text := by
  refine List.filter_eq_self.mpr fun c hc => ?_
  rw [bne_iff_ne]
  exact fun heq => h (heq ▸ hc)

namespace Broken

variable {word text : List Char}

/-- A word may also stand there as it is. -/
theorem refl (word : List Char) : Broken word word := by
  induction word with
  | nil => exact .nil
  | cons c word ih =>
      cases word with
      | nil => exact .last c
      | cons d word => exact .keep c ih

/-- The first character is the first one of the word. -/
theorem exists_cons {c : Char} (h : Broken (c :: word) text) : ∃ rest, text = c :: rest := by
  cases h with
  | last => exact ⟨[], rfl⟩
  | keep => exact ⟨_, rfl⟩
  | lineEnd => exact ⟨_, rfl⟩

theorem ne_nil (h : Broken word text) (hword : word ≠ []) : text ≠ [] := by
  obtain ⟨c, word, rfl⟩ := List.exists_cons_of_ne_nil hword
  obtain ⟨rest, rfl⟩ := h.exists_cons
  exact List.cons_ne_nil c rest

theorem not_mem (h : Broken word text) {c : Char} (hline : c ≠ '\n') (hc : c ∉ word) :
    c ∉ text := by
  induction h with
  | nil => exact hc
  | last d => exact hc
  | keep d h ih =>
      rw [List.mem_cons, not_or] at hc ⊢
      exact ⟨hc.1, ih hc.2⟩
  | lineEnd d h ih =>
      rw [List.mem_cons, not_or] at hc
      rw [List.mem_cons, List.mem_cons, not_or, not_or]
      exact ⟨hc.1, hline, ih hc.2⟩

/-- Line ends aside, the word is there. -/
theorem unbroken_eq (h : Broken word text) (hword : '\n' ∉ word) : unbroken text = word := by
  have hcons {c : Char} {word text : List Char} (hc : '\n' ∉ c :: word)
      (ih : '\n' ∉ word → unbroken text = word) : unbroken (c :: text) = c :: word := by
    rw [List.mem_cons, not_or] at hc
    rw [unbroken, List.filter_cons, if_pos (bne_iff_ne.mpr (Ne.symm hc.1))]
    exact congrArg (c :: ·) (ih hc.2)
  induction h with
  | nil => rfl
  | last c => exact hcons hword fun _ => rfl
  | keep c h ih => exact hcons hword ih
  | lineEnd c h ih => exact hcons hword ih

end Broken

section Strip

variable {α : Type} {next : List Char → Option α} {word text : List Char}

/-- Where a word stands, reading goes on behind it. -/
theorem stripBroken_append (h : Broken word text) (hword : '\n' ∉ word) (after : List Char) :
    stripBroken next word (text ++ after) = next after := by
  induction h with
  | nil => rfl
  | last c => simp [stripBroken]
  | @keep c d word text h ih =>
      rw [List.mem_cons, not_or] at hword
      obtain ⟨rest, rfl⟩ := h.exists_cons
      have hd : d ≠ '\n' := fun hd => hword.2 (hd ▸ List.mem_cons_self)
      rw [← ih hword.2]
      simp [stripBroken, hd]
  | @lineEnd c d word text h ih =>
      rw [List.mem_cons, not_or] at hword
      -- the line end is no character of the word, so only the break is left of the two ways
      have hd : d ≠ '\n' := fun hd => hword.2 (hd ▸ List.mem_cons_self)
      have hstuck : stripBroken next (d :: word) ('\n' :: (text ++ after)) = none := by
        cases word <;> simp [stripBroken, hd]
      rw [← ih hword.2]
      simp [stripBroken, hstuck]

/-- Where reading goes on, the word stands. -/
theorem exists_of_stripBroken {cs : List Char} {a : α} (h : stripBroken next word cs = some a) :
    ∃ text after, Broken word text ∧ cs = text ++ after ∧ next after = some a := by
  fun_induction stripBroken next word cs with
  | case1 cs => exact ⟨[], cs, .nil, rfl, h⟩
  | case2 => cases h
  | case3 p cs => exact ⟨[p], cs, .last p, rfl, h⟩
  | case4 => cases h
  | case5 ps p hps rest ihBreak ihKeep =>
      obtain ⟨d, word, rfl⟩ := List.exists_cons_of_ne_nil hps
      simp only [Option.orElse_eq_orElse, Option.orElse_eq_or, Option.or_eq_some_iff] at h
      rcases h with h | ⟨-, h⟩
      · obtain ⟨text, after, htext, rfl, hnext⟩ := ihBreak h
        exact ⟨_, after, .lineEnd p htext, rfl, hnext⟩
      · obtain ⟨text, after, htext, hcs, hnext⟩ := ihKeep h
        exact ⟨_, after, .keep p htext, congrArg (p :: ·) hcs, hnext⟩
  | case6 ps p cs hps hcs ih =>
      obtain ⟨d, word, rfl⟩ := List.exists_cons_of_ne_nil hps
      obtain ⟨text, after, htext, rfl, hnext⟩ := ih h
      exact ⟨_, after, .keep p htext, rfl, hnext⟩
  | case7 => cases h

end Strip

/-! ## the compiler's own output -/

/-- Output of the compiler's own: no marker is in it, and no prologue, line ends aside. -/
structure Unmarked (prologue text : List Char) : Prop where
  marker : '@' ∉ text
  prologue : ¬prologue <:+: unbroken text

/-- A stretch from one marker at the start of a line to the next, with the line end in
front of it. -/
inductive MarkedSpan : List Char → Prop
  | intro {opening body closing : List Char} (hopening : Broken marker opening)
      (hbody : '@' ∉ body) (hclosing : Broken marker closing) :
      MarkedSpan ('\n' :: (opening ++ (body ++ '\n' :: closing)))

/-- Output with spans in it, and what is left of it without them. -/
inductive Instrumented (prologue : List Char) : List Char → List Char → Prop
  | text {text : List Char} (h : Unmarked prologue text) : Instrumented prologue text text
  | span {text span output own : List Char} (h : Unmarked prologue text)
      (hspan : MarkedSpan span) (hrest : Instrumented prologue output own) :
      Instrumented prologue (text ++ (span ++ output)) (text ++ own)

/-- Whether the prologue, with a line end behind it, stands in the log in front of the place
where it was written: it then begins in the text before that place, and ends at a line break
inside the prologue that was written. -/
def EchoedEarlier (prologue front written : List Char) : Prop :=
  ∃ s text, s <:+ front ∧ s ≠ [] ∧ Broken prologue text ∧ text ++ ['\n'] <+: s ++ written

/-- What may stand behind output of the compiler's own: nothing, or a span. -/
def EndsOrMarks (rest : List Char) : Prop := rest = [] ∨ ∃ cs, rest = '\n' :: '@' :: cs

variable {prologue s text rest : List Char}

theorem markerLine?_append (h : Broken marker text) (rest : List Char) :
    markerLine? ('\n' :: (text ++ rest)) = some rest :=
  stripBroken_append h (by decide) rest

theorem prefix_of_markerLine? (h : markerLine? text = some rest) : ['\n', '@'] <+: text := by
  simp only [markerLine?, Option.bind_eq_bind, Option.bind_eq_some_iff, strip_eq_some_iff] at h
  obtain ⟨cs, rfl, hcs⟩ := h
  obtain ⟨_, after, hmarker, rfl, -⟩ := exists_of_stripBroken hcs
  obtain ⟨_, rfl⟩ := hmarker.exists_cons
  exact ⟨_, rfl⟩

/-- No marker begins in a text without one. -/
theorem markerLine?_eq_none (hs : '@' ∉ s) (hne : s ≠ []) (hrest : rest.head? ≠ some '@') :
    markerLine? (s ++ rest) = none := by
  refine Option.eq_none_iff_forall_not_mem.mpr fun after h => ?_
  have hpre := prefix_of_markerLine? h
  match s, hne with
  | [c], _ =>
      have hmark : ['@'] <+: rest := (List.cons_prefix_cons.mp hpre).2
      obtain ⟨cs, rfl⟩ := hmark
      exact hrest rfl
  | c :: d :: s, _ =>
      obtain ⟨-, hpre⟩ := List.cons_prefix_cons.mp hpre
      obtain ⟨rfl, -⟩ := List.cons_prefix_cons.mp hpre
      exact hs (by simp)

/-- A span ends at its second marker. -/
theorem seek_markerLine? {body closing : List Char} (hbody : '@' ∉ body)
    (hclosing : Broken marker closing) (rest : List Char) :
    seek anywhere markerLine? (body ++ '\n' :: (closing ++ rest)) = some (body, rest) := by
  refine seek_append (fun s hs hne => ?_) (markerLine?_append hclosing rest)
  exact markerLine?_eq_none (fun hmark => hbody (hs.subset hmark)) hne (by simp)

theorem afterPrologue?_append (h : Broken prologue text) (hline : '\n' ∉ prologue)
    (rest : List Char) : afterPrologue? prologue (text ++ '\n' :: rest) = some rest :=
  stripBroken_append h hline ('\n' :: rest)

theorem exists_of_afterPrologue? {cs : List Char} (h : afterPrologue? prologue cs = some rest) :
    ∃ text, Broken prologue text ∧ cs = text ++ '\n' :: rest := by
  obtain ⟨text, after, htext, rfl, hafter⟩ := exists_of_stripBroken h
  exact ⟨text, htext, by rw [strip_eq_some_iff.mp hafter]; rfl⟩

theorem afterEcho?_eq_none {cs : List Char} (hprologue : afterPrologue? prologue cs = none)
    (hmarker : markerLine? cs = none) : afterEcho? prologue cs = none := by
  simp [afterEcho?, hprologue, hmarker]

/-- The prologue is cut out with the line end behind it. -/
theorem afterEcho?_prologue (h : Broken prologue text) (hline : '\n' ∉ prologue)
    (rest : List Char) : afterEcho? prologue (text ++ '\n' :: rest) = some rest := by
  simp [afterEcho?, afterPrologue?_append h hline]

/-- A span is cut out up to its own end. -/
theorem afterEcho?_span {span : List Char} (h : MarkedSpan span) (hne : prologue ≠ [])
    (hline : '\n' ∉ prologue) (rest : List Char) :
    afterEcho? prologue (span ++ rest) = some rest := by
  obtain ⟨hopening, hbody, hclosing⟩ := h
  rename_i opening body closing
  have hprologue : ∀ cs, afterPrologue? prologue ('\n' :: cs) = none := by
    intro cs
    refine Option.eq_none_iff_forall_not_mem.mpr fun after h => ?_
    obtain ⟨text, htext, hcs⟩ := exists_of_afterPrologue? h
    obtain ⟨c, word, rfl⟩ := List.exists_cons_of_ne_nil hne
    obtain ⟨cs', rfl⟩ := htext.exists_cons
    exact hline ((List.cons.inj hcs).1 ▸ List.mem_cons_self)
  have hspan : '\n' :: (opening ++ (body ++ '\n' :: closing)) ++ rest =
      '\n' :: (opening ++ (body ++ '\n' :: (closing ++ rest))) := by simp
  rw [hspan]
  simp [afterEcho?, hprologue, markerLine?_append hopening, seek_markerLine? hbody hclosing]

/-- Nothing is cut that begins in output of the compiler's own. -/
theorem afterEcho?_eq_none_of_unmarked {own : List Char} (hown : Unmarked prologue own)
    (hline : '\n' ∉ prologue) (hmarker : '@' ∉ prologue) (hs : s <:+ own) (hne : s ≠ [])
    (hrest : EndsOrMarks rest) : afterEcho? prologue (s ++ rest) = none := by
  have hsMark : '@' ∉ s := fun h => hown.marker (hs.subset h)
  refine afterEcho?_eq_none ?_ (markerLine?_eq_none hsMark hne ?_)
  · refine Option.eq_none_iff_forall_not_mem.mpr fun after h => ?_
    obtain ⟨text, htext, hcs⟩ := exists_of_afterPrologue? h
    have htextMark : '@' ∉ text := htext.not_mem (by decide) hmarker
    -- a marker is behind the text at the latest, so the prologue is in the text
    have hinside : text <+: s := by
      rcases List.append_eq_append_iff.mp hcs with ⟨more, rfl, hmore⟩ | ⟨more, rfl, -⟩
      · rcases hrest with rfl | ⟨cs, rfl⟩
        · simp at hmore
        · match more, hmore with
          | [], _ => simp
          | [c], hmore => simp at hmore
          | c :: d :: more, hmore =>
              obtain rfl : '@' = d := (List.cons.inj (List.cons.inj hmore).2).1
              exact absurd (by simp) htextMark
      · exact List.prefix_append _ _
    have hbroken := (hinside.filter (· != '\n')).isInfix
    rw [show text.filter (· != '\n') = prologue from htext.unbroken_eq hline] at hbroken
    exact hown.prologue (hbroken.trans (hs.filter _).isInfix)
  · rcases hrest with rfl | ⟨cs, rfl⟩ <;> simp

/-- Nothing is cut that begins in front of the prologue, unless that stands there already. -/
theorem afterEcho?_eq_none_of_front {front written : List Char} (hfront : '@' ∉ front)
    (hfirst : ¬EchoedEarlier prologue front written) (hwritten : Broken prologue written)
    (hnil : prologue ≠ []) (hline : '\n' ∉ prologue) (hmarker : '@' ∉ prologue)
    (hs : s <:+ front) (hne : s ≠ []) (output : List Char) :
    afterEcho? prologue (s ++ (written ++ '\n' :: output)) = none := by
  obtain ⟨c, word, rfl⟩ := List.exists_cons_of_ne_nil hnil
  obtain ⟨cs, hcs⟩ := hwritten.exists_cons
  refine afterEcho?_eq_none ?_ (markerLine?_eq_none (fun h => hfront (hs.subset h)) hne ?_)
  · refine Option.eq_none_iff_forall_not_mem.mpr fun after h => ?_
    obtain ⟨text, htext, heq⟩ := exists_of_afterPrologue? h
    have hnot : ¬text ++ ['\n'] <+: s ++ written := fun hpre =>
      hfirst ⟨s, text, hs, hne, htext, hpre⟩
    have htextPre : text ++ ['\n'] <+: s ++ written ++ '\n' :: output := ⟨after, by simp [heq]⟩
    -- it would end behind the prologue that was written, and so hold all of it and more
    have hlong : s ++ written <+: text := by
      rcases List.prefix_or_prefix_of_prefix htextPre (List.prefix_append _ _) with hpre | hpre
      · exact absurd hpre hnot
      · rcases List.prefix_concat_iff.mp hpre with heq | hpre
        · exact absurd (heq ▸ List.prefix_rfl) hnot
        · exact hpre
    have hnone : unbroken s = [] := by
      have hlength : (unbroken (s ++ written)).length ≤ (unbroken text).length :=
        (hlong.filter _).length_le
      rw [unbroken_append, hwritten.unbroken_eq hline, htext.unbroken_eq hline,
        List.length_append] at hlength
      exact List.length_eq_zero_iff.mp (by omega)
    obtain ⟨d, s, rfl⟩ := List.exists_cons_of_ne_nil hne
    obtain ⟨rest, rfl⟩ := htext.exists_cons
    obtain rfl : d = c := (List.cons_prefix_cons.mp hlong).1
    have hd : d ≠ '\n' := fun h => hline (h ▸ List.mem_cons_self)
    rw [unbroken, List.filter_cons, if_pos (bne_iff_ne.mpr hd)] at hnone
    exact List.cons_ne_nil _ _ hnone
  · rw [hcs]
    rintro ⟨⟩
    exact hmarker List.mem_cons_self

/-- A prologue that begins with a character that is not in front of it is not there yet. -/
theorem not_echoedEarlier_of_not_mem {c : Char} {word front written : List Char}
    (h : c ∉ front) : ¬EchoedEarlier (c :: word) front written := by
  rintro ⟨s, text, hs, hne, htext, hpre⟩
  obtain ⟨d, s, rfl⟩ := List.exists_cons_of_ne_nil hne
  obtain ⟨cs, rfl⟩ := htext.exists_cons
  obtain rfl : c = d := (List.cons_prefix_cons.mp hpre).1
  exact h (hs.subset List.mem_cons_self)

/-- Behind text without the prologue, line ends aside, it can only be there already if the
prologue was written in broken lines. -/
theorem EchoedEarlier.line_mem {front written : List Char}
    (h : EchoedEarlier prologue front written) (hfront : ¬prologue <:+: unbroken front)
    (hline : '\n' ∉ prologue) : '\n' ∈ written := by
  obtain ⟨s, text, hs, -, htext, hpre⟩ := h
  refine Decidable.byContradiction fun hwritten => ?_
  have hinside : text ++ ['\n'] <+: s := by
    rcases List.prefix_or_prefix_of_prefix hpre (List.prefix_append s written) with hpre | hpre'
    · exact hpre
    · obtain ⟨more, hmore⟩ := hpre'
      rcases List.eq_nil_or_concat more with rfl | ⟨more, c, rfl⟩
      · rw [List.append_nil] at hmore
        exact hmore ▸ List.prefix_rfl
      · rw [← hmore, List.prefix_append_right_inj] at hpre
        rw [List.concat_eq_append, ← List.append_assoc] at hmore
        obtain rfl : c = '\n' := (List.cons.inj (List.append_inj' hmore rfl).2).1
        exact absurd (hpre.subset (by simp)) hwritten
  have hbroken := (((List.prefix_append _ _).trans hinside).filter (· != '\n')).isInfix
  rw [show text.filter (· != '\n') = prologue from htext.unbroken_eq hline] at hbroken
  exact hfront (hbroken.trans (hs.filter _).isInfix)

/-! ## all of the output -/

section Scan

variable {kept : List Char}

theorem withoutEchoes_of_none {c : Char} {cs : List Char}
    (h : afterEcho? prologue (c :: cs) = none) :
    withoutEchoes prologue kept (c :: cs) = withoutEchoes prologue (c :: kept) cs := by
  rw [withoutEchoes]
  split
  · next hsome =>
      rw [h] at hsome
      cases hsome
  · rfl

theorem withoutEchoes_of_some {cs : List Char} (h : afterEcho? prologue cs = some rest) :
    withoutEchoes prologue kept cs = withoutEchoes prologue kept rest := by
  cases cs with
  | nil => exact absurd (length_of_afterEcho h) (Nat.not_lt_zero _)
  | cons c cs =>
      rw [withoutEchoes]
      split
      · next hsome =>
          rw [h] at hsome
          rw [Option.some.inj hsome]
      · next hnone =>
          rw [h] at hnone
          cases hnone

/-- Text in which nothing begins that is cut out is kept. -/
theorem withoutEchoes_append
    (h : ∀ s, s <:+ text → s ≠ [] → afterEcho? prologue (s ++ rest) = none) :
    withoutEchoes prologue kept (text ++ rest) =
      withoutEchoes prologue (text.reverse ++ kept) rest := by
  induction text generalizing kept with
  | nil => rfl
  | cons c text ih =>
      have hnone : afterEcho? prologue (c :: (text ++ rest)) = none :=
        h _ List.suffix_rfl (List.cons_ne_nil c text)
      rw [List.cons_append, withoutEchoes_of_none hnone,
        ih fun s hs hne => h s (hs.trans (List.suffix_cons c text)) hne]
      simp

/-- Of output with spans in it, the compiler's own is left. -/
theorem withoutEchoes_instrumented {output own : List Char}
    (h : Instrumented prologue output own) (hne : prologue ≠ []) (hline : '\n' ∉ prologue)
    (hmarker : '@' ∉ prologue) : withoutEchoes prologue kept output = kept.reverse ++ own := by
  induction h generalizing kept with
  | @text text h =>
      have hpass : withoutEchoes prologue kept (text ++ []) = _ :=
        withoutEchoes_append fun s hs hs' =>
          afterEcho?_eq_none_of_unmarked h hline hmarker hs hs' (.inl rfl)
      rw [List.append_nil] at hpass
      rw [hpass, withoutEchoes, List.reverse_append, List.reverse_reverse]
  | @span text span output own h hspan hrest ih =>
      have hmarks : EndsOrMarks (span ++ output) := by
        obtain ⟨hopening, -, -⟩ := hspan
        obtain ⟨cs, rfl⟩ := hopening.exists_cons
        exact .inr ⟨_, rfl⟩
      rw [withoutEchoes_append fun s hs hs' =>
          afterEcho?_eq_none_of_unmarked h hline hmarker hs hs' hmarks,
        withoutEchoes_of_some (afterEcho?_span hspan hne hline output), ih,
        List.reverse_append, List.reverse_reverse, List.append_assoc]

end Scan

/-- Cleaning leaves the compiler's own output: what stands in front of the prologue, and
behind it everything but the spans. -/
theorem cleanLog_of_instrumented {prologue log : String} {front written output own : List Char}
    (hne : prologue.toList ≠ []) (hline : '\n' ∉ prologue.toList)
    (hmarker : '@' ∉ prologue.toList) (hfront : '@' ∉ front)
    (hfirst : ¬EchoedEarlier prologue.toList front written)
    (hwritten : Broken prologue.toList written)
    (houtput : Instrumented prologue.toList output own)
    (hlog : log.toList = front ++ (written ++ '\n' :: output)) :
    (cleanLog log prologue).toList = front ++ own := by
  rw [cleanLog, String.toList_ofList, hlog, withoutEchoes_append fun s hs hs' =>
      afterEcho?_eq_none_of_front hfront hfirst hwritten hne hline hmarker hs hs' output,
    withoutEchoes_of_some (afterEcho?_prologue hwritten hline output),
    withoutEchoes_instrumented houtput hne hline hmarker]
  simp

/-- A log with a broken prologue, and with two spans, one directly behind the other, that
have an empty body and broken markers. -/
theorem cleanLog_of_two_spans :
    let prologue := "\\go"
    let front := "*\n**".toList
    let written := ['\\', 'g', '\n', 'o']
    let broken := ['@', 'm', 'f', '2', 'v', '\n', 'e', 'c', '@']
    let first := '\n' :: (marker ++ ("add>> \n".toList ++ '\n' :: broken))
    let second := '\n' :: (broken ++ ([] ++ '\n' :: marker))
    let output := "(a\n".toList ++ (first ++ ([] ++ (second ++ ")g".toList)))
    let own := "(a\n".toList ++ ([] ++ ")g".toList)
    let log := "*\n**\\g\no\n(a\n\n@mf2vec@add>> \n\n@mf2v\nec@\n@mf2v\nec@\n@mf2vec@)g"
    prologue.toList ≠ [] ∧ '\n' ∉ prologue.toList ∧ '@' ∉ prologue.toList ∧ '@' ∉ front ∧
    ¬EchoedEarlier prologue.toList front written ∧ Broken prologue.toList written ∧
    Instrumented prologue.toList output own ∧
    log.toList = front ++ (written ++ '\n' :: output) ∧
    (cleanLog log prologue).toList = "*\n**(a\n)g".toList := by
  intro prologue front written broken first second output own log
  have hne : prologue.toList ≠ [] := by decide
  have hline : '\n' ∉ prologue.toList := by decide
  have hmarker : '@' ∉ prologue.toList := by decide
  have hfront : '@' ∉ front := by decide
  have hword : prologue.toList = ['\\', 'g', 'o'] := by decide
  have hfirst : ¬EchoedEarlier prologue.toList front written := by
    rw [hword]
    exact not_echoedEarlier_of_not_mem (by decide)
  have hwritten : Broken prologue.toList written := by
    rw [hword]
    exact .keep _ (.lineEnd _ (.last _))
  have hbroken : Broken marker broken :=
    .keep _ (.keep _ (.keep _ (.keep _ (.lineEnd _ (.refl ['e', 'c', '@'])))))
  have houtput : Instrumented prologue.toList output own :=
    .span ⟨by decide, by decide⟩ (.intro (.refl marker) (by decide) hbroken)
      (.span ⟨by decide, by decide⟩ (.intro hbroken (by decide) (.refl marker))
        (.text ⟨by decide, by decide⟩))
  have hlog : log.toList = front ++ (written ++ '\n' :: output) := by decide +kernel
  exact ⟨hne, hline, hmarker, hfront, hfirst, hwritten, houtput, hlog,
    cleanLog_of_instrumented hne hline hmarker hfront hfirst hwritten houtput hlog⟩

/-- A prologue that ends as it begins, behind a text that ends as it begins too.  Nothing in
the log tells its two places apart, and the first one is cut out, up to the line break in
the prologue that was written. -/
theorem cleanLog_of_overlapping_prologue :
    let prologue := "aa"
    let front := "a".toList
    let written := ['a', '\n', 'a']
    let log := "aa\na\n"
    '\n' ∉ prologue.toList ∧ '@' ∉ prologue.toList ∧ Unmarked prologue.toList front ∧
    Broken prologue.toList written ∧ Instrumented prologue.toList [] [] ∧
    log.toList = front ++ (written ++ '\n' :: []) ∧ cleanLog log prologue = "a\n" ∧
    (cleanLog log prologue).toList ≠ front ++ [] := by
  intro prologue front written log
  have hword : prologue.toList = ['a', 'a'] := by decide
  have hwritten : Broken prologue.toList written := by
    rw [hword]
    exact .lineEnd _ (.last _)
  have hcut : cleanLog log prologue = "a\n" := by decide +kernel
  refine ⟨by decide, by decide, ⟨by decide, by decide⟩, hwritten, .text ⟨by decide, by decide⟩,
    by decide, hcut, ?_⟩
  rw [hcut]
  decide

end FontTrace
