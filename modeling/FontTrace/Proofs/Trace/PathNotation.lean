import FontTrace.Proofs.Geometry.Reversal
import Mathlib.Data.List.Forall2

/-!
# FontTrace.Proofs.Trace.PathNotation

Paths as the compiler shows them are read back.  The texts of the coordinates may be any
numbers, with blanks around them, but they have no separator and no line end in them.

* `PlainNumber`, `PlainPair`, `JoinText.Plain` — texts that the notation can carry;
* `joinHere?_written` — a join is read as it is written, whatever follows it;
* `joins?_written` — so are several, up to the end of the text or to one back to the start;
* `path_of_written` — a path is read as it is written, with nothing left out.
-/

namespace FontTrace

namespace Operand

/-! ## the notation -/

/-- A pair of coordinates. -/
def writtenPair (p : List Char × List Char) : List Char := ['('] ++ p.1 ++ [','] ++ p.2 ++ [')']

/-- The end of a join. -/
def writtenEnd : JoinEnd → List Char
  | some p => writtenPair p
  | none => "cycle".toList

/-- A join. -/
def JoinText.written (t : JoinText) : List Char :=
  "..controls (".toList ++ t.c1.1 ++ [','] ++ t.c1.2 ++ ") and (".toList ++ t.c2.1 ++ [','] ++
    t.c2.2 ++ ") ..".toList ++ writtenEnd t.stop

/-- A path: its first point and its joins. -/
def writtenPath (first : List Char × List Char) (ts : List JoinText) : List Char :=
  writtenPair first ++ ts.flatMap (·.written)

/-- A number with nothing in it that separates coordinates or lines. -/
def PlainNumber (cs : List Char) : Prop :=
  (number? cs).isSome ∧ ∀ c ∈ cs, c ∉ ['(', ',', ')', '\n']

/-- Two such numbers. -/
def PlainPair (p : List Char × List Char) : Prop := PlainNumber p.1 ∧ PlainNumber p.2

/-- A join with such coordinates. -/
def JoinText.Plain (t : JoinText) : Prop :=
  PlainPair t.c1 ∧ PlainPair t.c2 ∧ ∀ p ∈ t.stop, PlainPair p

instance : DecidablePred PlainNumber := fun cs =>
  have := List.decidableBAll (fun c => c ∉ ['(', ',', ')', '\n']) cs
  inferInstanceAs (Decidable (_ ∧ _))

instance : DecidablePred PlainPair := fun _ => inferInstanceAs (Decidable (_ ∧ _))

instance : DecidablePred JoinText.Plain := fun _ => inferInstanceAs (Decidable (_ ∧ _ ∧ _))

/-- The points of a join are those that its texts give. -/
structure JoinText.Shows (t : JoinText) (j : Join) : Prop where
  c1 : point? t.c1 = some j.c1
  c2 : point? t.c2 = some j.c2
  stop : Option.Rel (fun p z => point? p = some z) t.stop j.stop

/-! ## numbers and pairs -/

section Pairs

variable {cs : List Char} {p : List Char × List Char}

theorem PlainNumber.onThisLine (h : PlainNumber cs) {c : Char} (hc : c ∈ cs) :
    onThisLine c = false := by
  have := h.2 c hc
  simp_all [FontTrace.onThisLine]

/-- The search for what begins with a separator passes over a number. -/
theorem PlainNumber.seek_append {α : Type} (h : PlainNumber cs) {c : Char} {stop : List Char}
    (hc : c ∈ ['(', ',', ')', '\n']) {read : List Char → Option α} {rest : List Char} {a : α}
    (hread : ∀ s b, read s = some b → (c :: stop) <+: s) (hrest : read rest = some a) :
    seek FontTrace.onThisLine read (cs ++ rest) = some (cs, a) := by
  refine seek_append_of_passes (fun d hd => h.onThisLine hd) (fun s hs hne => ?_) hrest
  obtain ⟨d, s, rfl⟩ := List.exists_cons_of_ne_nil hne
  refine Option.eq_none_iff_forall_ne_some.mpr fun b hb => ?_
  obtain ⟨rfl, -⟩ := List.cons_prefix_cons.mp (hread _ b hb)
  exact h.2 c (hs.subset List.mem_cons_self) hc

theorem PlainNumber.upTo (h : PlainNumber cs) {c : Char} (hc : c ∈ ['(', ',', ')', '\n'])
    (stop rest : List Char) :
    FontTrace.upTo (c :: stop) (cs ++ (c :: stop ++ rest)) = some (cs, rest) :=
  h.seek_append hc (fun _ rest h => ⟨rest, (strip_eq_some_iff.mp h).symm⟩) (strip_append _ rest)

theorem PlainPair.exists_point (h : PlainPair p) : ∃ z, point? p = some z := by
  obtain ⟨x, hx⟩ := Option.isSome_iff_exists.mp h.1.1
  obtain ⟨y, hy⟩ := Option.isSome_iff_exists.mp h.2.1
  exact ⟨⟨x, y⟩, by simp [point?, hx, hy]⟩

theorem pairHere?_written (h : PlainPair p) (rest : List Char) :
    pairHere? (writtenPair p ++ rest) = some (p, rest) := by
  have hwritten : writtenPair p ++ rest =
      ['('] ++ (p.1 ++ ([','] ++ (p.2 ++ ([')'] ++ rest)))) := by
    simp [writtenPair]
  have hx := h.1.upTo (c := ',') (by simp) [] (p.2 ++ ([')'] ++ rest))
  have hy := h.2.upTo (c := ')') (by simp) [] rest
  simp only [hwritten, pairHere?, strip_append, Option.bind_eq_bind, Option.bind_some, hx, hy,
    Option.pure_def]

theorem firstPair?_written (h : PlainPair p) (rest : List Char) :
    firstPair? (writtenPair p ++ rest) = some (p, rest) := by
  rw [firstPair?, seek_of_read (pairHere?_written h rest)]
  rfl

end Pairs

/-! ## joins -/

section Joins

variable {t : JoinText} {ts : List JoinText} {js : List Join}

theorem joinEnd?_written {stop : JoinEnd} (h : ∀ p ∈ stop, PlainPair p) (rest : List Char) :
    joinEnd? (") ..".toList ++ (writtenEnd stop ++ rest)) = some (stop, rest) := by
  have hword : ") ..".toList = [')', ' ', '.', '.'] := rfl
  rw [joinEnd?, hword, strip_append, Option.bind_eq_bind, Option.bind_some]
  cases stop with
  | some p => rw [writtenEnd, pairHere?_written (h p rfl)]; rfl
  | none => rfl

theorem prefix_of_joinEnd? {cs : List Char} {found : JoinEnd × List Char}
    (h : joinEnd? cs = some found) : [')', ' ', '.', '.'] <+: cs := by
  obtain ⟨rest, hstrip, -⟩ := Option.bind_eq_some_iff.mp h
  exact ⟨rest, (strip_eq_some_iff.mp hstrip).symm⟩

/-- A join is read as it is written, whatever follows it. -/
theorem joinHere?_written (h : t.Plain) (rest : List Char) :
    joinHere? (t.written ++ rest) = some (t, rest) := by
  obtain ⟨⟨hx₁, hy₁⟩, ⟨hx₂, hy₂⟩, hstop⟩ := h
  have hx₁ := hx₁.upTo (c := ',') (by simp) []
  have hy₁ (rest) : upTo ") and (".toList (t.c1.2 ++ (") and (".toList ++ rest)) =
      some (t.c1.2, rest) := hy₁.upTo (c := ')') (by simp) " and (".toList rest
  have hx₂ := hx₂.upTo (c := ',') (by simp) []
  have hend : seek onThisLine joinEnd? (t.c2.2 ++ (") ..".toList ++ (writtenEnd t.stop ++ rest))) =
      some (t.c2.2, t.stop, rest) :=
    hy₂.seek_append (c := ')') (by simp) (fun _ _ h => prefix_of_joinEnd? h)
      (joinEnd?_written hstop rest)
  unfold joinHere? JoinText.written
  simp only [List.append_assoc, strip_append, Option.bind_eq_bind, Option.bind_some, hx₁, hy₁,
    hx₂, hend, Option.pure_def]

/-- The texts of a join give its points. -/
theorem JoinText.Plain.exists_shows (h : t.Plain) : ∃ j, t.Shows j := by
  obtain ⟨z₁, hz₁⟩ := h.1.exists_point
  obtain ⟨z₂, hz₂⟩ := h.2.1.exists_point
  obtain ⟨c1, c2, stop⟩ := t
  cases stop with
  | none => exact ⟨⟨z₁, z₂, none⟩, hz₁, hz₂, .none⟩
  | some p =>
      obtain ⟨z, hz⟩ := (h.2.2 p rfl).exists_point
      exact ⟨⟨z₁, z₂, some z⟩, hz₁, hz₂, .some hz⟩

theorem exists_shows (h : ∀ t ∈ ts, t.Plain) : ∃ js, List.Forall₂ JoinText.Shows ts js := by
  induction ts with
  | nil => exact ⟨[], .nil⟩
  | cons t ts ih =>
      obtain ⟨j, hj⟩ := (h t List.mem_cons_self).exists_shows
      obtain ⟨js, hjs⟩ := ih fun u hu => h u (List.mem_cons_of_mem t hu)
      exact ⟨j :: js, .cons hj hjs⟩

theorem JoinText.Shows.isNone_eq {j : Join} (h : t.Shows j) : j.stop.isNone = t.stop.isNone := by
  obtain ⟨c1, c2, stop⟩ := t
  obtain ⟨z₁, z₂, stop'⟩ := j
  obtain ⟨-, -, hstop⟩ := h
  cases hstop <;> rfl

theorem JoinText.Shows.read?_eq {j : Join} (h : t.Shows j) : t.read? = some j := by
  obtain ⟨c1, c2, stop⟩ := t
  obtain ⟨z₁, z₂, stop'⟩ := j
  obtain ⟨h₁, h₂, hstop⟩ := h
  cases hstop with
  | none => simp_all [read?]
  | some hz => simp_all [read?]

/-- The last join leads back to the start if its text says so. -/
theorem isCyclic_of_shows (h : List.Forall₂ JoinText.Shows ts js) (start : Point) :
    Path.isCyclic ⟨start, js⟩ = ts.getLast?.any (·.stop.isNone) := by
  have hstops : js.map (·.stop.isNone) = ts.map (·.stop.isNone) := by
    induction h with
    | nil => rfl
    | cons hj _ ih => rw [List.map_cons, List.map_cons, hj.isNone_eq, ih]
  have hlast := congrArg List.getLast? hstops
  rw [List.getLast?_map, List.getLast?_map] at hlast
  have hany := congrArg (Option.any id) hlast
  simpa [Path.isCyclic, Option.any_map, Function.comp_def] using hany

/-- Joins are read as they are written, up to the end of the text or to one that leads back to
the start. -/
theorem joins?_written (h : ∀ t ∈ ts, t.Plain) (hopen : ∀ t ∈ ts.dropLast, t.stop.isSome)
    (hjs : List.Forall₂ JoinText.Shows ts js) {rest : List Char}
    (hrest : rest = [] ∨ ts.getLast?.any (·.stop.isNone)) :
    joins? (ts.flatMap (·.written) ++ rest) = some js := by
  induction hjs with
  | nil =>
      obtain rfl : rest = [] := by simpa using hrest
      rw [joins?]
      rfl
  | @cons t j ts js hj hjs ih =>
      have hread := joinHere?_written (h t List.mem_cons_self) (ts.flatMap (·.written) ++ rest)
      rw [List.flatMap_cons, List.append_assoc, joins?, seek_of_read hread]
      simp only [hj.read?_eq]
      rw [hj.isNone_eq]
      cases hjs with
      | nil =>
          split
          · rfl
          · next hstop =>
              rw [ih (by simp) (by simp) (.inl (by simpa [hstop] using hrest))]
              rfl
      | cons hk hks =>
          -- Behind this join another one follows, so it does not lead back to the start.
          have hstop : t.stop.isSome := hopen t (by simp)
          rw [if_neg (by simpa using Option.isSome_iff_ne_none.mp hstop),
            ih (fun u hu => h u (List.mem_cons_of_mem t hu))
              (fun u hu => hopen u (by simp [hu])) (by simpa using hrest)]
          rfl

end Joins

/-! ## paths -/

/-- A path is read as it is written, with nothing left out: it starts at the first point, has the
points of the joins in their order, and is a cycle if and only if the last join leads back to the
start.  Whatever follows a cycle does not count. -/
theorem path_of_written {first : List Char × List Char} {ts : List JoinText}
    (hfirst : PlainPair first) (hts : ∀ t ∈ ts, t.Plain)
    (hopen : ∀ t ∈ ts.dropLast, t.stop.isSome) :
    ∃ p : Path, point? first = some p.start ∧ List.Forall₂ JoinText.Shows ts p.joins ∧
      p.isCyclic = ts.getLast?.any (·.stop.isNone) ∧
      path (String.ofList (writtenPath first ts)) = .ok p ∧
      (p.isCyclic → ∀ more, path (String.ofList (writtenPath first ts ++ more)) = .ok p) := by
  obtain ⟨start, hstart⟩ := hfirst.exists_point
  obtain ⟨js, hjs⟩ := exists_shows hts
  have hcyclic := isCyclic_of_shows hjs start
  have hread {rest} (hrest : rest = [] ∨ ts.getLast?.any (·.stop.isNone)) :
      path (String.ofList (writtenPath first ts ++ rest)) = .ok ⟨start, js⟩ := by
    refine path_of_path? ?_
    rw [String.toList_ofList, writtenPath, List.append_assoc, path?, firstPair?_written hfirst]
    simp only [Option.bind_eq_bind, Option.bind_some, hstart,
      joins?_written hts hopen hjs hrest, Option.pure_def]
  refine ⟨⟨start, js⟩, hstart, hjs, hcyclic, ?_, fun h more => hread (.inr ?_)⟩
  · simpa using hread (.inl rfl)
  · exact hcyclic.symm.trans h

/-- A cycle of two joins, with blanks around a coordinate and other text behind it. -/
theorem path_of_written_cycle :
    let first := ("0".toList, "-.5".toList)
    let ts : List JoinText :=
      [⟨(" 1e1 ".toList, "0".toList), ("2".toList, "0".toList), some ("3".toList, "0".toList)⟩,
        ⟨("3".toList, "1".toList), ("0".toList, "1".toList), none⟩]
    let text :=
      "(0,-.5)..controls ( 1e1 ,0) and (2,0) ..(3,0)..controls (3,1) and (0,1) ..cycle"
    PlainPair first ∧ (∀ t ∈ ts, t.Plain) ∧ (∀ t ∈ ts.dropLast, t.stop.isSome) ∧
    writtenPath first ts = text.toList ∧
    ∃ p : Path, p.start = ⟨0, -0.5⟩ ∧ p.joins.length = 2 ∧ p.isCyclic = true ∧
      path text = .ok p ∧ path (text ++ "..controls (0,0) and (9,9) ..(9,0)") = .ok p := by
  intro first ts text
  have hfirst : PlainPair first := by decide +kernel
  have hts : ∀ t ∈ ts, t.Plain := by decide +kernel
  have hopen : ∀ t ∈ ts.dropLast, t.stop.isSome := by decide +kernel
  have hwritten : writtenPath first ts = text.toList := by decide +kernel
  have hstart : point? first = some ⟨0, -0.5⟩ := by decide +kernel
  obtain ⟨p, hp, hjs, hcyclic, hpath, hmore⟩ := path_of_written hfirst hts hopen
  have hcyclic : p.isCyclic = true := hcyclic.trans (by rfl)
  rw [hwritten] at hpath hmore
  refine ⟨hfirst, hts, hopen, hwritten, p, ?_, hjs.length_eq.symm, hcyclic, ?_, ?_⟩
  · exact Option.some.inj (hp.symm.trans hstart)
  · simpa using hpath
  · simpa using hmore hcyclic "..controls (0,0) and (9,9) ..(9,0)".toList

/-- A line end in front of a coordinate does not belong to the number, but the join with it is
not read, and nothing tells. -/
theorem path_with_line_end :
    let first := ("0".toList, "0".toList)
    let t : JoinText :=
      ⟨("1".toList, "0".toList), ("2".toList, "0".toList), some ("\n3".toList, "0".toList)⟩
    (∀ cs ∈ ["0".toList, "1".toList, "2".toList, "\n3".toList],
      (number? cs).isSome ∧ '(' ∉ cs ∧ ')' ∉ cs ∧ ',' ∉ cs) ∧
    path (String.ofList (writtenPath first [t])) = .ok ⟨⟨0, 0⟩, []⟩ := by
  intro first t
  exact ⟨by decide +kernel, path_of_path? (by decide +kernel)⟩

end Operand

end FontTrace
