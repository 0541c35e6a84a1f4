import FontTrace.Geometry.Pruning
import FontTrace.Proofs.Geometry.Segments

/-!
# FontTrace.Proofs.Geometry.Runs

What the pass over straight runs does at one node of a closed contour.  A contour that is
`front ++ a :: back` goes on from `a` with `back ++ front`, so a run from `a` may end behind
`a` in the list, or go on at the front and end before it.

* `grow_cases` — a run is extended over nodes on the curve as long as it stays straight;
* `longestRun?_eq` — the longest run of the pass is found that way;
* `shortenRunAt_cases` — at a node either nothing can be cut, or the nodes strictly inside the
  longest run go, which is one piece of the list or both of its ends;
* `shortenRuns_induction` — what holds at the start and at every node behind it holds at the end.
-/

namespace FontTrace

variable {straight : List Node → Bool}

/-! ## growing a run -/

/-- Every run that goes on from the given one and ends within `more` is straight. -/
def StraightWithin (straight : List Node → Bool) (run more : List Node) : Prop :=
  ∀ l n r, more = l ++ n :: r → n.onCurve = true → straight (run ++ l ++ [n]) = true

/-- The next run that goes on from the given one, to the first node of `rest` on the curve, is
not straight. -/
def BentBehind (straight : List Node → Bool) (run rest : List Node) : Prop :=
  ∀ l n r, rest = l ++ n :: r → AllOff l → n.onCurve = true → straight (run ++ l ++ [n]) = false

section Growing

variable {run more : List Node} {m : Node}

theorem straightWithin_cons : StraightWithin straight run (m :: more) ↔
    (m.onCurve = true → straight (run ++ [m]) = true) ∧
      StraightWithin straight (run ++ [m]) more := by
  constructor
  · intro h
    refine ⟨fun hm => by simpa using h [] m more rfl hm, fun l n r hsplit hn => ?_⟩
    simpa using h (m :: l) n r (by rw [hsplit, List.cons_append]) hn
  · rintro ⟨hm, hmore⟩ l n r hsplit hn
    cases l with
    | nil =>
        obtain ⟨rfl, rfl⟩ := List.cons.inj hsplit
        simpa using hm hn
    | cons l₀ l =>
        obtain ⟨rfl, hrest⟩ := List.cons.inj hsplit
        simpa using hmore l n r hrest hn

theorem bentBehind_cons_of_on (hm : m.onCurve = true) :
    BentBehind straight run (m :: more) ↔ straight (run ++ [m]) = false := by
  constructor
  · intro h
    simpa using h [] m more rfl allOff_nil hm
  · intro h l n r hsplit hl hn
    cases l with
    | nil =>
        obtain ⟨rfl, rfl⟩ := List.cons.inj hsplit
        simpa using h
    | cons l₀ l =>
        obtain ⟨rfl, -⟩ := List.cons.inj hsplit
        simp [(allOff_cons.mp hl).1] at hm

theorem bentBehind_cons_of_off (hm : m.onCurve = false) :
    BentBehind straight run (m :: more) ↔ BentBehind straight (run ++ [m]) more := by
  constructor
  · intro h l n r hsplit hl hn
    simpa using h (m :: l) n r (by rw [hsplit, List.cons_append]) (allOff_cons.mpr ⟨hm, hl⟩) hn
  · intro h l n r hsplit hl hn
    cases l with
    | nil =>
        obtain ⟨rfl, -⟩ := List.cons.inj hsplit
        simp [hm] at hn
    | cons l₀ l =>
        obtain ⟨rfl, hrest⟩ := List.cons.inj hsplit
        simpa using h l n r hrest (allOff_cons.mp hl).2 hn

end Growing

/-- The longest straight run that goes on from a given one, if every shorter one is straight as
well: one node after the other is taken in, and the run counts if it ends on the curve. -/
def grow (straight : List Node → Bool) : List Node → Option (List Node) → List Node →
    Option (List Node)
  | _, found, [] => found
  | run, found, n :: rest =>
    if n.onCurve then
      if straight (run ++ [n]) then grow straight (run ++ [n]) (some (run ++ [n])) rest else found
    else grow straight (run ++ [n]) found rest

/-- Either no run goes on from the given one, or the result is one between straight runs and
a bent one. -/
theorem grow_cases (straight : List Node → Bool) (run : List Node) (found : Option (List Node))
    (rest : List Node) :
    (grow straight run found rest = found ∧ BentBehind straight run rest) ∨
    ∃ l b r, rest = l ++ b :: r ∧ b.onCurve = true ∧ StraightWithin straight run (l ++ [b]) ∧
      BentBehind straight (run ++ l ++ [b]) r ∧
      grow straight run found rest = some (run ++ l ++ [b]) := by
  induction rest generalizing run found with
  | nil => exact .inl ⟨rfl, fun l n r h => by simp at h⟩
  | cons m rest ih =>
      by_cases hm : m.onCurve = true
      · by_cases hrun : straight (run ++ [m]) = true
        · have hgrow : grow straight run found (m :: rest) =
              grow straight (run ++ [m]) (some (run ++ [m])) rest := by simp [grow, hm, hrun]
          rcases ih (run ++ [m]) (some (run ++ [m])) with
            ⟨hsame, hbent⟩ | ⟨l, b, r, rfl, hb, hwithin, hbent, hlonger⟩
          · refine .inr ⟨[], m, rest, rfl, hm, ?_, by simpa using hbent, ?_⟩
            · exact straightWithin_cons.mpr ⟨fun _ => hrun, fun l n r h => by simp at h⟩
            · rw [hgrow, hsame, List.append_nil]
          · refine .inr ⟨m :: l, b, r, rfl, hb, ?_, by simpa using hbent, ?_⟩
            · exact straightWithin_cons.mpr ⟨fun _ => hrun, hwithin⟩
            · rw [hgrow, hlonger]
              simp
        · refine .inl ⟨by simp [grow, hm, hrun], ?_⟩
          exact (bentBehind_cons_of_on hm).mpr (by simpa using hrun)
      · have hoff : m.onCurve = false := by simpa using hm
        have hgrow : grow straight run found (m :: rest) =
            grow straight (run ++ [m]) found rest := by
          simp [grow, hoff]
        rcases ih (run ++ [m]) found with
          ⟨hsame, hbent⟩ | ⟨l, b, r, rfl, hb, hwithin, hbent, hlonger⟩
        · exact .inl ⟨hgrow.trans hsame, (bentBehind_cons_of_off hoff).mpr hbent⟩
        · refine .inr ⟨m :: l, b, r, rfl, hb, ?_, by simpa using hbent, ?_⟩
          · exact straightWithin_cons.mpr ⟨fun h => absurd h hm, hwithin⟩
          · rw [hgrow, hlonger]
            simp

/-- The longest straight run from the first node of a cyclic list, with at least one node
strictly inside. -/
def longestRunOf (straight : List Node → Bool) : List Node → Option (List Node)
  | a :: x :: rest => grow straight [a, x] none rest
  | _ => none

theorem length_grow (straight : List Node → Bool) (run : List Node) (found : Option (List Node))
    (rest : List Node) :
    (grow straight run found rest).map List.length =
      ((((rest.zipIdx run.length).filterMap fun (n, i) =>
          if n.onCurve then some (i + 1) else none).takeWhile
        fun k => straight ((run ++ rest).take k)).getLast?).or (found.map List.length) := by
  induction rest generalizing run found with
  | nil => simp [grow]
  | cons m rest ih =>
      have hlength : (run ++ [m]).length = run.length + 1 := by simp
      have hsplit : run ++ [m] ++ rest = run ++ m :: rest := by simp
      have htake : (run ++ m :: rest).take (run.length + 1) = run ++ [m] := by
        rw [← hsplit, ← hlength, List.take_left]
      by_cases hm : m.onCurve = true
      · by_cases hrun : straight (run ++ [m]) = true
        · have hih := ih (run ++ [m]) (some (run ++ [m]))
          rw [hlength, hsplit] at hih
          simp [grow, hm, hrun, hih, htake, List.getLast?_cons]
        · simp [grow, hm, hrun, htake]
      · have hih := ih (run ++ [m]) found
        rw [hlength, hsplit] at hih
        simp [grow, hm, hih]

theorem longestRun?_eq (cycle : List Node) :
    longestRun? straight cycle = (longestRunOf straight cycle).map List.length := by
  match cycle with
  | [] => rfl
  | [a] => rfl
  | a :: x :: rest =>
      have hgrow := length_grow straight [a, x] none rest
      rw [longestRunOf, hgrow]
      simp [longestRun?, runLengths]

/-! ## corners -/

/-- The pass cuts at a corner, where two segments meet in `p`: both together are straight, and
the first one alone is, unless it is a line. -/
def IsCut (straight : List Node → Bool) (h : Node) (l : List Node) (p : Node) (m : List Node)
    (q : Node) : Prop :=
  (l ≠ [] → straight (h :: (l ++ [p])) = true) ∧ straight (h :: (l ++ p :: (m ++ [q]))) = true

/-- The corner in front of `h`, of two segments of those that follow, is none to cut at. -/
def KeepsCorner (straight : List Node → Bool) (h : Node) (rest : List Node) : Prop :=
  ∀ l p m q r, rest = l ++ p :: (m ++ q :: r) → AllOff l → p.onCurve = true → AllOff m →
    q.onCurve = true → ¬IsCut straight h l p m q

/-- A run from `a` to `b` that the pass cuts: of its inner nodes some are on the curve, and
`rest` comes behind it. -/
structure IsCutRun (straight : List Node → Bool) (a : Node) (inside : List Node) (b : Node)
    (rest : List Node) : Prop where
  inner : ∃ n ∈ inside, n.onCurve = true
  onCurve : b.onCurve = true
  isStraight : straight (a :: (inside ++ [b])) = true
  bent : BentBehind straight (a :: (inside ++ [b])) rest
  /-- There is something to cut at the first corner. -/
  cuts : ¬KeepsCorner straight a (inside ++ b :: rest)

section Corners

variable {a b : Node} {rest : List Node}

/-- A run with a node on the curve strictly inside starts with a corner to cut at. -/
theorem not_keepsCorner_of_straightWithin {x : Node} {inside : List Node} (hb : b.onCurve = true)
    (hwithin : StraightWithin straight [a, x] (inside ++ [b]))
    (hinner : ∃ n ∈ x :: inside, n.onCurve = true) :
    ¬KeepsCorner straight a (x :: (inside ++ b :: rest)) := by
  obtain ⟨l, p, r, hp, hl, hon⟩ := exists_first_onCurve hinner
  have hend : ∃ n ∈ r ++ [b], n.onCurve = true := ⟨b, by simp, hb⟩
  obtain ⟨m, q, s, hq, hm, hqon⟩ := exists_first_onCurve hend
  intro hkeeps
  refine hkeeps l p m q (s ++ rest) ?_ hl hon hm hqon ?_
  · have hsplit : x :: (inside ++ b :: rest) = (x :: inside) ++ [b] ++ rest := by simp
    rw [hsplit, hp, List.append_assoc l, List.cons_append, hq]
    simp
  · cases l with
    | nil =>
        obtain ⟨rfl, rfl⟩ := List.cons.inj hp
        exact ⟨fun h => absurd rfl h, by simpa using hwithin m q s hq hqon⟩
    | cons x' l =>
        obtain ⟨rfl, hinside⟩ := List.cons.inj hp
        refine ⟨fun _ => ?_, ?_⟩
        · simpa using hwithin l p (r ++ [b]) (by simp [hinside]) hon
        · have hq' : inside ++ [b] = (l ++ p :: m) ++ q :: s := by simp [hinside, hq]
          simpa using hwithin (l ++ p :: m) q s hq' hqon

/-- A corner to cut at does not stay if no straight run goes on from its start, -/
theorem keepsCorner_of_bentBehind {x : Node} (h : BentBehind straight [a, x] rest) :
    KeepsCorner straight a (x :: rest) := by
  intro l p m q r hsplit hl hp hm hq hcut
  cases l with
  | nil =>
      obtain ⟨rfl, rfl⟩ := List.cons.inj hsplit
      have hbent := h m q r rfl hm hq
      have hstraight := hcut.2
      simp only [List.cons_append, List.nil_append] at hbent hstraight
      simp [hbent] at hstraight
  | cons x' l =>
      obtain ⟨rfl, rfl⟩ := List.cons.inj hsplit
      have hbent := h l p (m ++ q :: r) rfl (allOff_cons.mp hl).2 hp
      have hstraight := hcut.1 (List.cons_ne_nil _ _)
      simp only [List.cons_append, List.nil_append] at hbent hstraight
      simp [hbent] at hstraight

/-- or if the longest one has nothing but control points strictly inside. -/
theorem keepsCorner_of_allOff {inside : List Node} (hinside : AllOff inside) (hb : b.onCurve = true)
    (hbent : BentBehind straight (a :: (inside ++ [b])) rest) :
    KeepsCorner straight a (inside ++ b :: rest) := by
  intro l p m q r hsplit hl hp hm hq hcut
  obtain ⟨rfl, rfl, rfl⟩ := first_onCurve_unique hsplit hinside hb hl hp
  have hbent := hbent m q r rfl hm hq
  have hstraight := hcut.2
  simp only [List.cons_append, List.append_assoc, List.nil_append] at hbent
  simp [hbent] at hstraight

end Corners

theorem hasInnerNode_iff {a b : Node} {inside : List Node} :
    hasInnerNode (a :: (inside ++ [b])) = true ↔ ∃ n ∈ inside, n.onCurve = true := by
  simp [hasInnerNode]

theorem prefix_of_longestRunOf {cycle run : List Node}
    (h : longestRunOf straight cycle = some run) : run <+: cycle ∧ 3 ≤ run.length := by
  match cycle, h with
  | a :: x :: rest, h =>
      rcases grow_cases straight [a, x] none rest with
        ⟨hnone, -⟩ | ⟨l, b, r, rfl, -, -, -, hsome⟩
      · rw [longestRunOf, hnone] at h
        cases h
      · rw [longestRunOf, hsome] at h
        obtain rfl := Option.some.inj h
        exact ⟨⟨r, by simp⟩, by simp⟩

/-- The longest straight run from a node, if there is something to cut. -/
theorem longestRunOf_cases (straight : List Node → Bool) (a : Node) (rest : List Node) :
    (KeepsCorner straight a rest ∧
      ∀ run, longestRunOf straight (a :: rest) = some run → hasInnerNode run = false) ∨
    ∃ inside b r, rest = inside ++ b :: r ∧ IsCutRun straight a inside b r ∧
      longestRunOf straight (a :: rest) = some (a :: (inside ++ [b])) := by
  cases rest with
  | nil => exact .inl ⟨fun l p m q r h => by simp at h, fun run h => by cases h⟩
  | cons x rest =>
      rcases grow_cases straight [a, x] none rest with
        ⟨hnone, hbent⟩ | ⟨l, b, r, rfl, hb, hwithin, hbent, hsome⟩
      · refine .inl ⟨keepsCorner_of_bentBehind hbent, fun run h => ?_⟩
        rw [longestRunOf, hnone] at h
        cases h
      · by_cases hinner : ∃ n ∈ x :: l, n.onCurve = true
        · refine .inr ⟨x :: l, b, r, rfl, ⟨hinner, hb, ?_, by simpa using hbent, ?_⟩, ?_⟩
          · simpa using hwithin l b [] rfl hb
          · exact not_keepsCorner_of_straightWithin hb hwithin hinner
          · simpa [longestRunOf] using hsome
        · have hoff : AllOff (x :: l) := fun n hn => by
            simpa using fun h => hinner ⟨n, hn, h⟩
          refine .inl ⟨keepsCorner_of_allOff hoff hb (by simpa using hbent), fun run h => ?_⟩
          have hrun : run = a :: ((x :: l) ++ [b]) := by
            rw [longestRunOf, hsome] at h
            simpa using h.symm
          rw [hrun, ← Bool.not_eq_true, hasInnerNode_iff]
          exact hinner

/-! ## the cut -/

/-- The nodes without those strictly inside the run of so many nodes from the `i`-th on. -/
def withoutInside (nodes : List Node) (i size : Nat) : List Node :=
  let j := (i + size - 1) % nodes.length
  if i < j then nodes.take (i + 1) ++ nodes.drop j else (nodes.take (i + 1)).drop j

/-- A run that ends behind its start in the list. -/
theorem withoutInside_within (front : List Node) (a : Node) (inside : List Node) (b : Node)
    (after : List Node) :
    withoutInside (front ++ a :: (inside ++ b :: after)) front.length (inside.length + 2) =
      front ++ a :: b :: after := by
  have hstart : front ++ a :: (inside ++ b :: after) = front ++ [a] ++ (inside ++ b :: after) := by
    simp
  have hend : front ++ a :: (inside ++ b :: after) = front ++ a :: inside ++ b :: after := by simp
  have hplace : front.length + (inside.length + 2) - 1 = (front ++ a :: inside).length := by simp
  have hlt : front.length < (front ++ a :: inside).length := by simp
  have htake : (front ++ a :: (inside ++ b :: after)).take (front.length + 1) = front ++ [a] := by
    rw [hstart]
    exact List.take_left' (by simp)
  have hdrop : (front ++ a :: (inside ++ b :: after)).drop (front ++ a :: inside).length =
      b :: after := by
    rw [hend, List.drop_left]
  rw [withoutInside, hplace, Nat.mod_eq_of_lt (by simp)]
  simp only [hlt, if_true, htake, hdrop]
  simp

/-- A run that goes on at the front. -/
theorem withoutInside_across (before : List Node) (b : Node) (middle : List Node) (a : Node)
    (back : List Node) :
    withoutInside (before ++ b :: middle ++ a :: back) (before ++ b :: middle).length
      ((back ++ before).length + 2) = b :: (middle ++ [a]) := by
  have hplace : (before ++ b :: middle).length + ((back ++ before).length + 2) - 1 =
      before.length + (before ++ b :: middle ++ a :: back).length := by
    simp only [List.length_append, List.length_cons]
    omega
  have hle : ¬(before ++ b :: middle).length < before.length := by simp
  have htake : (before ++ b :: middle ++ a :: back).take ((before ++ b :: middle).length + 1) =
      before ++ b :: (middle ++ [a]) := by
    have hnodes : before ++ b :: middle ++ a :: back = before ++ b :: middle ++ [a] ++ back := by
      simp
    rw [hnodes, List.take_left' (by simp; omega)]
    simp
  rw [withoutInside, hplace, Nat.add_mod_right, Nat.mod_eq_of_lt (by simp)]
  simp only [hle, if_false, htake, List.drop_left]

theorem rotatedTo_length (front : List Node) (a : Node) (back : List Node) :
    rotatedTo (front ++ a :: back) front.length = a :: (back ++ front) := by
  simp [rotatedTo]

/-- Where a run from a node ends: behind it in the list, or before it. -/
theorem split_behind {back front inside rest : List Node} {b : Node}
    (h : back ++ front = inside ++ b :: rest) :
    (∃ after, back = inside ++ b :: after ∧ rest = after ++ front) ∨
      ∃ before, front = before ++ b :: rest ∧ inside = back ++ before := by
  rcases List.append_eq_append_iff.mp h with ⟨before, rfl, rfl⟩ | ⟨after, rfl, hrest⟩
  · exact .inr ⟨before, rfl, rfl⟩
  · cases after with
    | nil => exact .inr ⟨[], by simpa using hrest.symm, by simp⟩
    | cons b' after =>
        obtain ⟨rfl, rfl⟩ := List.cons.inj hrest
        exact .inl ⟨after, rfl, rfl⟩

theorem shortenRunAt_of_no_run {nodes : List Node} {i : Nat}
    (h : longestRunOf straight (rotatedTo nodes i) = none) :
    shortenRunAt straight nodes i = nodes := by
  simp only [shortenRunAt, longestRun?_eq, h, Option.map_none]

theorem shortenRunAt_of_run {nodes run : List Node} {i : Nat}
    (h : longestRunOf straight (rotatedTo nodes i) = some run) :
    shortenRunAt straight nodes i =
      if hasInnerNode run then withoutInside nodes i run.length else nodes := by
  have htake := List.prefix_iff_eq_take.mp (prefix_of_longestRunOf h).1
  simp only [shortenRunAt, longestRun?_eq, h, Option.map_some, ← htake, withoutInside]

/-- What the pass does at a node: nothing, or it cuts a run that ends behind the node in the
list, or one that goes on at the front. -/
theorem shortenRunAt_cases (straight : List Node → Bool) (front : List Node) (a : Node)
    (back : List Node) :
    (KeepsCorner straight a (back ++ front) ∧
      shortenRunAt straight (front ++ a :: back) front.length = front ++ a :: back) ∨
    (∃ inside b after, back = inside ++ b :: after ∧ IsCutRun straight a inside b (after ++ front) ∧
      shortenRunAt straight (front ++ a :: back) front.length = front ++ a :: b :: after) ∨
    (∃ before b middle, front = before ++ b :: middle ∧
      IsCutRun straight a (back ++ before) b middle ∧
      shortenRunAt straight (front ++ a :: back) front.length = b :: (middle ++ [a])) := by
  have hcycle := rotatedTo_length front a back
  rcases longestRunOf_cases straight a (back ++ front) with
    ⟨hkeeps, hrun⟩ | ⟨inside, b, rest, hsplit, hcut, hrun⟩
  · refine .inl ⟨hkeeps, ?_⟩
    cases hlongest : longestRunOf straight (a :: (back ++ front)) with
    | none =>
        rw [← hcycle] at hlongest
        exact shortenRunAt_of_no_run hlongest
    | some run =>
        have hinner := hrun run hlongest
        rw [← hcycle] at hlongest
        rw [shortenRunAt_of_run hlongest, hinner]
        rfl
  · rw [← hcycle] at hrun
    have hshorten : shortenRunAt straight (front ++ a :: back) front.length =
        withoutInside (front ++ a :: back) front.length (inside.length + 2) := by
      rw [shortenRunAt_of_run hrun, hasInnerNode_iff.mpr hcut.inner]
      simp
    rcases split_behind hsplit with ⟨after, rfl, rfl⟩ | ⟨before, rfl, rfl⟩
    · refine .inr (.inl ⟨inside, b, after, rfl, hcut, hshorten.trans ?_⟩)
      exact withoutInside_within front a inside b after
    · refine .inr (.inr ⟨before, b, rest, rfl, hcut, hshorten.trans ?_⟩)
      exact withoutInside_across before b rest a back

/-- A cut makes the contour shorter. -/
theorem shortenRunAt_keeps_or_lt (straight : List Node → Bool) (front : List Node) (a : Node)
    (back : List Node) :
    (KeepsCorner straight a (back ++ front) ∧
      shortenRunAt straight (front ++ a :: back) front.length = front ++ a :: back) ∨
    (¬KeepsCorner straight a (back ++ front) ∧
      (shortenRunAt straight (front ++ a :: back) front.length).length <
        (front ++ a :: back).length) := by
  rcases shortenRunAt_cases straight front a back with
    h | ⟨inside, b, after, rfl, hrun, h⟩ | ⟨before, b, middle, rfl, hrun, h⟩
  · exact .inl h
  · obtain ⟨n, hn, -⟩ := hrun.inner
    have hinside := List.length_pos_of_mem hn
    refine .inr ⟨by simpa using hrun.cuts, ?_⟩
    rw [h]
    simp only [List.length_append, List.length_cons]
    omega
  · obtain ⟨n, hn, -⟩ := hrun.inner
    have hinside := List.length_pos_of_mem hn
    refine .inr ⟨by simpa using hrun.cuts, ?_⟩
    rw [h]
    simp only [List.length_append, List.length_cons, List.length_nil] at hinside ⊢
    omega

theorem length_shortenRunAt_le (straight : List Node → Bool) (front : List Node) (a : Node)
    (back : List Node) :
    (shortenRunAt straight (front ++ a :: back) front.length).length ≤
      (front ++ a :: back).length := by
  rcases shortenRunAt_keeps_or_lt straight front a back with ⟨-, h⟩ | ⟨-, h⟩
  · exact Nat.le_of_eq (congrArg List.length h)
  · exact Nat.le_of_lt h

/-! ## the pass -/

theorem exists_split_of_getElem? {nodes : List Node} {i : Nat} {n : Node} (h : nodes[i]? = some n) :
    ∃ front back, nodes = front ++ n :: back ∧ front.length = i := by
  obtain ⟨hi, rfl⟩ := List.getElem?_eq_some_iff.mp h
  refine ⟨nodes.take i, nodes.drop (i + 1), ?_, List.length_take_of_le (Nat.le_of_lt hi)⟩
  rw [List.getElem_cons_drop, List.take_append_drop]

/-- What holds at the first node, and at each node behind the one before it, holds behind the
last one.  The fuel is never used up, as no step makes the contour longer. -/
theorem shortenRunsFrom_induction {P : Nat → List Node → Prop}
    (skip : ∀ front n back, n.onCurve = false → P front.length (front ++ n :: back) →
      P (front.length + 1) (front ++ n :: back))
    (visit : ∀ front a back, a.onCurve = true → P front.length (front ++ a :: back) →
      P (front.length + 1) (shortenRunAt straight (front ++ a :: back) front.length))
    {fuel i : Nat} {nodes : List Node} (hfuel : nodes.length < fuel + i) (h : P i nodes) :
    ∃ last, (shortenRunsFrom straight fuel nodes i).length ≤ last ∧
      P last (shortenRunsFrom straight fuel nodes i) := by
  induction fuel generalizing i nodes with
  | zero => exact ⟨i, by rw [shortenRunsFrom]; omega, h⟩
  | succ fuel ih =>
      rw [shortenRunsFrom]
      cases hn : nodes[i]? with
      | none => exact ⟨i, List.getElem?_eq_none_iff.mp hn, h⟩
      | some n =>
          obtain ⟨front, back, rfl, rfl⟩ := exists_split_of_getElem? hn
          cases hon : n.onCurve with
          | false =>
              simp only [hon, Bool.false_eq_true, if_false]
              exact ih (by omega) (skip front n back hon h)
          | true =>
              simp only [hon, if_true]
              have hlength := length_shortenRunAt_le straight front n back
              exact ih (by omega) (visit front n back hon h)

theorem shortenRuns_induction (straight : List Node → Bool) {P : Nat → List Node → Prop}
    {nodes : List Node} (start : P 0 nodes)
    (skip : ∀ front n back, n.onCurve = false → P front.length (front ++ n :: back) →
      P (front.length + 1) (front ++ n :: back))
    (visit : ∀ front a back, a.onCurve = true → P front.length (front ++ a :: back) →
      P (front.length + 1) (shortenRunAt straight (front ++ a :: back) front.length)) :
    ∃ last, (shortenRuns straight nodes).length ≤ last ∧ P last (shortenRuns straight nodes) :=
  shortenRunsFrom_induction skip visit (Nat.lt_succ_self _) start

end FontTrace
