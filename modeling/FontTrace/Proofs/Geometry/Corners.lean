import FontTrace.Proofs.Geometry.Passes
import FontTrace.Proofs.Geometry.Runs
import Mathlib.Data.List.Sublists

/-!
# FontTrace.Proofs.Geometry.Corners

Whether the pass over straight runs has anything left to do when it is made once more.  It goes
round a contour once, so a cut at a node can make straight the corner in front of that node, which
was passed by before.

* `shortenRuns_eq_self_iff` — the pass does nothing if and only if there is no corner to cut at;
* `pruned_visit` — with exact lines, and no two nodes on the curve in one place, a cut makes no
  corner straight that was not, so one round is enough;
* `removeCollinear_twice_iff` — both for an outline, and `removeCollinear_twice_spike` — a contour
  that runs out and back to the same place, which takes a second round.
-/

namespace FontTrace

variable {straight : List Node → Bool}

/-! ## corners of a contour -/

section Corner

variable {a h p q : Node} {l m r g s s' : List Node}

theorem keepsCorner_iff (hl : AllOff l) (hp : p.onCurve = true) (hm : AllOff m)
    (hq : q.onCurve = true) :
    KeepsCorner straight h (l ++ p :: (m ++ q :: r)) ↔ ¬IsCut straight h l p m q := by
  constructor
  · exact fun hkeeps => hkeeps l p m q r rfl hl hp hm hq
  · intro hcut l' p' m' q' r' hsplit hl' hp' hm' hq'
    obtain ⟨rfl, rfl, hrest⟩ := first_onCurve_unique hsplit hl hp hl' hp'
    obtain ⟨rfl, rfl, rfl⟩ := first_onCurve_unique hrest hm hq hm' hq'
    exact hcut

/-- A corner ends at the second node on the curve, whatever comes behind it. -/
theorem keepsCorner_congr (ha : a.onCurve = true) (hg : ∃ n ∈ g, n.onCurve = true) :
    KeepsCorner straight h (g ++ a :: s) ↔ KeepsCorner straight h (g ++ a :: s') := by
  obtain ⟨l, p, g', rfl, hl, hp⟩ := exists_first_onCurve hg
  have hend : ∃ n ∈ g' ++ [a], n.onCurve = true := ⟨a, by simp, ha⟩
  obtain ⟨m, q, r, hq, hm, hqon⟩ := exists_first_onCurve hend
  have hsplit : ∀ t, l ++ p :: g' ++ a :: t = l ++ p :: (m ++ q :: (r ++ t)) := fun t => by
    have hmiddle : l ++ p :: g' ++ a :: t = l ++ p :: (g' ++ [a] ++ t) := by simp
    rw [hmiddle, hq]
    simp
  rw [hsplit s, hsplit s', keepsCorner_iff hl hp hm hqon, keepsCorner_iff hl hp hm hqon]

end Corner

/-- At no node before the place `i` there is a corner to cut at. -/
def KeepsCornersTo (straight : List Node → Bool) (i : Nat) (nodes : List Node) : Prop :=
  ∀ front h back, nodes = front ++ h :: back → front.length < i → h.onCurve = true →
    KeepsCorner straight h (back ++ front)

/-- A closed contour has no corner to cut at. -/
def KeepsCorners (straight : List Node → Bool) (nodes : List Node) : Prop :=
  ∀ front h back, nodes = front ++ h :: back → h.onCurve = true →
    KeepsCorner straight h (back ++ front)

theorem keepsCornersTo_zero (nodes : List Node) : KeepsCornersTo straight 0 nodes :=
  fun _ _ _ _ hlt => absurd hlt (Nat.not_lt_zero _)

theorem keepsCorners_of_to {nodes : List Node} {i : Nat} (hi : nodes.length ≤ i)
    (h : KeepsCornersTo straight i nodes) : KeepsCorners straight nodes := by
  rintro front p back rfl hp
  refine h front p back rfl ?_ hp
  rw [List.length_append, List.length_cons] at hi
  omega

theorem KeepsCorners.to {nodes : List Node} (h : KeepsCorners straight nodes) (i : Nat) :
    KeepsCornersTo straight i nodes :=
  fun front p back hsplit _ hp => h front p back hsplit hp

theorem keepsCornersTo_succ {front back : List Node} {n : Node}
    (h : KeepsCornersTo straight front.length (front ++ n :: back))
    (hn : n.onCurve = true → KeepsCorner straight n (back ++ front)) :
    KeepsCornersTo straight (front.length + 1) (front ++ n :: back) := by
  intro f p k hsplit hlt hp
  rcases Nat.lt_succ_iff_lt_or_eq.mp hlt with hbefore | hhere
  · exact h f p k hsplit hbefore hp
  · obtain ⟨rfl, hrest⟩ := List.append_inj hsplit hhere.symm
    obtain ⟨rfl, rfl⟩ := List.cons.inj hrest
    exact hn hp

/-- Without a corner to cut at, the contour stays as it is; a cut makes it shorter, and no step
makes it longer again. -/
theorem shortenRuns_eq_self_iff {nodes : List Node} :
    shortenRuns straight nodes = nodes ↔ KeepsCorners straight nodes := by
  constructor
  · intro hsame
    have hskip : ∀ front n back, n.onCurve = false →
        (front ++ n :: back = nodes ∧ KeepsCornersTo straight front.length (front ++ n :: back) ∨
          (front ++ n :: back).length < nodes.length) →
        front ++ n :: back = nodes ∧
            KeepsCornersTo straight (front.length + 1) (front ++ n :: back) ∨
          (front ++ n :: back).length < nodes.length := by
      intro front n back hoff h
      exact h.imp_left fun ⟨hxs, hkeeps⟩ =>
        ⟨hxs, keepsCornersTo_succ hkeeps fun hon => absurd hon (by simp [hoff])⟩
    obtain ⟨last, hlast, h⟩ := shortenRuns_induction straight
      (P := fun i xs => xs = nodes ∧ KeepsCornersTo straight i xs ∨ xs.length < nodes.length)
      (.inl ⟨rfl, keepsCornersTo_zero nodes⟩) hskip fun front a back ha h => by
        rcases shortenRunAt_keeps_or_lt straight front a back with ⟨hcorner, hstays⟩ | ⟨-, hlt⟩
        · rw [hstays]
          exact h.imp_left fun ⟨hxs, hkeeps⟩ => ⟨hxs, keepsCornersTo_succ hkeeps fun _ => hcorner⟩
        · rcases h with ⟨rfl, -⟩ | hshorter
          · exact .inr hlt
          · exact .inr (Nat.lt_trans hlt hshorter)
    rw [hsame] at hlast h
    rcases h with ⟨-, hkeeps⟩ | hshorter
    · exact keepsCorners_of_to hlast hkeeps
    · exact absurd hshorter (Nat.lt_irrefl _)
  · intro hkeeps
    obtain ⟨-, -, h⟩ := shortenRuns_induction straight (P := fun _ xs => xs = nodes) rfl
      (fun _ _ _ _ h => h) fun front a back ha h => by
        subst h
        rcases shortenRunAt_keeps_or_lt straight front a back with ⟨-, hstays⟩ | ⟨hcuts, -⟩
        · exact hstays
        · exact absurd (hkeeps front a back rfl ha) hcuts
    exact h

/-! ## exact lines -/

/-- Some nodes of a closed contour, in their order around it. -/
def CyclicSublist (l nodes : List Node) : Prop :=
  ∃ front back, nodes = front ++ back ∧ l.Sublist (back ++ front)

/-- A test that answers for the nodes of a closed contour as exact lines do: nodes are straight if
a line has them all, and two lines meet in one position at most. -/
def FollowsLines (straight : List Node → Bool) (nodes : List Node) : Prop :=
  ∃ lines : List (List Node),
    (∀ l, CyclicSublist l nodes → (straight l = true ↔ ∃ line ∈ lines, ∀ n ∈ l, n ∈ line)) ∧
    ∀ line ∈ lines, ∀ line' ∈ lines, ∀ a ∈ line, a ∈ line' → ∀ b ∈ line, b ∈ line' →
      a.pos ≠ b.pos → line = line'

/-- No two nodes of a contour on the curve are in one place. -/
def DistinctCorners (nodes : List Node) : Prop :=
  nodes.Pairwise fun n m => n.onCurve = true → m.onCurve = true → n.pos ≠ m.pos

instance (nodes : List Node) : Decidable (DistinctCorners nodes) :=
  inferInstanceAs (Decidable (nodes.Pairwise _))

/-- Where two segments meet, they are not straight together. -/
def BendsAtCorners (straight : List Node → Bool) (nodes : List Node) : Prop :=
  ∀ front h back, nodes = front ++ h :: back → h.onCurve = true → ∀ l p m q r,
    back ++ front = l ++ p :: (m ++ q :: r) → AllOff l → p.onCurve = true → AllOff m →
    q.onCurve = true → straight (h :: (l ++ p :: (m ++ [q]))) = false

section Lines

variable {nodes front back l l' m : List Node} {a b : Node}

theorem cyclicSublist_of_round (h : (front ++ back).Sublist nodes)
    (hl : l.Sublist (back ++ front)) : CyclicSublist l nodes := by
  obtain ⟨front', back', rfl, hfront, hback⟩ := List.append_sublist_iff.mp h
  exact ⟨front', back', rfl, hl.trans (hback.append hfront)⟩

theorem cyclicSublist_of_sublist (h : l.Sublist nodes) : CyclicSublist l nodes :=
  ⟨[], nodes, rfl, by simpa using h⟩

theorem CyclicSublist.of_sublist (h : CyclicSublist l nodes) (hm : m.Sublist l) :
    CyclicSublist m nodes := by
  obtain ⟨front, back, rfl, hl⟩ := h
  exact ⟨front, back, rfl, hm.trans hl⟩

/-- Two straight lists that have two positions in common are on one line. -/
theorem FollowsLines.join (hlines : FollowsLines straight nodes) (hl : CyclicSublist l nodes)
    (hl' : CyclicSublist l' nodes) (hm : CyclicSublist m nodes) (hstraight : straight l = true)
    (hstraight' : straight l' = true) (hne : a.pos ≠ b.pos)
    (hshared : (a ∈ l ∧ a ∈ l') ∧ b ∈ l ∧ b ∈ l') (hsub : ∀ n ∈ m, n ∈ l ∨ n ∈ l') : straight m = true := by
  obtain ⟨lines, hiff, hmeet⟩ := hlines
  obtain ⟨⟨ha, ha'⟩, hb, hb'⟩ := hshared
  obtain ⟨line, hline, hon⟩ := (hiff l hl).mp hstraight
  obtain ⟨line', hline', hon'⟩ := (hiff l' hl').mp hstraight'
  obtain rfl :=
    hmeet line hline line' hline' a (hon a ha) (hon' a ha') b (hon b hb) (hon' b hb') hne
  exact (hiff m hm).mpr ⟨line, hline, fun n hn => (hsub n hn).elim (hon n) (hon' n)⟩

theorem pos_ne_of_round (hdistinct : DistinctCorners nodes)
    (h : (front ++ a :: back).Sublist nodes) (ha : a.onCurve = true) (hb : b.onCurve = true)
    (hmem : b ∈ back ++ front) : a.pos ≠ b.pos := by
  obtain ⟨-, hback, hacross⟩ := List.pairwise_append.mp (hdistinct.sublist h)
  rcases List.mem_append.mp hmem with hmem | hmem
  · exact (List.pairwise_cons.mp hback).1 b hmem ha hb
  · exact (hacross b hmem a List.mem_cons_self hb ha).symm

end Lines

/-! ## one round is enough -/

section Round

variable {nodes inside rest g s : List Node} {a b h : Node}

/-- Behind a cut there is no corner to cut at in front of its start, as no longer run was
straight. -/
theorem keepsCorner_at_cut (hlines : FollowsLines straight nodes)
    (hround : CyclicSublist (a :: (inside ++ b :: rest)) nodes)
    (hrun : IsCutRun straight a inside b rest) (hne : a.pos ≠ b.pos) :
    KeepsCorner straight a (b :: rest) := by
  intro l p m q r hsplit hl hp hm hq hcut
  obtain ⟨rfl, rfl, rfl⟩ := first_onCurve_unique (l := []) hsplit allOff_nil hrun.onCurve hl hp
  have hbent := hrun.bent m q r rfl hm hq
  have hfirst : CyclicSublist (a :: (inside ++ [b])) nodes := hround.of_sublist (by simp)
  have hnext : CyclicSublist (a :: b :: (m ++ [q])) nodes := hround.of_sublist (by simp)
  have hboth : CyclicSublist (a :: (inside ++ [b]) ++ m ++ [q]) nodes :=
    hround.of_sublist (by simp)
  have hlonger : straight (a :: (inside ++ [b]) ++ m ++ [q]) = true := by
    refine hlines.join hfirst hnext hboth hrun.isStraight hcut.2 hne (by simp) fun n hn => ?_
    simp only [List.cons_append, List.append_assoc, List.mem_cons, List.mem_append] at hn ⊢
    tauto
  exact absurd (hlonger.symm.trans hbent) (by decide)

/-- The corner that ends at the start of a cut is as straight as it was, or it goes on to the end
of the cut, where it was not straight with the nodes in between. -/
theorem keepsCorner_before_cut (hlines : FollowsLines straight nodes)
    (hround : CyclicSublist (h :: (g ++ a :: (inside ++ s))) nodes) (ha : a.onCurve = true)
    (hb : b.onCurve = true) (hinner : ∃ n ∈ inside, n.onCurve = true)
    (hrun : straight (a :: (inside ++ [b])) = true) (hne : a.pos ≠ b.pos)
    (hs : s = [] ∨ ∃ t, s = b :: t) (hkeeps : KeepsCorner straight h (g ++ a :: (inside ++ s))) :
    KeepsCorner straight h (g ++ a :: s) := by
  by_cases hg : ∃ n ∈ g, n.onCurve = true
  · exact (keepsCorner_congr ha hg).mp hkeeps
  · have hoff : AllOff g := fun n hn => by simpa using fun hon => hg ⟨n, hn, hon⟩
    obtain ⟨m, q, r, rfl, hm, hq⟩ := exists_first_onCurve hinner
    have hbent : ¬IsCut straight h g a m q := by
      rw [List.append_assoc, List.cons_append] at hkeeps
      exact (keepsCorner_iff hoff ha hm hq).mp hkeeps
    intro l' p' m' q' r' hsplit hl' hp' hm' hq' hcut
    obtain ⟨rfl, rfl, hrest⟩ := first_onCurve_unique hsplit hoff ha hl' hp'
    rcases hs with rfl | ⟨t, rfl⟩
    · simp at hrest
    · obtain ⟨rfl, rfl, rfl⟩ := first_onCurve_unique (l := []) hrest allOff_nil hb hm' hq'
      have hcorner : CyclicSublist (h :: (g ++ a :: ([] ++ [b]))) nodes :=
        hround.of_sublist (by simp)
      have hcutRun : CyclicSublist (a :: (m ++ q :: r ++ [b])) nodes := hround.of_sublist (by simp)
      have hinside : CyclicSublist (h :: (g ++ a :: (m ++ [q]))) nodes :=
        hround.of_sublist (by simp)
      refine hbent ⟨hcut.1, ?_⟩
      refine hlines.join hcorner hcutRun hinside hcut.2 hrun hne (by simp) fun n hn => ?_
      simp only [List.cons_append, List.append_assoc, List.mem_cons, List.mem_append] at hn ⊢
      tauto

/-- The list up to a place, split at an earlier one. -/
theorem exists_split_before {front front' l back : List Node} {h : Node}
    (hsplit : front ++ l = front' ++ h :: back) (hlt : front'.length < front.length) :
    ∃ g, front = front' ++ h :: g ∧ back = g ++ l := by
  rcases List.append_eq_append_iff.mp hsplit with ⟨g, rfl, -⟩ | ⟨g, rfl, hg⟩
  · simp only [List.length_append] at hlt
    omega
  · cases g with
    | nil => simp at hlt
    | cons h' g =>
        obtain ⟨rfl, rfl⟩ := List.cons.inj hg
        exact ⟨g, rfl, rfl⟩

/-- What is left of the nodes of a closed contour when the pass has come to the place `i`. -/
structure PrunedTo (straight : List Node → Bool) (nodes : List Node) (i : Nat) (xs : List Node) :
    Prop where
  inOrder : xs.Sublist nodes
  bent : straight xs = false
  corners : KeepsCornersTo straight i xs

/-- Taking out what is strictly inside a straight run does not make the contour straight as a
whole. -/
theorem bent_of_cut {xs xs' run : List Node} (hlines : FollowsLines straight nodes)
    (hxs : CyclicSublist xs nodes) (hxs' : CyclicSublist xs' nodes) (hrun : CyclicSublist run nodes)
    (hbent : straight xs = false) (hstraight : straight run = true) (hne : a.pos ≠ b.pos)
    (hshared : (a ∈ run ∧ a ∈ xs') ∧ b ∈ run ∧ b ∈ xs') (hsub : ∀ n ∈ xs, n ∈ run ∨ n ∈ xs') :
    straight xs' = false := by
  rw [← Bool.not_eq_true]
  intro hstraight'
  have hwhole := hlines.join hrun hxs' hxs hstraight hstraight' hne hshared hsub
  exact absurd (hwhole.symm.trans hbent) (by decide)

/-- A cut that ends behind its start in the list. -/
theorem prunedTo_within {front after : List Node} (hlines : FollowsLines straight nodes)
    (hdistinct : DistinctCorners nodes) (ha : a.onCurve = true)
    (hrun : IsCutRun straight a inside b (after ++ front))
    (h : PrunedTo straight nodes front.length (front ++ a :: (inside ++ b :: after))) :
    PrunedTo straight nodes (front.length + 1) (front ++ a :: b :: after) := by
  obtain ⟨hinOrder, hbent, hcorners⟩ := h
  have hne : a.pos ≠ b.pos := pos_ne_of_round hdistinct hinOrder ha hrun.onCurve (by simp)
  have hround : CyclicSublist (a :: (inside ++ b :: after) ++ front) nodes :=
    cyclicSublist_of_round hinOrder (.refl _)
  have hlist : CyclicSublist (front ++ a :: (inside ++ b :: after)) nodes :=
    cyclicSublist_of_sublist hinOrder
  refine ⟨.trans (by simp) hinOrder, ?_, keepsCornersTo_succ ?_ fun _ => ?_⟩
  · refine bent_of_cut hlines hlist (hlist.of_sublist (by simp)) (hround.of_sublist (by simp)) hbent
      hrun.isStraight hne (by simp) fun n hn => ?_
    simp only [List.mem_append, List.mem_cons] at hn ⊢
    tauto
  · intro f h k hsplit hlt hh
    obtain ⟨g, rfl, rfl⟩ := exists_split_before hsplit hlt
    have hold : f ++ h :: g ++ a :: (inside ++ b :: after) =
        f ++ h :: (g ++ a :: (inside ++ b :: after)) := by simp
    have hkeeps := hcorners f h (g ++ a :: (inside ++ b :: after)) hold hlt hh
    rw [hold] at hinOrder
    have hround' : CyclicSublist (h :: (g ++ a :: (inside ++ b :: (after ++ f)))) nodes :=
      cyclicSublist_of_round hinOrder (by simp)
    have hcorner : KeepsCorner straight h (g ++ a :: (b :: (after ++ f))) :=
      keepsCorner_before_cut hlines hround' ha hrun.onCurve hrun.inner hrun.isStraight hne
        (.inr ⟨after ++ f, rfl⟩) (by simpa using hkeeps)
    simpa using hcorner
  · exact keepsCorner_at_cut hlines (by simpa using hround) hrun hne

/-- A cut that goes on at the front: what is left starts where it ends, and there is no other node
to come to. -/
theorem prunedTo_across {before middle back : List Node} {i : Nat}
    (hlines : FollowsLines straight nodes) (hdistinct : DistinctCorners nodes)
    (ha : a.onCurve = true) (hrun : IsCutRun straight a (back ++ before) b middle)
    (h : PrunedTo straight nodes (before ++ b :: middle).length
      (before ++ b :: middle ++ a :: back)) :
    PrunedTo straight nodes i (b :: (middle ++ [a])) := by
  obtain ⟨hinOrder, hbent, hcorners⟩ := h
  have hne : a.pos ≠ b.pos := pos_ne_of_round hdistinct hinOrder ha hrun.onCurve (by simp)
  have hround : CyclicSublist (a :: back ++ (before ++ b :: middle)) nodes :=
    cyclicSublist_of_round hinOrder (.refl _)
  have hlist : CyclicSublist (before ++ b :: middle ++ a :: back) nodes :=
    cyclicSublist_of_sublist hinOrder
  have hshorter : (b :: (middle ++ [a])).Sublist (before ++ b :: middle ++ a :: back) := by
    have hend : [a].Sublist (a :: back) := (List.nil_sublist back).cons_cons a
    rw [List.append_assoc]
    exact ((hend.append_left middle).cons_cons b).trans (List.sublist_append_right _ _)
  have hrunAround : CyclicSublist (a :: (back ++ before ++ [b])) nodes :=
    hround.of_sublist (by simp)
  refine ⟨hshorter.trans hinOrder, ?_, KeepsCorners.to (keepsCorners_of_to (Nat.le_refl _) ?_) i⟩
  · refine bent_of_cut hlines hlist (hlist.of_sublist hshorter) hrunAround hbent hrun.isStraight
      hne (by simp) fun n hn => ?_
    simp only [List.mem_append, List.mem_cons] at hn ⊢
    tauto
  · have hlast : (b :: (middle ++ [a])).length = (b :: middle).length + 1 := by simp
    have hshape : b :: (middle ++ [a]) = b :: middle ++ a :: [] := rfl
    rw [hlast, hshape]
    refine keepsCornersTo_succ (fun f h k hsplit hlt hh => ?_) fun _ => ?_
    · obtain ⟨g, hfront, rfl⟩ := exists_split_before hsplit hlt
      have hs : f = [] ∨ ∃ t, f = b :: t := by
        cases f with
        | nil => exact .inl rfl
        | cons b' f => exact .inr ⟨f, by rw [(List.cons.inj hfront).1]⟩
      have hold : before ++ b :: middle ++ a :: back = before ++ f ++ h :: (g ++ a :: back) := by
        rw [hfront]
        simp
      have hplace : (before ++ f).length < (before ++ b :: middle).length := by
        simp only [List.length_append] at hlt ⊢
        omega
      have hkeeps := hcorners (before ++ f) h (g ++ a :: back) hold hplace hh
      rw [hold] at hinOrder
      have hround' : CyclicSublist (h :: (g ++ a :: (back ++ before ++ f))) nodes :=
        cyclicSublist_of_round hinOrder (by simp)
      have hcorner : KeepsCorner straight h (g ++ a :: f) :=
        keepsCorner_before_cut hlines hround' ha hrun.onCurve hrun.inner hrun.isStraight hne hs
          (by simpa using hkeeps)
      simpa using hcorner
    · exact keepsCorner_at_cut hlines (by simpa using hround) hrun hne

/-- With exact lines, and no two corners in one place, one round leaves nothing to cut. -/
theorem prunedTo_shortenRuns (hlines : FollowsLines straight nodes)
    (hdistinct : DistinctCorners nodes) (hbent : straight nodes = false) :
    (shortenRuns straight nodes).Sublist nodes ∧ straight (shortenRuns straight nodes) = false ∧
      KeepsCorners straight (shortenRuns straight nodes) := by
  obtain ⟨last, hlast, h⟩ := shortenRuns_induction straight (P := PrunedTo straight nodes)
    ⟨.refl _, hbent, keepsCornersTo_zero nodes⟩
    (fun front n back hoff h => ⟨h.inOrder, h.bent,
      keepsCornersTo_succ h.corners fun hon => absurd hon (by simp [hoff])⟩)
    fun front a back ha h => by
      rcases shortenRunAt_cases straight front a back with
        ⟨hcorner, hstays⟩ | ⟨inside, b, after, rfl, hrun, hcut⟩ |
        ⟨before, b, middle, rfl, hrun, hcut⟩
      · rw [hstays]
        exact ⟨h.inOrder, h.bent, keepsCornersTo_succ h.corners fun _ => hcorner⟩
      · rw [hcut]
        exact prunedTo_within hlines hdistinct ha hrun h
      · rw [hcut]
        exact prunedTo_across hlines hdistinct ha hrun h
  exact ⟨h.inOrder, h.bent, keepsCorners_of_to hlast h.corners⟩

/-- With exact lines, what is straight up to the end of a corner is straight up to its middle. -/
theorem bendsAtCorners_of_keeps {xs : List Node} (hlines : FollowsLines straight nodes)
    (hdistinct : DistinctCorners nodes) (hinOrder : xs.Sublist nodes)
    (hkeeps : KeepsCorners straight xs) : BendsAtCorners straight xs := by
  rintro front h back rfl hh l p m q r hsplit hl hp hm hq
  have hcorner := hkeeps front h back rfl hh l p m q r hsplit hl hp hm hq
  have hne : h.pos ≠ p.pos :=
    pos_ne_of_round hdistinct hinOrder hh hp (by rw [hsplit]; simp)
  have hround : CyclicSublist (h :: (l ++ p :: (m ++ q :: r))) nodes := by
    refine cyclicSublist_of_round hinOrder ?_
    rw [List.cons_append, hsplit]
  have hrun : CyclicSublist (h :: (l ++ p :: (m ++ [q]))) nodes := hround.of_sublist (by simp)
  rw [← Bool.not_eq_true]
  intro hstraight
  refine hcorner ⟨fun _ => ?_, hstraight⟩
  have hfirst : CyclicSublist (h :: (l ++ [p])) nodes := hround.of_sublist (by simp)
  refine hlines.join hrun hrun hfirst hstraight hstraight hne (by simp) fun n hn => .inl ?_
  simp only [List.mem_append, List.mem_cons] at hn ⊢
  tauto

end Round

/-! ## an outline -/

theorem passed_eq_some_iff {c : Contour} : passed straight (shortenRuns straight) c = some c ↔
    (c.closed = true → straight c.nodes = false ∧ KeepsCorners straight c.nodes) := by
  rcases passed_cases straight (shortenRuns straight) c with
    ⟨hopen, -, hpassed⟩ | ⟨hclosed, hstraight, -, hpassed⟩ | ⟨hclosed, hbent, -, hpassed⟩
  · simp [hpassed, hopen]
  · simp [hpassed, hclosed, hstraight]
  · have hsame : { c with nodes := shortenRuns straight c.nodes } = c ↔
        shortenRuns straight c.nodes = c.nodes :=
      ⟨congrArg Contour.nodes, fun h => by rw [h]⟩
    rw [hpassed, Option.some.injEq, hsame, shortenRuns_eq_self_iff]
    simp [hclosed, hbent]

theorem removeCollinear_eq_self_iff {o : Outline} : removeCollinear straight o = o ↔
    ∀ c ∈ o, c.closed = true → straight c.nodes = false ∧ KeepsCorners straight c.nodes := by
  have hpass : removeCollinear straight o = o ↔
      o.filterMap (passed straight (shortenRuns straight)) = o.map id := by
    rw [List.map_id]
    rfl
  rw [hpass, List.filterMap_eq_map_iff_forall_eq_some]
  exact forall₂_congr fun c _ => passed_eq_some_iff

/-- The pass made twice does what it does once if and only if it left no contour that is straight
as a whole and no corner to cut at.  That is so, and no two segments that meet are straight
together, where the test follows exact lines and corners are in different places. -/
theorem removeCollinear_twice_iff (straight : List Node → Bool) (o : Outline) :
    (removeCollinear straight (removeCollinear straight o) = removeCollinear straight o ↔
      ∀ d ∈ removeCollinear straight o, d.closed = true →
        straight d.nodes = false ∧ KeepsCorners straight d.nodes) ∧
    ((∀ c ∈ o, c.closed = true → FollowsLines straight c.nodes ∧ DistinctCorners c.nodes) →
      removeCollinear straight (removeCollinear straight o) = removeCollinear straight o ∧
      ∀ d ∈ removeCollinear straight o, d.closed = true →
        straight d.nodes = false ∧ BendsAtCorners straight d.nodes) := by
  refine ⟨removeCollinear_eq_self_iff, fun hexact => ?_⟩
  rw [removeCollinear_eq_self_iff, ← forall₂_and]
  intro d hd
  rw [← forall_and]
  intro hclosed
  obtain ⟨c, hc, hbefore, hbent, hnodes⟩ := exists_of_mem_passed hd hclosed
  obtain ⟨hlines, hdistinct⟩ := hexact c hc hbefore
  obtain ⟨hinOrder, hstays, hkeeps⟩ := prunedTo_shortenRuns hlines hdistinct hbent
  rw [hnodes]
  exact ⟨⟨hstays, hkeeps⟩, hstays, bendsAtCorners_of_keeps hlines hdistinct hinOrder hkeeps⟩

/-- It is enough to look at the sublists of each rotation that start with its first node. -/
theorem forall_cyclicSublist {nodes : List Node} {P : List Node → Prop} (nil : P [])
    (cons : ∀ i a, nodes[i]? = some a → ∀ l ∈ (nodes.drop (i + 1) ++ nodes.take i).sublists,
      P (a :: l)) :
    ∀ l, CyclicSublist l nodes → P l := by
  have hround : ∀ front a back l, nodes = front ++ a :: back → l.Sublist (back ++ front) →
      P (a :: l) := by
    rintro front a back l rfl hl
    refine cons front.length a (by simp) l (List.mem_sublists.mpr ?_)
    simpa using hl
  rintro l ⟨front, back, hsplit, hl⟩
  cases l with
  | nil => exact nil
  | cons a l =>
      obtain ⟨r, r', hrest, ha, hl⟩ := List.cons_sublist_iff.mp hl
      obtain ⟨u, v, rfl⟩ := List.append_of_mem ha
      rw [List.append_assoc, List.cons_append] at hrest
      have hl' : l.Sublist (v ++ r') := hl.trans (List.sublist_append_right v r')
      rcases split_behind hrest with ⟨after, rfl, hafter⟩ | ⟨before, rfl, rfl⟩
      · rw [hafter] at hl'
        refine hround (front ++ u) a after l (by simp [hsplit]) (hl'.trans ?_)
        exact (List.sublist_append_left front u).append_left after
      · refine hround before a (v ++ r' ++ back) l (by simp [hsplit]) (hl'.trans ?_)
        rw [List.append_assoc]
        exact List.sublist_append_left _ _

/-- A triangle that starts in the middle of one side, which the pass takes out. -/
theorem removeCollinear_twice_triangle :
    let c := Contour.polygon [⟨50, 0⟩, ⟨100, 0⟩, ⟨0, 100⟩, ⟨0, 0⟩]
    let pass := removeCollinear (isCollinear 0.01)
    FollowsLines (isCollinear 0.01) c.nodes ∧ DistinctCorners c.nodes ∧
    pass [c] = [.polygon [⟨100, 0⟩, ⟨0, 100⟩, ⟨0, 0⟩]] ∧ pass (pass [c]) = pass [c] := by
  intro c pass
  have hlines : FollowsLines (isCollinear 0.01) c.nodes := by
    refine ⟨[[.on ⟨0, 0⟩, .on ⟨50, 0⟩, .on ⟨100, 0⟩], [.on ⟨0, 0⟩, .on ⟨0, 100⟩],
      [.on ⟨50, 0⟩, .on ⟨0, 100⟩], [.on ⟨100, 0⟩, .on ⟨0, 100⟩]], ?_, by decide +kernel⟩
    refine forall_cyclicSublist (by decide) fun i a ha => ?_
    obtain ⟨hi, rfl⟩ := List.getElem?_eq_some_iff.mp ha
    revert i
    decide +kernel
  have hdistinct : DistinctCorners c.nodes := by decide +kernel
  refine ⟨hlines, hdistinct, by decide +kernel, ?_⟩
  refine ((removeCollinear_twice_iff (isCollinear 0.01) [c]).2 fun d hd _ => ?_).1
  rw [List.mem_singleton.mp hd]
  exact ⟨hlines, hdistinct⟩

/-- A spike to the corner at the origin and back: its tip goes and leaves the corner twice, with
the first one straight between its neighbours, and the second pass takes one of them. -/
theorem removeCollinear_twice_spike :
    let pass := removeCollinear (isCollinear 0.01)
    let o := [Contour.polygon [⟨0, 100⟩, ⟨0, 0⟩, ⟨-50, -50⟩, ⟨0, 0⟩, ⟨100, 0⟩]]
    pass o = [.polygon [⟨0, 100⟩, ⟨0, 0⟩, ⟨0, 0⟩, ⟨100, 0⟩]] ∧
    pass (pass o) = [.polygon [⟨0, 100⟩, ⟨0, 0⟩, ⟨100, 0⟩]] ∧ pass (pass o) ≠ pass o := by
  intro pass o
  have hfirst : pass o = [.polygon [⟨0, 100⟩, ⟨0, 0⟩, ⟨0, 0⟩, ⟨100, 0⟩]] := by decide +kernel
  have hsecond : pass [.polygon [⟨0, 100⟩, ⟨0, 0⟩, ⟨0, 0⟩, ⟨100, 0⟩]] =
      [.polygon [⟨0, 100⟩, ⟨0, 0⟩, ⟨100, 0⟩]] := by decide +kernel
  rw [hfirst, hsecond]
  exact ⟨rfl, rfl, by decide⟩

end FontTrace
