import FontTrace.Proofs.Geometry.Passes
import FontTrace.Proofs.Geometry.Runs

/-!
# FontTrace.Proofs.Geometry.Loops

The pass that cuts loops takes out nothing but contours that are straight as a whole and straight
loops, and it leaves no loop, whatever the test for straightness answers.

* `unloops_of_findLoop?` — what is cut when a loop was found: the stretch between two near nodes
  on the curve, and one of the two;
* `keeps_of_unloops` — what a cut keeps of a contour;
* `walkLoops?_eq`, `walkArtifacts?_eq` — the pass as a walk that looks every node up ends with what
  the pass makes of a contour and of an outline;
* `removeArtifacts_sound` — all of it for an outline.
-/

namespace FontTrace

/-! ## one loop -/

/-- Two nodes closer than `reach` on both axes. -/
def Near (reach : Float) (a b : Node) : Prop :=
  ¬(b.pos.x - a.pos.x).abs ≥ reach ∧ ¬(b.pos.y - a.pos.y).abs ≥ reach

/-- The nodes of a closed contour before and behind the cut of a loop, which goes from a node on
the curve to one near it, and there are others inside and outside.  The stretch in between is
gone and of the two ends one; the loop may go on at the front. -/
inductive Unloops (straight : List Node → Bool) (reach : Float) : List Node → List Node → Prop
  | within (front : List Node) {a : Node} {inside : List Node} {b : Node} (after : List Node) :
      a.onCurve = true → b.onCurve = true → Near reach a b → inside ≠ [] → front ++ after ≠ [] →
      straight (a :: inside) = true →
      Unloops straight reach (front ++ a :: (inside ++ b :: after)) (front ++ a :: after)
  | across {before : List Node} {b : Node} (middle : List Node) {a : Node} {back : List Node} :
      a.onCurve = true → b.onCurve = true → Near reach a b → middle ≠ [] → before ++ back ≠ [] →
      straight (a :: (back ++ before)) = true →
      Unloops straight reach (before ++ b :: (middle ++ a :: back)) (b :: middle)

variable {straight : List Node → Bool} {reach : Float}

/-- A cut leaves two nodes, as a loop has nodes outside, and brings no two segments together. -/
theorem keeps_of_unloops (nodes nodes' : List Node) (h : Unloops straight reach nodes nodes') :
    KeepsShape (fun _ => true) nodes nodes' := by
  cases h with
  | @within front a inside b after ha hb hnear hinside houtside =>
      refine ⟨?_, fun _ => ?_, linesAndCubics_of_subset ha ha fun k hk => .inl ?_⟩
      · have hafter : after.Sublist (inside ++ b :: after) :=
          (List.sublist_cons_self b after).trans (List.sublist_append_right _ _)
        exact (hafter.cons_cons a).append_left front
      · have hlength := List.length_pos_iff.mpr houtside
        simp only [List.countP_true, List.length_append, List.length_cons] at hlength ⊢
        omega
      · have hround : inside ++ b :: after ++ front = inside ++ b :: (after ++ front) := by simp
        rw [hround, countsBetween_append_cons hb]
        exact List.mem_append_right _ hk
  | @across before b middle a back ha hb hnear hmiddle houtside =>
      refine ⟨?_, fun _ => ?_, fun hplain => ?_⟩
      · have hmiddle : (b :: middle).Sublist (b :: (middle ++ a :: back)) :=
          (List.sublist_append_left middle (a :: back)).cons_cons b
        exact hmiddle.trans (List.sublist_append_right _ _)
      · have hlength := List.length_pos_iff.mpr hmiddle
        simp only [List.countP_true, List.length_cons]
        omega
      · show LinesAndCubics ([] ++ b :: middle)
        refine linesAndCubics_of_subset hb hb (fun k hk => .inl ?_) hplain
        have hround : middle ++ a :: back ++ before = middle ++ a :: (back ++ before) := by simp
        rw [List.append_nil] at hk
        rw [hround, countsBetween_append_cons ha]
        exact List.mem_append_left _ hk

/-! ## the first loop -/

section Found

variable {nodes : List Node} {i j : Nat} {a b : Node}

theorem mem_curvePoints_iff {p : Point × Nat} :
    p ∈ curvePoints nodes ↔ ∃ n, nodes[p.2]? = some n ∧ n.onCurve = true ∧ n.pos = p.1 := by
  obtain ⟨p, i⟩ := p
  simp only [curvePoints, List.mem_filterMap, Prod.exists, List.mem_zipIdx_iff_getElem?]
  constructor
  · rintro ⟨n, k, hn, h⟩
    split at h
    · next hon =>
      obtain ⟨rfl, rfl⟩ := Prod.mk.inj (Option.some.inj h)
      exact ⟨n, hn, hon, rfl⟩
    · cases h
  · rintro ⟨n, hn, hon, rfl⟩
    exact ⟨n, i, hn, by simp [hon]⟩

/-- The list around two of its places. -/
theorem exists_split_pair (hij : i < j) (ha : nodes[i]? = some a) (hb : nodes[j]? = some b) :
    ∃ front inside after, nodes = front ++ a :: (inside ++ b :: after) ∧ front.length = i ∧
      front.length + 1 + inside.length = j := by
  obtain ⟨front, back, rfl, rfl⟩ := exists_split_of_getElem? ha
  obtain ⟨k, rfl⟩ : ∃ k, j = front.length + 1 + k := ⟨j - (front.length + 1), by omega⟩
  have hplace : front ++ a :: back = front ++ [a] ++ back := by simp
  have hk : back[k]? = some b := by
    have hlength : (front ++ [a]).length = front.length + 1 := by simp
    rw [hplace, ← hlength, List.getElem?_append_right (Nat.le_add_right _ _),
      Nat.add_sub_cancel_left] at hb
    exact hb
  obtain ⟨inside, after, rfl, rfl⟩ := exists_split_of_getElem? hk
  exact ⟨front, inside, after, rfl, rfl, rfl⟩

theorem isLoop_iff {p q : Point × Nat} : isLoop straight reach nodes p q = true ↔
    (¬(q.1.x - p.1.x).abs ≥ reach ∧ ¬(q.1.y - p.1.y).abs ≥ reach) ∧
      1 < (p.2 - q.2) + (q.2 - p.2) ∧ (p.2 - q.2) + (q.2 - p.2) + 1 < nodes.length ∧
      straight (stretch nodes p.2 q.2) = true := by
  simp [isLoop, and_assoc]

theorem stretch_within (front : List Node) (a : Node) (inside : List Node) (b : Node)
    (after : List Node) :
    stretch (front ++ a :: (inside ++ b :: after)) front.length
      (front.length + 1 + inside.length) = a :: inside := by
  have hlt : front.length < front.length + 1 + inside.length := by omega
  have hsize : front.length + 1 + inside.length - front.length = (a :: inside).length := by
    rw [List.length_cons]
    omega
  rw [stretch, if_pos hlt, List.drop_left, hsize, ← List.cons_append, List.take_left]

theorem cutLoop_within (front : List Node) (a : Node) (inside : List Node) (b : Node)
    (after : List Node) :
    cutLoop (front ++ a :: (inside ++ b :: after)) front.length
      (front.length + 1 + inside.length) = front ++ a :: after := by
  have hlt : front.length < front.length + 1 + inside.length := by omega
  have hstart : front ++ a :: (inside ++ b :: after) = front ++ [a] ++ (inside ++ b :: after) := by
    simp
  have hend : front ++ a :: (inside ++ b :: after) = front ++ a :: (inside ++ [b]) ++ after := by
    simp
  rw [cutLoop, if_pos hlt, hstart, List.take_left' (by simp), ← hstart, hend,
    List.drop_left' (by simp; omega)]
  simp

theorem stretch_across (before : List Node) (b : Node) (middle : List Node) (a : Node)
    (back : List Node) :
    stretch (before ++ b :: (middle ++ a :: back)) (before.length + 1 + middle.length)
      before.length = a :: (back ++ before) := by
  have hle : ¬before.length + 1 + middle.length < before.length := by omega
  have hsplit : before ++ b :: (middle ++ a :: back) = before ++ b :: middle ++ a :: back := by simp
  rw [stretch, if_neg hle, List.take_left, hsplit, List.drop_left' (by simp; omega)]
  simp

theorem cutLoop_across (before : List Node) (b : Node) (middle : List Node) (a : Node)
    (back : List Node) :
    cutLoop (before ++ b :: (middle ++ a :: back)) (before.length + 1 + middle.length)
      before.length = b :: middle := by
  have hle : ¬before.length + 1 + middle.length < before.length := by omega
  have hsplit : before ++ b :: (middle ++ a :: back) = before ++ b :: middle ++ a :: back := by simp
  rw [cutLoop, if_neg hle, hsplit, List.take_left' (by simp; omega), List.drop_left]

/-- The loop that was found is a loop, and cut as one. -/
theorem unloops_of_findLoop? (h : findLoop? straight reach nodes = some (i, j)) :
    Unloops straight reach nodes (cutLoop nodes i j) := by
  obtain ⟨p, hp, h⟩ := List.exists_of_findSome?_eq_some h
  obtain ⟨q, hq, h⟩ := Option.map_eq_some_iff.mp h
  obtain ⟨rfl, rfl⟩ := Prod.mk.inj h
  obtain ⟨a, ha, haon, hapos⟩ := mem_curvePoints_iff.mp hp
  obtain ⟨b, hb, hbon, hbpos⟩ := mem_curvePoints_iff.mp (List.mem_of_find?_eq_some hq)
  obtain ⟨hnear, hgap, hsize, hstraight⟩ := isLoop_iff.mp (List.find?_some hq)
  rw [← hapos, ← hbpos] at hnear
  rcases Nat.lt_trichotomy p.2 q.2 with hlt | heq | hgt
  · obtain ⟨front, inside, after, rfl, hplace, hplace'⟩ := exists_split_pair hlt ha hb
    rw [← hplace, ← hplace'] at hgap hsize hstraight ⊢
    rw [stretch_within] at hstraight
    rw [cutLoop_within]
    refine .within front after haon hbon hnear ?_ ?_ hstraight
    · rintro rfl
      simp at hgap
    · intro hnone
      obtain ⟨rfl, rfl⟩ := List.append_eq_nil_iff.mp hnone
      simp only [List.length_append, List.length_cons, List.length_nil] at hsize
      omega
  · rw [heq] at hgap
    omega
  · obtain ⟨before, middle, back, rfl, hplace, hplace'⟩ := exists_split_pair hgt hb ha
    rw [← hplace, ← hplace'] at hgap hsize hstraight ⊢
    rw [stretch_across] at hstraight
    rw [cutLoop_across]
    refine .across middle haon hbon hnear ?_ ?_ hstraight
    · rintro rfl
      simp at hgap
    · intro hnone
      obtain ⟨rfl, rfl⟩ := List.append_eq_nil_iff.mp hnone
      simp only [List.length_append, List.length_cons, List.length_nil] at hsize
      omega

end Found

theorem cutLoops_of_none {nodes : List Node} (h : findLoop? straight reach nodes = none) :
    cutLoops straight reach nodes = nodes := by
  rw [cutLoops]
  split
  · rfl
  · next hsome =>
    rw [h] at hsome
    cases hsome

theorem cutLoops_of_some {nodes : List Node} {i j : Nat}
    (h : findLoop? straight reach nodes = some (i, j)) :
    cutLoops straight reach nodes = cutLoops straight reach (cutLoop nodes i j) := by
  rw [cutLoops]
  split
  · next hnone =>
    rw [h] at hnone
    cases hnone
  · next hsome =>
    obtain ⟨rfl, rfl⟩ := Prod.mk.inj (Option.some.inj (h.symm.trans hsome))
    rfl

/-- Loops are cut until there is none; the induction is that of the pass. -/
theorem unloopings_cutLoops (straight : List Node → Bool) (reach : Float) (nodes : List Node) :
    Relation.ReflTransGen (Unloops straight reach) nodes (cutLoops straight reach nodes) ∧
      findLoop? straight reach (cutLoops straight reach nodes) = none := by
  induction nodes using cutLoops.induct straight reach with
  | case1 nodes hnone =>
      rw [cutLoops_of_none hnone]
      exact ⟨.refl, hnone⟩
  | case2 nodes i j hfound ih =>
      rw [cutLoops_of_some hfound]
      exact ⟨.head (unloops_of_findLoop? hfound) ih.1, ih.2⟩

/-! ## from place to place -/

section Walk

variable (straight : List Node → Bool) (reach : Float)

/-- The nodes from the place `i` up to, but without, the place `j`, if there are that many. -/
def slice? (nodes : List Node) (i j : Nat) : Option (List Node) :=
  if i ≤ j ∧ j ≤ nodes.length then some ((nodes.drop i).take (j - i)) else none

def stretch? (nodes : List Node) (i j : Nat) : Option (List Node) :=
  if i < j then slice? nodes i j
  else do
    let back ← slice? nodes i nodes.length
    let front ← slice? nodes 0 j
    some (back ++ front)

/-- The places of the nodes on the curve, among so many from the place `i` on. -/
def curvePlaces? (nodes : List Node) : Nat → Nat → Option (List Nat)
  | 0, _ => some []
  | k + 1, i => do
    let n ← nodes[i]?
    let places ← curvePlaces? nodes k (i + 1)
    some (if n.onCurve then i :: places else places)

def isLoopAt? (nodes : List Node) (i j : Nat) : Option Bool :=
  if i = j then some false
  else do
    let gap := (i - j) + (j - i)
    let a ← nodes[i]?
    let b ← nodes[j]?
    if !(1 < gap && gap + 1 < nodes.length) || (b.pos.x - a.pos.x).abs ≥ reach ||
        (b.pos.y - a.pos.y).abs ≥ reach then
      some false
    else
      let run ← stretch? nodes i j
      some (straight run)

/-- The first loop between two nodes on the curve. -/
def searchLoop? (nodes : List Node) : Option (Option (Nat × Nat)) := do
  let places ← curvePlaces? nodes nodes.length 0
  places.findSomeM? fun i => do
    let j ← places.findM? (isLoopAt? straight reach nodes i)
    some (j.map fun j => (i, j))

/-- The contour without a loop: without a range of nodes, or without the ranges at both ends. -/
def clearLoop (c : Contour) (i j : Nat) : Contour :=
  if i < j then c.without (i + 1) j
  else
    let d := c.without i (c.size - 1)
    if 1 ≤ j then d.without 0 (j - 1) else d

end Walk

section Look

variable {nodes : List Node}

theorem stretch?_eq {i j : Nat} (hi : i < nodes.length) (hj : j < nodes.length) :
    stretch? nodes i j = some (stretch nodes i j) := by
  by_cases hlt : i < j
  · have hrange : i ≤ j ∧ j ≤ nodes.length := by omega
    rw [stretch?, stretch, if_pos hlt, if_pos hlt, slice?, if_pos hrange]
  · have hback : slice? nodes i nodes.length = some (nodes.drop i) := by
      rw [slice?, if_pos ⟨Nat.le_of_lt hi, Nat.le_refl _⟩, List.take_of_length_le (by simp)]
    have hfront : slice? nodes 0 j = some (nodes.take j) := by
      rw [slice?, if_pos ⟨Nat.zero_le _, Nat.le_of_lt hj⟩]
      rfl
    rw [stretch?, stretch, if_neg hlt, if_neg hlt, hback, hfront]
    rfl

/-- Places are looked up one after the other, from the first one of `back` on. -/
theorem curvePlaces?_append (front back : List Node) :
    curvePlaces? (front ++ back) back.length front.length =
      some ((back.zipIdx front.length).filterMap fun (n, i) =>
        if n.onCurve then some i else none) := by
  induction back generalizing front with
  | nil => rfl
  | cons n back ih =>
      have hplace : (front ++ n :: back)[front.length]? = some n := by simp
      have hnext := ih (front ++ [n])
      rw [List.append_assoc, List.singleton_append, List.length_append, List.length_singleton]
        at hnext
      rw [List.length_cons, curvePlaces?, hplace, Option.bind_eq_bind, Option.bind_some, hnext]
      cases hon : n.onCurve <;> simp [List.zipIdx_cons, hon]

theorem curvePlaces?_eq :
    curvePlaces? nodes nodes.length 0 = some ((curvePoints nodes).map (·.2)) := by
  have hplaces := curvePlaces?_append [] nodes
  rw [List.nil_append, List.length_nil] at hplaces
  rw [hplaces, curvePoints, List.map_filterMap]
  refine congrArg some (List.filterMap_congr fun x _ => ?_)
  obtain ⟨n, i⟩ := x
  cases hon : n.onCurve <;> simp [hon]

theorem isLoopAt?_eq {p q : Point × Nat} (hp : p ∈ curvePoints nodes) (hq : q ∈ curvePoints nodes) :
    isLoopAt? straight reach nodes p.2 q.2 = some (isLoop straight reach nodes p q) := by
  obtain ⟨a, ha, -, hapos⟩ := mem_curvePoints_iff.mp hp
  obtain ⟨b, hb, -, hbpos⟩ := mem_curvePoints_iff.mp hq
  have hstretch := stretch?_eq (lt_length_of_mem_curvePoints hp) (lt_length_of_mem_curvePoints hq)
  rw [isLoopAt?]
  split
  · next heq =>
    have hnone : isLoop straight reach nodes p q = false := by simp [isLoop, heq]
    rw [hnone]
  · simp only [ha, hb, Option.bind_eq_bind, Option.bind_some, hapos, hbpos, hstretch]
    split
    · next hfar =>
      have hnone : isLoop straight reach nodes p q = false := by
        rw [Bool.eq_false_iff, Ne, isLoop_iff]
        rintro ⟨⟨hx, hy⟩, hgap, hsize, -⟩
        simp [hx, hy, hgap, hsize] at hfar
      rw [hnone]
    · next hnear =>
      simp only [Bool.or_eq_true, not_or, Bool.not_eq_true, Bool.not_eq_false', Bool.and_eq_true,
        decide_eq_true_eq] at hnear
      obtain ⟨⟨⟨hgap, hsize⟩, hx⟩, hy⟩ := hnear
      simp [isLoop, hx, hy, hgap, hsize]

/-- A search among places, each of which stands for a point. -/
theorem findM?_map {points : List (Point × Nat)} {test : Nat → Option Bool}
    {accepts : Point × Nat → Bool} (h : ∀ q ∈ points, test q.2 = some (accepts q)) :
    (points.map (·.2)).findM? test = some ((points.find? accepts).map (·.2)) := by
  induction points with
  | nil => rfl
  | cons q points ih =>
      have hrest := ih fun q hq => h q (List.mem_cons_of_mem _ hq)
      rw [List.map_cons, List.findM?, h q List.mem_cons_self, Option.bind_eq_bind,
        Option.bind_some, List.find?_cons, hrest]
      cases accepts q <;> rfl

theorem findSomeM?_map {points : List (Point × Nat)} {test : Nat → Option (Option (Nat × Nat))}
    {found : Point × Nat → Option (Nat × Nat)} (h : ∀ p ∈ points, test p.2 = some (found p)) :
    (points.map (·.2)).findSomeM? test = some (points.findSome? found) := by
  induction points with
  | nil => rfl
  | cons p points ih =>
      have hrest := ih fun p hp => h p (List.mem_cons_of_mem _ hp)
      rw [List.map_cons, List.findSomeM?, h p List.mem_cons_self, Option.bind_eq_bind,
        Option.bind_some, List.findSome?_cons, hrest]
      cases found p <;> rfl

theorem searchLoop?_eq :
    searchLoop? straight reach nodes = some (findLoop? straight reach nodes) := by
  rw [searchLoop?, curvePlaces?_eq, Option.bind_eq_bind, Option.bind_some, findLoop?]
  refine findSomeM?_map fun p hp => ?_
  rw [findM?_map fun q hq => isLoopAt?_eq hp hq, Option.bind_eq_bind, Option.bind_some,
    Option.map_map]
  rfl

end Look

/-- Both ways to cut a loop, on the list of nodes. -/
theorem clearLoop_eq {c : Contour} {i j : Nat} (hi : i < c.size) (hj : j < c.size) :
    clearLoop c i j = { c with nodes := cutLoop c.nodes i j } := by
  rw [Contour.size] at hi hj
  by_cases hlt : i < j
  · have hrange : i + 1 ≤ j ∧ j < c.nodes.length := by omega
    rw [clearLoop, if_pos hlt, cutLoop, if_pos hlt, Contour.without, if_pos hrange]
  · have hfront : j ≤ (c.nodes.take i).length := by
      rw [List.length_take]
      omega
    simp only [clearLoop, cutLoop, hlt, if_false, Contour.without_back hi]
    rw [Contour.without_front hfront]

/-- The contour without loops, one cut after the other as long as there is one.  Every cut makes it
shorter. -/
def walkLoops? (straight : List Node → Bool) (reach : Float) (c : Contour) : Option Contour :=
  match _h : searchLoop? straight reach c.nodes with
  | none => none
  | some none => some c
  | some (some (i, j)) => walkLoops? straight reach (clearLoop c i j)
termination_by c.size
decreasing_by
  rw [searchLoop?_eq] at _h
  obtain ⟨hi, hj, -⟩ := findLoop_bounds straight (Option.some.inj _h)
  rw [clearLoop_eq hi hj]
  exact length_cutLoop_lt hi hj

theorem walkLoops?_eq (c : Contour) :
    walkLoops? straight reach c = some { c with nodes := cutLoops straight reach c.nodes } := by
  obtain ⟨nodes, closed⟩ := c
  induction nodes using cutLoops.induct straight reach with
  | case1 nodes hnone =>
      rw [walkLoops?, searchLoop?_eq, hnone, cutLoops_of_none hnone]
  | case2 nodes i j hfound ih =>
      obtain ⟨hi, hj, -⟩ := findLoop_bounds straight hfound
      rw [walkLoops?, searchLoop?_eq, hfound, cutLoops_of_some hfound, ← ih]
      show walkLoops? straight reach (clearLoop ⟨nodes, closed⟩ i j) = _
      rw [clearLoop_eq hi hj]

/-- The pass over an outline, from place to place. -/
def walkArtifacts? (straight : List Node → Bool) (reach : Float) (o : Outline) : Option Outline :=
  walkContours? straight (walkLoops? straight reach) o 0

theorem walkArtifacts?_eq (o : Outline) :
    walkArtifacts? straight reach o = some (removeArtifacts straight reach o) :=
  walkContours?_eq walkLoops?_eq [] o

/-! ## an outline -/

/-- A contour that survives the pass, before and behind it. -/
structure LosesLoops (straight : List Node → Bool) (reach : Float) (c d : Contour) : Prop extends
    SurvivesBy (Unloops straight reach) (fun _ => true) c d where
  noLoop : d.closed = true → findLoop? straight reach d.nodes = none

/-- Every outline, and every test for straightness. -/
theorem removeArtifacts_sound (straight : List Node → Bool) (reach : Float) (o : Outline) :
    walkArtifacts? straight reach o = some (removeArtifacts straight reach o) ∧
    (removeArtifacts straight reach o).filter (!·.closed) = o.filter (!·.closed) ∧
    List.Forall₂ (LosesLoops straight reach) (o.filter (survives straight))
      (removeArtifacts straight reach o) := by
  refine ⟨walkArtifacts?_eq o, filter_open_passed o,
    forall₂_passed (fun c hopen => ?_) (fun c hclosed _ => ?_) o⟩
  · exact ⟨.refl c, fun hclosed => absurd (hclosed.symm.trans hopen) (by decide)⟩
  · obtain ⟨hsteps, hnone⟩ := unloopings_cutLoops straight reach c.nodes
    exact ⟨.of_steps keeps_of_unloops hclosed hsteps, fun _ => hnone⟩

end FontTrace
