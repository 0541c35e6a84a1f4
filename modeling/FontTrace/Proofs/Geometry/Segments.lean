import FontTrace.Geometry.Contour
import Mathlib.Logic.Relation

/-!
# FontTrace.Proofs.Geometry.Segments

The segments of a closed contour: a node on the curve, the control points behind it, and the
next node on the curve, around the contour.

* `exists_first_onCurve`, `first_onCurve_unique` — the first node on the curve of several, and
  the control points in front of it;
* `mem_controlCounts_iff` — which numbers of control points there are can be read from any node
  on the curve on;
* `linesAndCubics_of_subset` — so it is enough to compare two contours from one node of each on;
* `KeepsShape.of_steps` — what each step of a pass leaves of a contour, the whole pass leaves.
-/

namespace FontTrace

/-! ## the first node on the curve -/

/-- Several nodes are all control points. -/
def AllOff (ns : List Node) : Prop := ∀ n ∈ ns, n.onCurve = false

section First

variable {p p' m : Node} {l l' r r' ns : List Node}

theorem allOff_nil : AllOff [] := fun _ h => by simp at h

theorem allOff_cons : AllOff (m :: ns) ↔ m.onCurve = false ∧ AllOff ns := by
  simp [AllOff]

theorem exists_first_onCurve (h : ∃ n ∈ ns, n.onCurve = true) :
    ∃ l p r, ns = l ++ p :: r ∧ AllOff l ∧ p.onCurve = true := by
  obtain ⟨p, hp⟩ := Option.isSome_iff_exists.mp (List.find?_isSome.mpr h)
  obtain ⟨hp, l, r, hsplit, hl⟩ := List.find?_eq_some_iff_append.mp hp
  exact ⟨l, p, r, hsplit, fun n hn => by simpa using hl n hn, hp⟩

theorem allOff_or_exists_first (ns : List Node) :
    AllOff ns ∨ ∃ l p r, ns = l ++ p :: r ∧ AllOff l ∧ p.onCurve = true := by
  by_cases h : ∃ n ∈ ns, n.onCurve = true
  · exact .inr (exists_first_onCurve h)
  · exact .inl fun n hn => by simpa using fun hon => h ⟨n, hn, hon⟩

theorem first_onCurve_unique (h : l ++ p :: r = l' ++ p' :: r') (hl : AllOff l)
    (hp : p.onCurve = true) (hl' : AllOff l') (hp' : p'.onCurve = true) :
    l = l' ∧ p = p' ∧ r = r' := by
  induction l generalizing l' with
  | nil =>
      cases l' with
      | nil => simpa using h
      | cons n l' =>
          obtain ⟨rfl, -⟩ := List.cons.inj h
          simp [(allOff_cons.mp hl').1] at hp
  | cons n l ih =>
      cases l' with
      | nil =>
          obtain ⟨rfl, -⟩ := List.cons.inj h
          simp [(allOff_cons.mp hl).1] at hp'
      | cons n' l' =>
          obtain ⟨rfl, hrest⟩ := List.cons.inj h
          obtain ⟨rfl, rfl, rfl⟩ := ih hrest (allOff_cons.mp hl).2 (allOff_cons.mp hl').2
          exact ⟨rfl, rfl, rfl⟩

theorem takeWhile_off (hl : AllOff l) (hp : p.onCurve = true) :
    (l ++ p :: r).takeWhile (!·.onCurve) = l := by
  rw [List.takeWhile_append_of_pos fun n hn => by simp [hl n hn]]
  simp [hp]

theorem dropWhile_off (hl : AllOff l) (hp : p.onCurve = true) :
    (l ++ p :: r).dropWhile (!·.onCurve) = p :: r := by
  rw [List.dropWhile_append_of_pos fun n hn => by simp [hl n hn]]
  simp [hp]

end First

/-! ## control points -/

/-- How many control points there are before, between and behind the nodes on the curve. -/
def countsBetween (ns : List Node) : List Nat := (ns.splitOnP (·.onCurve)).map List.length

/-- How many control points each segment of a closed contour has, from its first node on the
curve on.  Those in front of that node belong to the last segment. -/
def controlCounts (nodes : List Node) : List Nat :=
  match nodes.dropWhile (!·.onCurve) with
  | [] => []
  | _ :: rest => countsBetween (rest ++ nodes.takeWhile (!·.onCurve))

/-- Every segment of a closed contour is a line or a cubic: it has no control points, or two. -/
def LinesAndCubics (nodes : List Node) : Prop := ∀ k ∈ controlCounts nodes, k = 0 ∨ k = 2

instance (nodes : List Node) : Decidable (LinesAndCubics nodes) :=
  inferInstanceAs (Decidable (∀ k ∈ controlCounts nodes, k = 0 ∨ k = 2))

section Counts

variable {a : Node} {k : Nat} {front back xs ys : List Node}

theorem countsBetween_nil : countsBetween [] = [0] := rfl

theorem countsBetween_append_cons (ha : a.onCurve = true) :
    countsBetween (xs ++ a :: ys) = countsBetween xs ++ countsBetween ys := by
  rw [countsBetween, List.splitOnP_append_cons xs ys ha, List.map_append]
  rfl

/-- Around the contour, the segments can be counted from any node on the curve on. -/
theorem mem_controlCounts_iff (ha : a.onCurve = true) :
    k ∈ controlCounts (front ++ a :: back) ↔ k ∈ countsBetween (back ++ front) := by
  rcases allOff_or_exists_first front with hfront | ⟨l, p, r, rfl, hl, hp⟩
  · rw [controlCounts, dropWhile_off hfront ha, takeWhile_off hfront ha]
  · have hsplit : l ++ p :: r ++ a :: back = l ++ p :: (r ++ a :: back) := by simp
    have hround : r ++ a :: back ++ l = r ++ a :: (back ++ l) := by simp
    have hback : back ++ (l ++ p :: r) = back ++ l ++ p :: r := by simp
    rw [hsplit, controlCounts, dropWhile_off hl hp, takeWhile_off hl hp, hback]
    show k ∈ countsBetween (r ++ a :: back ++ l) ↔ _
    rw [hround]
    simp only [countsBetween_append_cons ha, countsBetween_append_cons hp, List.mem_append]
    exact Or.comm

/-- Two contours compared from a node on the curve on, in each of them. -/
theorem linesAndCubics_of_subset {b : Node} {front' back' : List Node} (ha : a.onCurve = true)
    (hb : b.onCurve = true)
    (h : ∀ k ∈ countsBetween (back' ++ front'), k ∈ countsBetween (back ++ front) ∨ k = 0)
    (hplain : LinesAndCubics (front ++ a :: back)) : LinesAndCubics (front' ++ b :: back') := by
  intro k hk
  rcases h k ((mem_controlCounts_iff hb).mp hk) with hold | rfl
  · exact hplain k ((mem_controlCounts_iff ha).mpr hold)
  · exact .inl rfl

end Counts

/-! ## what is left of a contour -/

/-- What is left of the nodes of a closed contour, where nodes that `counted` accepts were to
stay. -/
structure KeepsShape (counted : Node → Bool) (nodes nodes' : List Node) : Prop where
  /-- The nodes that are left keep their order, around the contour and in the list. -/
  inOrder : nodes'.Sublist nodes
  two : nodes' ≠ nodes → 2 ≤ nodes'.countP counted
  segments : LinesAndCubics nodes → LinesAndCubics nodes'

namespace KeepsShape

variable {counted : Node → Bool} {nodes nodes' nodes'' : List Node}

theorem refl (nodes : List Node) : KeepsShape counted nodes nodes :=
  ⟨List.Sublist.refl _, fun h => absurd rfl h, fun h => h⟩

theorem trans (h : KeepsShape counted nodes nodes') (h' : KeepsShape counted nodes' nodes'') :
    KeepsShape counted nodes nodes'' where
  inOrder := h'.inOrder.trans h.inOrder
  two hne := by
    by_cases hlast : nodes'' = nodes'
    · subst hlast
      exact h.two hne
    · exact h'.two hlast
  segments hplain := h'.segments (h.segments hplain)

theorem of_steps {step : List Node → List Node → Prop}
    (keeps : ∀ nodes nodes', step nodes nodes' → KeepsShape counted nodes nodes')
    (h : Relation.ReflTransGen step nodes nodes') : KeepsShape counted nodes nodes' := by
  induction h with
  | refl => exact .refl nodes
  | tail _ hstep ih => exact ih.trans (keeps _ _ hstep)

end KeepsShape

/-- A contour that survives a pass, before and behind it.  An open one stays as it is, and of a
closed one the nodes changed step by step. -/
structure SurvivesBy (step : List Node → List Node → Prop) (counted : Node → Bool)
    (c d : Contour) : Prop where
  closed : d.closed = c.closed
  opened : c.closed = false → d = c
  steps : Relation.ReflTransGen step c.nodes d.nodes
  shape : KeepsShape counted c.nodes d.nodes

namespace SurvivesBy

variable {step : List Node → List Node → Prop} {counted : Node → Bool} {c : Contour}
  {nodes : List Node}

theorem refl (c : Contour) : SurvivesBy step counted c c :=
  ⟨rfl, fun _ => rfl, .refl, .refl c.nodes⟩

theorem of_steps (keeps : ∀ nodes nodes', step nodes nodes' → KeepsShape counted nodes nodes')
    (hclosed : c.closed = true) (h : Relation.ReflTransGen step c.nodes nodes) :
    SurvivesBy step counted c { c with nodes := nodes } :=
  ⟨rfl, fun hopen => absurd (hclosed.symm.trans hopen) (by decide), h, .of_steps keeps h⟩

end SurvivesBy

end FontTrace
