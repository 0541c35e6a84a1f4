import FontTrace.Geometry.Pruning
import Mathlib.Data.List.Forall2

/-!
# FontTrace.Proofs.Geometry.Passes

A pass over the closed contours of an outline: those that are straight as a whole are taken out,
and something is done to the nodes of each of the others.

* `filter_open_passed` — open contours stay as they are;
* `forall₂_passed` — the contours behind the pass are the survivors before it, one for one;
* `exists_of_mem_passed`, `filterMap_passed_of_fixed` — where a contour behind the pass comes from,
  and a pass that does nothing to the nodes;
* `Contour.without_back`, `Contour.without_front` — a contour without the nodes at one of its ends;
* `walkContours?_eq` — the pass as a walk from place to place, which ends and stays in range.
-/

namespace FontTrace

/-- What a pass over the closed contours of an outline makes of one contour. -/
def passed (straight : List Node → Bool) (f : List Node → List Node) (c : Contour) :
    Option Contour :=
  if !c.closed then some c
  else if straight c.nodes then none
  else some { c with nodes := f c.nodes }

/-- Whether a contour is still there behind a pass. -/
def survives (straight : List Node → Bool) (c : Contour) : Bool := !(c.closed && straight c.nodes)

variable {straight : List Node → Bool} {f : List Node → List Node}

theorem passed_cases (straight : List Node → Bool) (f : List Node → List Node) (c : Contour) :
    (c.closed = false ∧ survives straight c = true ∧ passed straight f c = some c) ∨
    (c.closed = true ∧ straight c.nodes = true ∧ survives straight c = false ∧
      passed straight f c = none) ∨
    (c.closed = true ∧ straight c.nodes = false ∧ survives straight c = true ∧
      passed straight f c = some { c with nodes := f c.nodes }) := by
  cases hclosed : c.closed <;> cases hc : straight c.nodes <;> simp [passed, survives, hclosed, hc]

theorem filter_open_passed (o : Outline) :
    (o.filterMap (passed straight f)).filter (!·.closed) = o.filter (!·.closed) := by
  induction o with
  | nil => rfl
  | cons c o ih =>
      rcases passed_cases straight f c with
        ⟨hopen, -, hpassed⟩ | ⟨hclosed, -, -, hpassed⟩ | ⟨hclosed, -, -, hpassed⟩
      · simp [hpassed, hopen, ih]
      · simp [hpassed, hclosed, ih]
      · simp [hpassed, hclosed, ih]

theorem forall₂_passed {R : Contour → Contour → Prop} (opened : ∀ c, c.closed = false → R c c)
    (bent : ∀ c, c.closed = true → straight c.nodes = false → R c { c with nodes := f c.nodes })
    (o : Outline) :
    List.Forall₂ R (o.filter (survives straight)) (o.filterMap (passed straight f)) := by
  induction o with
  | nil => exact .nil
  | cons c o ih =>
      rcases passed_cases straight f c with
        ⟨hopen, hsurvives, hpassed⟩ | ⟨-, -, hgone, hpassed⟩ | ⟨hclosed, hbent, hsurvives, hpassed⟩
      · rw [List.filter_cons_of_pos hsurvives, List.filterMap_cons_some hpassed]
        exact .cons (opened c hopen) ih
      · rw [List.filter_cons_of_neg (by simp [hgone]), List.filterMap_cons_none hpassed]
        exact ih
      · rw [List.filter_cons_of_pos hsurvives, List.filterMap_cons_some hpassed]
        exact .cons (bent c hclosed hbent) ih

/-- A closed contour behind the pass was bent, and is what the pass left of it. -/
theorem exists_of_mem_passed {o : Outline} {d : Contour}
    (hd : d ∈ o.filterMap (passed straight f)) (hclosed : d.closed = true) :
    ∃ c ∈ o, c.closed = true ∧ straight c.nodes = false ∧ d.nodes = f c.nodes := by
  obtain ⟨c, hc, hpassed⟩ := List.mem_filterMap.mp hd
  rcases passed_cases straight f c with
    ⟨hopen, -, hsome⟩ | ⟨-, -, -, hnone⟩ | ⟨hbefore, hbent, -, hsome⟩
  · obtain rfl := Option.some.inj (hsome.symm.trans hpassed)
    exact absurd (hclosed.symm.trans hopen) (by decide)
  · cases hnone.symm.trans hpassed
  · obtain rfl := Option.some.inj (hsome.symm.trans hpassed)
    exact ⟨c, hc, hbefore, hbent, rfl⟩

/-- Where nothing is done to the nodes, contours are taken out and no more. -/
theorem filterMap_passed_of_fixed {o : Outline}
    (h : ∀ c ∈ o, c.closed = true → straight c.nodes = false → f c.nodes = c.nodes) :
    o.filterMap (passed straight f) = o.filter (survives straight) := by
  rw [← List.filterMap_eq_filter]
  refine List.filterMap_congr fun c hc => ?_
  rcases passed_cases straight f c with
    ⟨-, hsurvives, hpassed⟩ | ⟨-, -, hgone, hpassed⟩ | ⟨hclosed, hbent, hsurvives, hpassed⟩
  · rw [hpassed, Option.guard, if_pos hsurvives]
  · rw [hpassed, Option.guard, hgone, if_neg Bool.false_ne_true]
  · rw [hpassed, h c hc hclosed hbent, Option.guard, if_pos hsurvives]

/-! ## from place to place -/

namespace Contour

theorem size_without_le (c : Contour) (first last : Nat) : (c.without first last).size ≤ c.size := by
  rw [without]
  split
  · simp only [size, List.length_append, List.length_take, List.length_drop]
    omega
  · exact Nat.le_refl _

theorem without_back {c : Contour} {i : Nat} (h : i < c.nodes.length) :
    c.without i (c.size - 1) = { c with nodes := c.nodes.take i } := by
  have hrange : i ≤ c.size - 1 ∧ c.size - 1 < c.nodes.length := by
    rw [size]
    omega
  have hend : c.size - 1 + 1 = c.nodes.length := by
    rw [size]
    omega
  rw [without, if_pos hrange, hend, List.drop_length, List.append_nil]

theorem without_front {c : Contour} {j : Nat} (h : j ≤ c.nodes.length) :
    (if 1 ≤ j then c.without 0 (j - 1) else c) = { c with nodes := c.nodes.drop j } := by
  split
  · next hj =>
    have hrange : 0 ≤ j - 1 ∧ j - 1 < c.nodes.length := by omega
    have hend : j - 1 + 1 = j := by omega
    rw [without, if_pos hrange, hend, List.take_zero, List.nil_append]
  · next hj =>
    obtain rfl : j = 0 := by omega
    rw [List.drop_zero]

end Contour

/-- The outline with the closed contours from the place `i` on taken out, if they are straight as
a whole, or else walked along.  Contours are looked up: where the walk is `none`, a place was out
of range. -/
def walkContours? (straight : List Node → Bool) (walk : Contour → Option Contour) (o : Outline)
    (i : Nat) : Option Outline :=
  if _h : o.length ≤ i then some o
  else do
    let c ← o[i]?
    if !c.closed then walkContours? straight walk o (i + 1)
    else if straight c.nodes then walkContours? straight walk (o.eraseIdx i) i
    else
      let d ← walk c
      walkContours? straight walk (o.set i d) (i + 1)
termination_by o.length - i
decreasing_by
  · omega
  · rw [List.length_eraseIdx_of_lt (by omega)]
    omega
  · rw [List.length_set]
    omega

theorem walkContours?_eq {walk : Contour → Option Contour}
    (h : ∀ c, walk c = some { c with nodes := f c.nodes }) (front o : Outline) :
    walkContours? straight walk (front ++ o) front.length =
      some (front ++ o.filterMap (passed straight f)) := by
  induction o generalizing front with
  | nil =>
      rw [walkContours?]
      simp
  | cons c o ih =>
      have hmore : ¬(front ++ c :: o).length ≤ front.length := by simp
      have hplace : (front ++ c :: o)[front.length]? = some c := by simp
      have hnext : ∀ d, walkContours? straight walk (front ++ d :: o) (front.length + 1) =
          some (front ++ d :: o.filterMap (passed straight f)) := fun d => by
        simpa using ih (front ++ [d])
      rw [walkContours?, dif_neg hmore, hplace, Option.bind_eq_bind, Option.bind_some]
      rcases passed_cases straight f c with
        ⟨hopen, -, hpassed⟩ | ⟨hclosed, hstraight, -, hpassed⟩ | ⟨hclosed, hbent, -, hpassed⟩
      · simp [hopen, hnext, hpassed]
      · have herase : (front ++ c :: o).eraseIdx front.length = front ++ o := by
          rw [List.eraseIdx_append_of_length_le (Nat.le_refl _), Nat.sub_self]
          rfl
        simp [hclosed, hstraight, herase, ih front, hpassed]
      · have hset : (front ++ c :: o).set front.length { c with nodes := f c.nodes } =
            front ++ { c with nodes := f c.nodes } :: o := by simp
        rw [if_neg (by simp [hclosed]), if_neg (by simp [hbent]), h, Option.bind_some, hset, hnext,
          List.filterMap_cons_some hpassed]

end FontTrace
