import FontTrace.Proofs.Geometry.Passes
import FontTrace.Proofs.Geometry.Runs

/-!
# FontTrace.Proofs.Geometry.Places

The pass over straight runs once more, as a walk from place to place.  Two places move along a
contour that gets shorter meanwhile, and the one behind the other goes round it each time.

Every node is looked up, and where the walk is `none`, a place was out of range.

* `placesBefore_succ_lt` — the search for the end of a run comes nearer to its start;
* `searchRun?_eq` — the search for the end of a run goes round the contour at most once;
* `walkRuns?_eq` — the walk along a contour ends with what the pass makes of it;
* `walkOutline?_eq` — so does the walk along an outline.
-/

namespace FontTrace

/-- How many places there are from the place `j` on, round a contour of `size` nodes, before the
place `i`. -/
def placesBefore (size i j : Nat) : Nat :=
  if j % size ≤ i then i - j % size else i + size - j % size

theorem placesBefore_succ_lt {size i j : Nat} (hi : i < size) (hne : j % size ≠ i) :
    placesBefore size i (j % size + 1) < placesBefore size i j := by
  have hj : j % size < size := Nat.mod_lt _ (by omega)
  rcases Nat.lt_or_ge (j % size + 1) size with hlt | hge
  · simp only [placesBefore, Nat.mod_eq_of_lt hlt]
    split <;> split <;> omega
  · have hround : j % size + 1 = size := by omega
    simp only [placesBefore, hround, Nat.mod_self]
    split <;> split <;> omega

section Walk

variable (straight : List Node → Bool)

/-- The longest straight run from the `i`-th node on: the place `j` of its end moves on, past the
last node to the first one, until the run is no longer straight or is back at its start, which is
a place of the contour, or it would never come back. -/
def searchRun? (nodes : List Node) (i : Nat) (hi : i < nodes.length) (j : Nat)
    (found : Option (List Node)) : Option (Option (List Node)) :=
  if _h : j % nodes.length = i then some found
  else do
    let n ← nodes[j % nodes.length]?
    let run := cyclicSlice nodes i (j % nodes.length)
    if n.onCurve then
      if straight run then searchRun? nodes i hi (j % nodes.length + 1) (some run) else some found
    else searchRun? nodes i hi (j % nodes.length + 1) found
termination_by placesBefore nodes.length i j
decreasing_by
  all_goals exact placesBefore_succ_lt hi _h

/-- The contour without the nodes strictly between two places: a range of them, or the ranges at
both ends. -/
def clearBetween (c : Contour) (i j : Nat) : Contour :=
  if i < j then c.without (i + 1) (j - 1)
  else
    let d := if i + 1 < c.size then c.without (i + 1) (c.size - 1) else c
    if 1 ≤ j then d.without 0 (j - 1) else d

/-- The contour without the inner nodes of a run from the place `i`, if one of them is on the
curve. -/
def cutFound (c : Contour) (i : Nat) : Option (List Node) → Contour
  | none => c
  | some run =>
    if hasInnerNode run then clearBetween c i ((i + run.length - 1) % c.size) else c

theorem size_clearBetween_le (c : Contour) (i j : Nat) : (clearBetween c i j).size ≤ c.size := by
  rw [clearBetween]
  split
  · exact Contour.size_without_le ..
  · have hback : (if i + 1 < c.size then c.without (i + 1) (c.size - 1) else c).size ≤ c.size := by
      split
      · exact Contour.size_without_le ..
      · exact Nat.le_refl _
    dsimp only
    split
    · exact Nat.le_trans (Contour.size_without_le ..) hback
    · exact hback

theorem size_cutFound_le (c : Contour) (i : Nat) (found : Option (List Node)) :
    (cutFound c i found).size ≤ c.size := by
  cases found with
  | none => exact Nat.le_refl _
  | some run =>
      rw [cutFound]
      split
      · exact size_clearBetween_le ..
      · exact Nat.le_refl _

/-- The contour without the nodes inside straight runs that start at the place `i` or behind. -/
def walkRuns? (c : Contour) (i : Nat) : Option Contour :=
  if h : c.size ≤ i then some c
  else do
    let n ← c.nodes[i]?
    if n.onCurve then
      let found ← searchRun? straight c.nodes i (Nat.lt_of_not_le h) (i + 2) none
      walkRuns? (cutFound c i found) (i + 1)
    else walkRuns? c (i + 1)
termination_by c.size - i
decreasing_by
  · have hsize := size_cutFound_le c i found
    omega
  · omega

end Walk

variable {straight : List Node → Bool}

/-! ## round a contour -/

section Round

variable {front back inside rest : List Node} {a b : Node}

theorem cyclicSlice_within (front : List Node) (a : Node) (inside : List Node) (b : Node)
    (after : List Node) :
    cyclicSlice (front ++ a :: (inside ++ b :: after)) front.length (front ++ a :: inside).length =
      a :: (inside ++ [b]) := by
  have hfirst : ¬(front ++ a :: (inside ++ b :: after)).length ≤ front.length := by simp
  have hlast : min (front ++ a :: inside).length
      ((front ++ a :: (inside ++ b :: after)).length - 1) = (front ++ a :: inside).length := by
    simp
  have hle : front.length ≤ (front ++ a :: inside).length := by simp
  have hsize : (front ++ a :: inside).length - front.length + 1 =
      (a :: (inside ++ [b])).length := by
    simp
  have hsplit : a :: (inside ++ b :: after) = a :: (inside ++ [b]) ++ after := by simp
  rw [cyclicSlice, if_neg hfirst]
  simp only [hlast, hle, if_true]
  rw [List.drop_left, hsize, hsplit, List.take_left]

theorem cyclicSlice_across (before : List Node) (b : Node) (rest : List Node) (a : Node)
    (back : List Node) :
    cyclicSlice (before ++ b :: rest ++ a :: back) (before ++ b :: rest).length before.length =
      a :: (back ++ before ++ [b]) := by
  have hfirst : ¬(before ++ b :: rest ++ a :: back).length ≤ (before ++ b :: rest).length := by simp
  have hlast : min before.length ((before ++ b :: rest ++ a :: back).length - 1) =
      before.length := by
    simp
  have hle : ¬(before ++ b :: rest).length ≤ before.length := by simp
  have hsplit : before ++ b :: rest ++ a :: back = before ++ [b] ++ (rest ++ a :: back) := by simp
  have htake : (before ++ b :: rest ++ a :: back).take (before.length + 1) = before ++ [b] := by
    rw [hsplit, List.take_left' (by simp)]
  rw [cyclicSlice, if_neg hfirst]
  simp only [hlast, hle, if_false]
  rw [List.drop_left, htake]
  simp

/-- The place of a node behind `a`, round the contour: there the node is, and the nodes up to it
are those from `a` on. -/
theorem exists_place (h : back ++ front = inside ++ b :: rest) :
    ∃ j, (front.length + 1 + inside.length) % (front ++ a :: back).length = j ∧
      j ≠ front.length ∧ (front ++ a :: back)[j]? = some b ∧
      cyclicSlice (front ++ a :: back) front.length j = a :: (inside ++ [b]) := by
  rcases split_behind h with ⟨after, rfl, rfl⟩ | ⟨before, rfl, rfl⟩
  · have hplace : front.length + 1 + inside.length = (front ++ a :: inside).length := by
      simp only [List.length_append, List.length_cons]
      omega
    have hnodes : front ++ a :: (inside ++ b :: after) = front ++ a :: inside ++ b :: after := by
      simp
    refine ⟨(front ++ a :: inside).length, ?_, by simp, ?_, ?_⟩
    · rw [hplace, Nat.mod_eq_of_lt (by simp)]
    · rw [hnodes]
      simp
    · exact cyclicSlice_within front a inside b after
  · have hplace : (before ++ b :: rest).length + 1 + (back ++ before).length =
        before.length + (before ++ b :: rest ++ a :: back).length := by
      simp only [List.length_append, List.length_cons]
      omega
    have hnodes : before ++ b :: rest ++ a :: back = before ++ b :: (rest ++ a :: back) := by simp
    refine ⟨before.length, ?_, by simp, ?_, ?_⟩
    · rw [hplace, Nat.add_mod_right, Nat.mod_eq_of_lt (by simp)]
    · rw [hnodes]
      simp
    · exact cyclicSlice_across before b rest a back

/-- The search meets the nodes behind `a` one after the other, those at the front last, and ends
when all of them were met. -/
theorem searchRun?_eq (hi : front.length < (front ++ a :: back).length)
    (h : back ++ front = inside ++ rest) (j : Nat)
    (hj : j % (front ++ a :: back).length =
      (front.length + 1 + inside.length) % (front ++ a :: back).length)
    (found : Option (List Node)) :
    searchRun? straight (front ++ a :: back) front.length hi j found =
      some (grow straight (a :: inside) found rest) := by
  induction rest generalizing inside j found with
  | nil =>
      have hround : front.length + 1 + inside.length =
          front.length + (front ++ a :: back).length := by
        have hlength := congrArg List.length h
        simp only [List.length_append, List.length_cons, List.length_nil] at hlength ⊢
        omega
      rw [hround, Nat.add_mod_right, Nat.mod_eq_of_lt hi] at hj
      rw [searchRun?, dif_pos hj]
      rfl
  | cons m rest ih =>
      obtain ⟨place, hplace, hne, hnode, hslice⟩ := exists_place (a := a) h
      have hnext : (place + 1) % (front ++ a :: back).length =
          (front.length + 1 + (inside ++ [m]).length) % (front ++ a :: back).length := by
        have hsum : front.length + 1 + (inside ++ [m]).length =
            front.length + 1 + inside.length + 1 := by simp [Nat.add_assoc]
        rw [← hplace, hsum, Nat.mod_add_mod]
      have hih := fun found => ih (by simpa using h) (place + 1) hnext found
      rw [hplace] at hj
      rw [searchRun?, dif_neg (hj ▸ hne)]
      simp only [hj, hnode, Option.bind_eq_bind, Option.bind_some, hslice, hih]
      cases hon : m.onCurve <;> cases hrun : straight (a :: (inside ++ [m])) <;>
        simp [grow, hon, hrun]

/-- From the node behind the next one on, the search finds the longest straight run. -/
theorem searchRun?_eq_longestRunOf (hi : front.length < (front ++ a :: back).length) :
    searchRun? straight (front ++ a :: back) front.length hi (front.length + 2) none =
      some (longestRunOf straight (a :: (back ++ front))) := by
  cases hround : back ++ front with
  | nil =>
      obtain ⟨rfl, rfl⟩ := List.append_eq_nil_iff.mp hround
      have hback : (([] : List Node).length + 2) % ([] ++ [a]).length = ([] : List Node).length := by
        simp [Nat.mod_one]
      rw [searchRun?, dif_pos hback]
      rfl
  | cons x rest =>
      have hfirst : back ++ front = [x] ++ rest := hround
      exact searchRun?_eq hi hfirst _ (by simp [Nat.add_assoc]) none

end Round

/-! ## along a contour -/

/-- Both ways to clear what is strictly between two places, on the list of nodes. -/
theorem clearBetween_eq {c : Contour} {i j : Nat} (hi : i < c.size) (hj : j < c.size)
    (hgap : i < j → i + 1 < j) :
    clearBetween c i j = { c with
      nodes := if i < j then c.nodes.take (i + 1) ++ c.nodes.drop j
        else (c.nodes.take (i + 1)).drop j } := by
  rw [Contour.size] at hi hj
  by_cases hlt : i < j
  · have hrange : i + 1 ≤ j - 1 ∧ j - 1 < c.nodes.length := by omega
    have hend : j - 1 + 1 = j := by omega
    rw [clearBetween, if_pos hlt, if_pos hlt, Contour.without, if_pos hrange, hend]
  · have hback : (if i + 1 < c.size then c.without (i + 1) (c.size - 1) else c) =
        { c with nodes := c.nodes.take (i + 1) } := by
      split
      · next hmore => exact Contour.without_back hmore
      · next hmore =>
        rw [List.take_of_length_le (by rw [Contour.size] at hmore; omega)]
    have hfront : j ≤ (c.nodes.take (i + 1)).length := by
      rw [List.length_take]
      omega
    simp only [clearBetween, hlt, if_false, hback]
    rw [Contour.without_front hfront]

theorem cutFound_eq {c : Contour} {i : Nat} (hi : i < c.size) :
    cutFound c i (longestRunOf straight (rotatedTo c.nodes i)) =
      { c with nodes := shortenRunAt straight c.nodes i } := by
  cases hrun : longestRunOf straight (rotatedTo c.nodes i) with
  | none => rw [cutFound, shortenRunAt_of_no_run hrun]
  | some run =>
      rw [shortenRunAt_of_run hrun, cutFound]
      cases hasInnerNode run with
      | false => rfl
      | true =>
          obtain ⟨hstarts, hthree⟩ := prefix_of_longestRunOf hrun
          have hle : run.length ≤ c.size := by
            have hlength := hstarts.length_le
            simp only [rotatedTo, List.length_append, List.length_drop, List.length_take] at hlength
            rw [Contour.size]
            omega
          have hgap : i < (i + run.length - 1) % c.size →
              i + 1 < (i + run.length - 1) % c.size := by
            rcases Nat.lt_or_ge (i + run.length - 1) c.size with hlt | hge
            · rw [Nat.mod_eq_of_lt hlt]
              omega
            · rw [Nat.mod_eq_sub_mod hge, Nat.mod_eq_of_lt (by omega)]
              omega
          exact clearBetween_eq hi (Nat.mod_lt _ (by omega)) hgap

/-- The walk ends, never leaves the contour, and makes of it what the pass makes of it. -/
theorem walkRuns?_eq {c : Contour} {fuel i : Nat} (h : c.size < fuel + i) :
    walkRuns? straight c i =
      some { c with nodes := shortenRunsFrom straight fuel c.nodes i } := by
  induction fuel generalizing c i with
  | zero =>
      rw [walkRuns?, dif_pos (by omega)]
      rfl
  | succ fuel ih =>
      rw [walkRuns?, shortenRunsFrom]
      split
      · next hend =>
        rw [List.getElem?_eq_none_iff.mpr hend]
      · next hmore =>
        have hi : i < c.size := by omega
        obtain ⟨n, hn⟩ : ∃ n, c.nodes[i]? = some n := ⟨_, List.getElem?_eq_getElem hi⟩
        obtain ⟨front, back, hnodes, rfl⟩ := exists_split_of_getElem? hn
        rw [hn, Option.bind_eq_bind, Option.bind_some]
        dsimp only
        cases hon : n.onCurve with
        | false =>
            simp only [Bool.false_eq_true, if_false]
            exact ih (by omega)
        | true =>
            have hfound : searchRun? straight c.nodes front.length hi (front.length + 2) none =
                some (longestRunOf straight (rotatedTo c.nodes front.length)) := by
              simp only [hnodes, searchRun?_eq_longestRunOf, rotatedTo_length]
            have hshorter : (shortenRunAt straight c.nodes front.length).length ≤ c.size := by
              rw [Contour.size, hnodes]
              exact length_shortenRunAt_le straight front n back
            simp only [if_true, hfound, Option.bind_eq_bind, Option.bind_some, cutFound_eq hi]
            refine ih ?_
            show (shortenRunAt straight c.nodes front.length).length < _
            omega

/-- The pass over an outline, from place to place. -/
def walkOutline? (straight : List Node → Bool) (o : Outline) : Option Outline :=
  walkContours? straight (walkRuns? straight · 0) o 0

theorem walkOutline?_eq (o : Outline) :
    walkOutline? straight o = some (removeCollinear straight o) := by
  have hwalk : ∀ c, walkRuns? straight c 0 =
      some { c with nodes := shortenRuns straight c.nodes } := fun c =>
    walkRuns?_eq (Nat.lt_succ_self c.size)
  exact walkContours?_eq hwalk [] o

end FontTrace
