import FontTrace.Engine.Basic
import FontTrace.Proofs.Geometry.Runs
import FontTrace.Proofs.Geometry.Spans
import FontTrace.Proofs.Geometry.Turning

/-!
# FontTrace.Proofs.Geometry.Merging

A node on the curve that is taken out of a contour.  The walks from it to both sides end at the
next node on the curve, at an end of the contour or back at the node, and the control points that
they pass tell what goes with it: of two curves the inner handles, otherwise all of them.

* `walks_before`, `walks_after` — where the walks end, and what they have passed;
* `filter_controls` — what is left of the control points on both sides;
* `kept_closed`, `kept_open` — the nodes that are left;
* `joined_closed`, `joined_open` — the two spans that meet in the node become one;
* `mergePoint_keeps_form` — every contour of lines and cubics, and every place.
-/

namespace FontTrace

namespace Contour

/-! ## walks -/

/-- The place next to a place in one of the two directions.  An open contour ends. -/
def next? (c : Contour) (forward : Bool) (i : Nat) : Option Nat :=
  match forward, c.closed with
  | true, true => some ((i + 1) % c.size)
  | false, true => some ((i + c.size - 1) % c.size)
  | true, false => if i + 1 < c.size then some (i + 1) else none
  | false, false => if 0 < i then some (i - 1) else none

/-- The walk in one direction away from the place `start`: it is now at some place, or beyond the
end, and the places listed are those of the control points that it still passes.  It stops at the
next node on the curve, and where it started. -/
inductive Walks (c : Contour) (forward : Bool) (start : Nat) : Option Nat → List Nat → Prop
  | ended : Walks c forward start none []
  | round : Walks c forward start (some start) []
  | met {i : Nat} {n : Node} (hne : i ≠ start) (hn : c.nodes[i]? = some n)
      (hon : n.onCurve = true) : Walks c forward start (some i) []
  | passed {i : Nat} {n : Node} {places : List Nat} (hne : i ≠ start) (hn : c.nodes[i]? = some n)
      (hoff : n.onCurve = false) (h : Walks c forward start (c.next? forward i) places) :
      Walks c forward start (some i) (i :: places)

/-- All nodes that a walk would come by if it did not stop at one on the curve, with their
places. -/
inductive Route (c : Contour) (forward : Bool) (start : Nat) :
    Option Nat → List (Node × Nat) → Prop
  | ended : Route c forward start none []
  | round : Route c forward start (some start) []
  | met {i : Nat} {n : Node} {ws : List (Node × Nat)} (hne : i ≠ start)
      (hn : c.nodes[i]? = some n) (h : Route c forward start (c.next? forward i) ws) :
      Route c forward start (some i) ((n, i) :: ws)

/-- The places of the control points in front of the first node on the curve. -/
def controlPlaces (ws : List (Node × Nat)) : List Nat :=
  (ws.takeWhile fun x => !x.1.onCurve).map (·.2)

section Walks

variable {c : Contour} {forward : Bool} {start i : Nat} {cursor : Option Nat}
  {ws : List (Node × Nat)} {front rest xs back : List Node} {p : Node}

/-- A walk ends, and never leaves the contour. -/
theorem Route.walks (h : Route c forward start cursor ws) :
    Walks c forward start cursor (controlPlaces ws) := by
  induction h with
  | ended => exact .ended
  | round => exact .round
  | @met i n ws hne hn h ih =>
      cases hon : n.onCurve with
      | true =>
          have hnone : controlPlaces ((n, i) :: ws) = [] := by simp [controlPlaces, hon]
          rw [hnone]
          exact .met hne hn hon
      | false =>
          have hmore : controlPlaces ((n, i) :: ws) = i :: controlPlaces ws := by
            simp [controlPlaces, hon]
          rw [hmore]
          exact .passed hne hn hon ih

/-- The place `k`, or what comes behind the last place. -/
def enter (c : Contour) (k : Nat) : Option Nat :=
  if k < c.size then some k else if c.closed then some 0 else none

/-- The place in front of the place `k`, or what comes before the first place. -/
def enterBack (c : Contour) (k : Nat) : Option Nat :=
  if 0 < k then some (k - 1) else if c.closed then some (c.size - 1) else none

theorem next?_true (h : i < c.size) : c.next? true i = c.enter (i + 1) := by
  unfold next? enter
  cases c.closed with
  | false => rfl
  | true =>
      dsimp only
      split
      · next hlt => rw [Nat.mod_eq_of_lt hlt]
      · next hge =>
        have hend : i + 1 = c.size := by omega
        rw [hend, Nat.mod_self]
        rfl

theorem next?_false (h : i < c.size) : c.next? false i = c.enterBack i := by
  unfold next? enterBack
  cases c.closed with
  | false => rfl
  | true =>
      dsimp only
      split
      · next hpos =>
        have hround : i + c.size - 1 = i - 1 + c.size := by omega
        rw [hround, Nat.add_mod_right, Nat.mod_eq_of_lt (by omega)]
      · next hzero =>
        have hfirst : i + c.size - 1 = c.size - 1 := by omega
        rw [hfirst, Nat.mod_eq_of_lt (by omega)]
        rfl

/-- A walk forwards comes by the nodes of a part of the contour in their order. -/
theorem route_forwards (hnodes : c.nodes = xs ++ rest ++ back)
    (hstart : start < xs.length ∨ xs.length + rest.length ≤ start)
    (h : Route c true start (c.enter (xs.length + rest.length)) ws) :
    Route c true start (c.enter xs.length) (rest.zipIdx xs.length ++ ws) := by
  induction rest generalizing xs with
  | nil => simpa using h
  | cons n rest ih =>
      have hsize : xs.length < c.size := by simp [size, hnodes]
      have hsplit : c.nodes = xs ++ [n] ++ rest ++ back := by simp [hnodes]
      have hnext := ih hsplit (by simp at hstart ⊢; omega) (by
        simpa [Nat.add_assoc, Nat.add_comm, Nat.add_left_comm] using h)
      have henter : c.enter xs.length = some xs.length := if_pos hsize
      rw [henter, List.zipIdx_cons, List.cons_append]
      refine .met (by simp at hstart; omega) (by simp [hnodes]) ?_
      rw [next?_true hsize]
      simpa using hnext

/-- A walk backwards comes by them in the other order. -/
theorem route_backwards (hnodes : c.nodes = xs ++ rest ++ back)
    (hstart : start < xs.length ∨ xs.length + rest.length ≤ start)
    (h : Route c false start (c.enterBack xs.length) ws) :
    Route c false start (c.enterBack (xs.length + rest.length))
      ((rest.zipIdx xs.length).reverse ++ ws) := by
  induction rest generalizing xs ws with
  | nil => simpa using h
  | cons n rest ih =>
      have hsize : xs.length < c.size := by simp [size, hnodes]
      have hsplit : c.nodes = xs ++ [n] ++ rest ++ back := by simp [hnodes]
      have hmet : Route c false start (c.enterBack (xs ++ [n]).length) ((n, xs.length) :: ws) := by
        have henter : c.enterBack (xs ++ [n]).length = some xs.length := by simp [enterBack]
        rw [henter]
        refine .met (by simp at hstart; omega) (by simp [hnodes]) ?_
        rwa [next?_false hsize]
      have hrest := ih hsplit (by simp at hstart ⊢; omega) hmet
      simpa [Nat.add_assoc, Nat.add_comm, Nat.add_left_comm] using hrest

/-- The nodes behind a node, and if the contour is closed those in front of it, with their
places. -/
def behindPlaces (closed : Bool) (front back : List Node) : List (Node × Nat) :=
  back.zipIdx (front.length + 1) ++ if closed then front.zipIdx else []

/-- The nodes in front of a node from the nearest one on, and if the contour is closed those behind
it, with their places. -/
def beforePlaces (closed : Bool) (front back : List Node) : List (Node × Nat) :=
  front.zipIdx.reverse ++ if closed then (back.zipIdx (front.length + 1)).reverse else []

theorem walks_after (closed : Bool) (front : List Node) (p : Node) (back : List Node) :
    let c : Contour := ⟨front ++ p :: back, closed⟩
    Walks c true front.length (c.next? true front.length)
      (controlPlaces (behindPlaces closed front back)) := by
  intro c
  have hsize : c.size = front.length + 1 + back.length := by
    simp only [c, size, List.length_append, List.length_cons]
    omega
  have hback : c.nodes = (front ++ [p]) ++ back ++ [] := by simp [c]
  refine Route.walks ?_
  rw [next?_true (by omega)]
  have hlength : front.length + 1 = (front ++ [p]).length := by simp
  rw [behindPlaces, hlength]
  refine route_forwards hback (.inl (by simp)) ?_
  have hend : c.enter ((front ++ [p]).length + back.length) = if closed then some 0 else none :=
    if_neg (by simp [hsize])
  rw [hend]
  cases closed with
  | false => exact .ended
  | true =>
      -- past the end the walk goes on at the first node
      have hfront : c.nodes = [] ++ front ++ p :: back := by simp [c]
      have hround : Route c true front.length
          (c.enter (([] : List Node).length + front.length)) [] := by
        have henter : c.enter (([] : List Node).length + front.length) = some front.length := by
          rw [List.length_nil, Nat.zero_add]
          exact if_pos (by omega)
        rw [henter]
        exact .round
      have hzero : c.enter 0 = some 0 := if_pos (by omega)
      simpa [hzero] using route_forwards hfront (.inr (by simp)) hround

theorem walks_before (closed : Bool) (front : List Node) (p : Node) (back : List Node) :
    let c : Contour := ⟨front ++ p :: back, closed⟩
    Walks c false front.length (c.next? false front.length)
      (controlPlaces (beforePlaces closed front back)) := by
  intro c
  have hsize : c.size = front.length + 1 + back.length := by
    simp only [c, size, List.length_append, List.length_cons]
    omega
  refine Route.walks ?_
  rw [next?_false (by omega)]
  have hnodes : c.nodes = [] ++ front ++ p :: back := by simp [c]
  have hfront : ([] : List Node).length + front.length = front.length := by simp
  rw [beforePlaces, ← hfront]
  refine route_backwards hnodes (.inr (by simp)) ?_
  cases closed with
  | false => exact .ended
  | true =>
      -- before the first node the walk goes on at the last one
      have hlast : c.enterBack 0 = c.enterBack ((front ++ [p]).length + back.length) := by
        simp only [enterBack, hsize]
        simp [c]
      have hround : Route c false front.length (c.enterBack (front ++ [p]).length) [] := by
        have henter : c.enterBack (front ++ [p]).length = some front.length := by simp [enterBack]
        rw [henter]
        exact .round
      have hback : c.nodes = front ++ [p] ++ back ++ [] := by simp [c]
      rw [List.length_nil, hlast]
      simpa using route_backwards hback (.inl (by simp)) hround

end Walks

/-! ## what is taken out -/

/-- The places that are taken out: that of the node, and those of the control points next to it or,
between two curves, of the nearest one on either side. -/
def removedPlaces (i : Nat) (before after : List Nat) : List Nat :=
  if before.length = 2 ∧ after.length = 2 then i :: (before.take 1 ++ after.take 1)
  else i :: (before ++ after)

/-- The nodes at other places. -/
def kept (nodes : List Node) (removed : List Nat) : List Node :=
  (nodes.zipIdx.filter fun (x : Node × Nat) => !removed.contains x.2).map (·.1)

/-- The contour without the node at a place and control points at the places next to it; a closed
one starts with its first node on the curve. -/
def mergedBy (c : Contour) (i : Nat) (before after : List Nat) : Contour :=
  let merged : Contour := ⟨kept c.nodes (removedPlaces i before after), c.closed⟩
  match merged.firstOnCurve? with
  | some start => merged.startingAt start
  | none => merged

/-- What is left of the control points on both sides of a node that is taken out: of two curves
the outer handles, and otherwise nothing. -/
def joinedControls (l m : List Node) : List Node :=
  if l.length = 2 ∧ m.length = 2 then l.take 1 ++ m.drop 1 else []

theorem joinedControls_cases (l m : List Node) : joinedControls l m = [] ∨
    ∃ l₁ l₂ m₁ m₂, l = [l₁, l₂] ∧ m = [m₁, m₂] ∧ joinedControls l m = [l₁, m₂] := by
  unfold joinedControls
  split
  · next h =>
    obtain ⟨l₁, l₂, rfl⟩ := List.length_eq_two.mp h.1
    obtain ⟨m₁, m₂, rfl⟩ := List.length_eq_two.mp h.2
    exact .inr ⟨l₁, l₂, m₁, m₂, rfl, rfl, rfl⟩
  · exact .inl rfl

section Removed

variable {i : Nat} {front back l m r r' : List Node} {ls ms xs zs : List (Node × Nat)}

theorem allOff_joinedControls (hl : AllOff l) (hm : AllOff m) : AllOff (joinedControls l m) := by
  rcases joinedControls_cases l m with h | ⟨l₁, l₂, m₁, m₂, rfl, rfl, h⟩
  · rw [h]
    exact allOff_nil
  · rw [h]
    exact allOff_cons.mpr ⟨(allOff_cons.mp hl).1, (allOff_cons.mp hm).2⟩

theorem zipIdx_append_cons (front : List Node) (p : Node) (back : List Node) :
    (front ++ p :: back).zipIdx =
      front.zipIdx ++ (p, front.length) :: back.zipIdx (front.length + 1) := by
  simp [List.zipIdx_append]

/-- Merging takes out what the walks to both sides pass. -/
theorem mergeAt_eq {p : Node} (hp : p.onCurve = true) {closed : Bool}
    (hcount : 2 ≤ onCurveCount ⟨front ++ p :: back, closed⟩) :
    mergeAt ⟨front ++ p :: back, closed⟩ front.length =
      mergedBy ⟨front ++ p :: back, closed⟩ front.length
        (controlPlaces (beforePlaces closed front back))
        (controlPlaces (behindPlaces closed front back)) := by
  have hmore : ¬onCurveCount ⟨front ++ p :: back, closed⟩ < 2 := by omega
  have hdrop : (front ++ p :: back).zipIdx.drop (front.length + 1) =
      back.zipIdx (front.length + 1) := by
    rw [zipIdx_append_cons, List.append_cons]
    exact List.drop_left' (by simp)
  have htake : (front ++ p :: back).zipIdx.take front.length = front.zipIdx := by
    rw [zipIdx_append_cons]
    exact List.take_left' List.length_zipIdx
  have hnode : (front ++ p :: back)[front.length]? = some p := by simp
  unfold mergeAt
  rw [hnode]
  simp only [hp, hmore, hdrop, htake, List.reverse_reverse]
  cases closed with
  | false =>
      rw [beforePlaces, behindPlaces]
      simp only [Bool.false_eq_true, if_false, List.append_nil]
      rfl
  | true => rfl

/-- A walk passes the control points in front of the next node on the curve. -/
theorem controlPlaces_append (hms : AllOff (ms.map (·.1)))
    (hxs : ∀ b ∈ (xs.map (·.1)).head?, b.onCurve = true) :
    controlPlaces (ms ++ xs) = ms.map (·.2) := by
  have hoff : ∀ x ∈ ms, (!x.1.onCurve) = true := fun x hx => by
    simp [hms x.1 (List.mem_map_of_mem hx)]
  have hnone : xs.takeWhile (fun x => !x.1.onCurve) = [] := by
    cases xs with
    | nil => rfl
    | cons x xs => simp [hxs x.1 rfl]
  rw [controlPlaces, List.takeWhile_append_of_pos hoff, hnone, List.append_nil]

theorem controlPlaces_reverse (hls : AllOff (ls.map (·.1)))
    (hxs : ∀ a ∈ (xs.map (·.1)).getLast?, a.onCurve = true) :
    controlPlaces (xs ++ ls).reverse = ls.reverse.map (·.2) := by
  rw [List.reverse_append]
  refine controlPlaces_append ?_ ?_
  · rw [List.map_reverse]
    exact allOff_reverse hls
  · rwa [List.map_reverse, List.head?_reverse]

/-! Of the nodes with places around the node at `i`, `ls` are the control points in front of it,
`ms` those behind it and `xs` all others. -/

theorem mem_removedPlaces (i : Nat) (before after : List Nat) :
    i ∈ removedPlaces i before after := by
  unfold removedPlaces
  split <;> exact List.mem_cons_self

theorem removedPlaces_subset (i : Nat) (before after : List Nat) :
    removedPlaces i before after ⊆ i :: (before ++ after) := by
  unfold removedPlaces
  split
  · have hbefore := List.take_subset 1 before
    have hafter := List.take_subset 1 after
    exact List.cons_subset_cons i (List.append_subset.mpr
      ⟨List.subset_append_of_subset_left after hbefore,
        List.subset_append_of_subset_right before hafter⟩)
  · exact List.Subset.refl _

/-- Nodes at other places stay. -/
theorem filter_others (hnodup : (i :: (ls ++ ms ++ xs).map (·.2)).Nodup) (hzs : zs ⊆ xs) :
    zs.filter (fun x => !(removedPlaces i (ls.reverse.map (·.2)) (ms.map (·.2))).contains x.2) =
      zs := by
  refine List.filter_eq_self.mpr fun x hx => ?_
  have hdistinct : ∀ j ∈ i :: (ls.reverse.map (·.2) ++ ms.map (·.2)), j ≠ x.2 := by
    have hsides : ((i :: (ls ++ ms).map (·.2)) ++ xs.map (·.2)).Nodup := by simpa using hnodup
    intro j hj
    refine (List.nodup_append.mp hsides).2.2 j ?_ x.2 (List.mem_map_of_mem (hzs hx))
    simpa using hj
  have hother : x.2 ∉ removedPlaces i (ls.reverse.map (·.2)) (ms.map (·.2)) :=
    fun hmem => hdistinct x.2 (removedPlaces_subset _ _ _ hmem) rfl
  simpa using hother

/-- Of the control points on both sides the joined ones are left. -/
theorem filter_controls (hnodup : (i :: (ls ++ ms ++ xs).map (·.2)).Nodup) :
    ((ls ++ ms).filter fun x =>
      !(removedPlaces i (ls.reverse.map (·.2)) (ms.map (·.2))).contains x.2).map (·.1) =
      joinedControls (ls.map (·.1)) (ms.map (·.1)) := by
  by_cases htwo : ls.length = 2 ∧ ms.length = 2
  · obtain ⟨l₁, l₂, rfl⟩ := List.length_eq_two.mp htwo.1
    obtain ⟨m₁, m₂, rfl⟩ := List.length_eq_two.mp htwo.2
    have hplaces : removedPlaces i ([l₁, l₂].reverse.map (·.2)) ([m₁, m₂].map (·.2)) =
        [i, l₂.2, m₁.2] := rfl
    rw [hplaces]
    have hsides : (i :: ([l₁, l₂] ++ [m₁, m₂]).map (·.2)).Nodup := by
      rw [List.map_append, ← List.cons_append] at hnodup
      exact (List.nodup_append.mp hnodup).1
    simp only [List.cons_append, List.nil_append, List.map_cons, List.map_nil, List.nodup_cons,
      List.mem_cons, List.not_mem_nil, or_false, not_or] at hsides
    obtain ⟨⟨hi₁, -, -, him⟩, ⟨hl, hlm, -⟩, ⟨-, hlm'⟩, hm, -⟩ := hsides
    simp [joinedControls, hl, hlm, Ne.symm hi₁, Ne.symm him, Ne.symm hm, Ne.symm hlm']
  · have hplaces : removedPlaces i (ls.reverse.map (·.2)) (ms.map (·.2)) =
        i :: (ls.reverse.map (·.2) ++ ms.map (·.2)) := if_neg (by simpa using htwo)
    have hall : ∀ x ∈ ls ++ ms, x.2 ∈ i :: (ls.reverse.map (·.2) ++ ms.map (·.2)) := by
      intro x hx
      have hmem : x.2 ∈ (ls ++ ms).map (·.2) := List.mem_map_of_mem hx
      exact List.mem_cons_of_mem _ (by simpa using hmem)
    have hnone : (ls ++ ms).filter (fun x =>
        !(removedPlaces i (ls.reverse.map (·.2)) (ms.map (·.2))).contains x.2) = [] := by
      rw [hplaces]
      exact List.filter_eq_nil_iff.mpr fun x hx => by
        simpa only [List.contains_eq_mem, Bool.not_eq_true', decide_eq_false_iff_not,
          not_not] using hall x hx
    have hjoined : joinedControls (ls.map (·.1)) (ms.map (·.1)) = [] :=
      if_neg (by simpa using htwo)
    rw [hnone, hjoined, List.map_nil]

theorem nodup_places (front back : List Node) :
    (front.length :: (back.zipIdx (front.length + 1) ++ front.zipIdx).map (·.2)).Nodup := by
  simp only [List.map_append, List.zipIdx_map_snd, List.nodup_cons, List.nodup_append,
    List.mem_append, List.mem_range'_1]
  refine ⟨by omega, List.nodup_range' .., List.nodup_range' .., ?_⟩
  intro j hj k hk
  omega

/-- Without the node itself, what is left is in front of it or behind it. -/
theorem kept_eq (p : Node) {removed : List Nat} (h : front.length ∈ removed) :
    kept (front ++ p :: back) removed =
      (front.zipIdx.filter fun x => !removed.contains x.2).map (·.1) ++
        ((back.zipIdx (front.length + 1)).filter fun x => !removed.contains x.2).map (·.1) := by
  rw [kept, zipIdx_append_cons]
  simp [h]

/-- The other nodes of an open contour. -/
theorem kept_open (p : Node) (hl : AllOff l) (hm : AllOff m)
    (hr : ∀ a ∈ r.getLast?, a.onCurve = true) (hr' : ∀ b ∈ r'.head?, b.onCurve = true) :
    kept (r ++ l ++ p :: (m ++ r')) (removedPlaces (r ++ l).length
        (controlPlaces (beforePlaces false (r ++ l) (m ++ r')))
        (controlPlaces (behindPlaces false (r ++ l) (m ++ r')))) =
      r ++ joinedControls l m ++ r' := by
  have hfront : (r ++ l).zipIdx.map (·.1) = r ++ l := List.zipIdx_map_fst ..
  have hback : ((m ++ r').zipIdx ((r ++ l).length + 1)).map (·.1) = m ++ r' :=
    List.zipIdx_map_fst ..
  have hnodup := nodup_places (r ++ l) (m ++ r')
  rw [kept_eq p (mem_removedPlaces ..), beforePlaces, behindPlaces]
  generalize (r ++ l).length = i at *
  generalize (r ++ l).zipIdx = before at *
  generalize (m ++ r').zipIdx (i + 1) = after at *
  obtain ⟨xs, ls, rfl, rfl, rfl⟩ := List.map_eq_append_iff.mp hfront
  obtain ⟨ms, ys, rfl, rfl, rfl⟩ := List.map_eq_append_iff.mp hback
  have hplaces : (i :: (ls ++ ms ++ (xs ++ ys)).map (·.2)).Nodup := by
    refine (List.Perm.nodup_iff (List.perm_iff_count.mpr fun k => ?_)).mp hnodup
    simp only [List.map_append, List.count_cons, List.count_append]
    omega
  have hxs := filter_others hplaces (List.subset_append_left xs ys)
  have hys := filter_others hplaces (List.subset_append_right xs ys)
  have hcontrols := filter_controls hplaces
  rw [List.filter_append, List.map_append] at hcontrols
  simp only [Bool.false_eq_true, if_false, List.append_nil]
  rw [controlPlaces_append hm hr', controlPlaces_reverse hl hr, List.filter_append,
    List.filter_append, hxs, hys, List.map_append, List.map_append, ← hcontrols]
  simp only [List.append_assoc]

/-- The other nodes of a closed contour, around it: there one side and the other meet. -/
theorem kept_closed (p : Node) (hround : back ++ front = m ++ r ++ l) (hl : AllOff l)
    (hm : AllOff m) (hr : r ≠ []) (hfirst : ∀ b ∈ r.head?, b.onCurve = true)
    (hlast : ∀ a ∈ r.getLast?, a.onCurve = true) :
    kept (front ++ p :: back) (removedPlaces front.length
        (controlPlaces (beforePlaces true front back))
        (controlPlaces (behindPlaces true front back))) ~r r ++ joinedControls l m := by
  have hnodes : (back.zipIdx (front.length + 1) ++ front.zipIdx).map (·.1) = m ++ r ++ l := by
    rw [← hround]
    simp
  have hnodup := nodup_places front back
  have hreverse : beforePlaces true front back =
      (back.zipIdx (front.length + 1) ++ front.zipIdx).reverse := by simp [beforePlaces]
  have hbehind : behindPlaces true front back =
      back.zipIdx (front.length + 1) ++ front.zipIdx := rfl
  rw [kept_eq p (mem_removedPlaces ..), hreverse, hbehind]
  -- what is in front of the node goes behind the rest
  refine List.isRotated_append.trans ?_
  rw [← List.map_append, ← List.filter_append]
  generalize back.zipIdx (front.length + 1) ++ front.zipIdx = around at *
  obtain ⟨mxs, ls, rfl, hmxs, rfl⟩ := List.map_eq_append_iff.mp hnodes
  obtain ⟨ms, xs, rfl, rfl, rfl⟩ := List.map_eq_append_iff.mp hmxs
  have hplaces : (front.length :: (ls ++ ms ++ xs).map (·.2)).Nodup := by
    refine (List.Perm.nodup_iff (List.perm_iff_count.mpr fun k => ?_)).mp hnodup
    simp only [List.map_append, List.count_cons, List.count_append]
    omega
  have hbefore : controlPlaces (ms ++ xs ++ ls).reverse = ls.reverse.map (·.2) :=
    controlPlaces_reverse hl (by rwa [List.map_append, List.getLast?_append_of_ne_nil _ hr])
  have hafter : controlPlaces (ms ++ (xs ++ ls)) = ms.map (·.2) :=
    controlPlaces_append hm (by rwa [List.map_append, List.head?_append_of_ne_nil _ hr])
  rw [List.append_assoc] at hbefore ⊢
  rw [hbefore, hafter, List.filter_append, List.map_append]
  refine List.isRotated_append.trans ?_
  rw [← List.map_append, ← List.filter_append, List.append_assoc, List.filter_append,
    List.map_append, filter_others hplaces (List.Subset.refl xs), filter_controls hplaces]

/-- A contour turned to begin with a node on the curve. -/
theorem turned_mergedBy (c : Contour) (i : Nat) (before after : List Nat) :
    Turned ⟨kept c.nodes (removedPlaces i before after), c.closed⟩ (c.mergedBy i before after) := by
  unfold mergedBy
  dsimp only
  split
  · exact turned_startingAt ..
  · exact .refl _

theorem head?_mergedBy {c : Contour} (i : Nat) (before after : List Nat)
    (hclosed : c.closed = true) (h : ∃ n ∈ (c.mergedBy i before after).nodes, n.onCurve = true) :
    ∃ n ∈ (c.mergedBy i before after).nodes.head?, n.onCurve = true := by
  obtain ⟨n, hn, hon⟩ := h
  rw [(turned_mergedBy ..).mem_iff] at hn
  obtain ⟨k, hk⟩ : ∃ k, firstOnCurve? ⟨kept c.nodes (removedPlaces i before after), c.closed⟩ =
      some k := by
    refine Option.isSome_iff_exists.mp ?_
    rw [firstOnCurve?, List.findIdx?_isSome]
    exact List.any_eq_true.mpr ⟨n, hn, hon⟩
  obtain ⟨hlt, hfirst, -⟩ := List.findIdx?_eq_some_iff_getElem.mp hk
  unfold mergedBy
  simp only [hk]
  exact ⟨_, head?_startingAt hclosed (List.getElem?_eq_getElem hlt), hfirst⟩

end Removed

/-! ## spans that are joined -/

/-- Two spans that meet in a node of an open contour become one; where only one of them is, it
goes. -/
inductive JoinedAt (p : Node) : List (List Node) → List (List Node) → Prop
  | inner (ss : List (List Node)) (a : Node) (l m : List Node) (b : Node) (ss' : List (List Node)) :
      JoinedAt p (ss ++ (a :: (l ++ [p])) :: (p :: (m ++ [b])) :: ss')
        (ss ++ (a :: (joinedControls l m ++ [b])) :: ss')
  | first (m : List Node) (b : Node) (ss : List (List Node)) :
      JoinedAt p ((p :: (m ++ [b])) :: ss) ss
  | last (ss : List (List Node)) (a : Node) (l : List Node) :
      JoinedAt p (ss ++ [a :: (l ++ [p])]) ss

/-- The same in a closed contour, where it does not matter which span is the first. -/
def JoinedAround (p : Node) (ss ss' : List (List Node)) : Prop :=
  ∃ a l m b rest, ss ~r (a :: (l ++ [p])) :: (p :: (m ++ [b])) :: rest ∧
    ss' ~r (a :: (joinedControls l m ++ [b])) :: rest

section Joined

variable {p : Node} {front back l m r r' : List Node} {ss ss' : List (List Node)}

theorem length_joined (a b : Node) (l m : List Node) :
    (a :: (joinedControls l m ++ [b])).length = 2 ∨
      (a :: (joinedControls l m ++ [b])).length = 4 := by
  rcases joinedControls_cases l m with h | ⟨l₁, l₂, m₁, m₂, -, -, h⟩
  · exact .inl (by rw [h]; rfl)
  · exact .inr (by rw [h]; rfl)

theorem JoinedAt.lengths (h : JoinedAt p ss ss') (hss : ∀ s ∈ ss, s.length = 2 ∨ s.length = 4) :
    ∀ s ∈ ss', s.length = 2 ∨ s.length = 4 := by
  cases h with
  | inner ss a l m b ss' =>
      intro s hs
      rcases List.mem_append.mp hs with hs | hs
      · exact hss s (List.mem_append_left _ hs)
      · rcases List.mem_cons.mp hs with rfl | hs
        · exact length_joined a b l m
        · exact hss s (List.mem_append_right _
            (List.mem_cons_of_mem _ (List.mem_cons_of_mem _ hs)))
  | first m b ss => exact fun s hs => hss s (List.mem_cons_of_mem _ hs)
  | last ss a l => exact fun s hs => hss s (List.mem_append_left _ hs)

theorem JoinedAround.lengths (h : JoinedAround p ss ss')
    (hss : ∀ s ∈ ss, s.length = 2 ∨ s.length = 4) : ∀ s ∈ ss', s.length = 2 ∨ s.length = 4 := by
  obtain ⟨a, l, m, b, rest, hbefore, hafter⟩ := h
  intro s hs
  rcases List.mem_cons.mp (hafter.mem_iff.mp hs) with rfl | hs
  · exact length_joined a b l m
  · exact hss s (hbefore.mem_iff.mpr (List.mem_cons_of_mem _ (List.mem_cons_of_mem _ hs)))

theorem joined_closed (hp : p.onCurve = true) {nodes : List Node}
    (hround : back ++ front = m ++ r ++ l) (hl : AllOff l) (hm : AllOff m) (hr : r ≠ [])
    (hfirst : ∀ b ∈ r.head?, b.onCurve = true) (hlast : ∀ a ∈ r.getLast?, a.onCurve = true)
    (hnodes : nodes ~r r ++ joinedControls l m) :
    JoinedAround p (spans ⟨front ++ p :: back, true⟩) (spans ⟨nodes, true⟩) := by
  obtain ⟨b, xs, rfl⟩ := List.exists_cons_of_ne_nil hr
  have hb : b.onCurve = true := hfirst b rfl
  obtain ⟨a, hlast?⟩ : ∃ a, (b :: xs).getLast? = some a := ⟨_, List.getLast?_cons⟩
  have ha : a.onCurve = true := hlast a hlast?
  refine ⟨a, l, m, b, spansFrom [b] xs, ?_, ?_⟩
  · have hbefore : spans ⟨front ++ p :: back, true⟩ ~r
        (p :: (m ++ [b])) :: (spansFrom [b] xs ++ [a :: (l ++ [p])]) := by
      have hsplit : back ++ front ++ [p] = m ++ b :: (xs ++ l ++ [p]) := by simp [hround]
      have hall := spans_isRotated hp front back
      rw [hsplit, spansFrom_next hm hb, spansFrom_append_next ha hlast? hl hp] at hall
      exact hall
    refine hbefore.trans ?_
    rw [← List.cons_append]
    exact List.isRotated_concat ..
  · rw [List.cons_append] at hnodes
    have hafter := spans_of_isRotated hb hnodes
    rw [spansFrom_append_next ha hlast? (allOff_joinedControls hl hm) hb] at hafter
    exact hafter.trans (List.isRotated_concat ..)

theorem joinedControls_nil_left (m : List Node) : joinedControls [] m = [] := by
  simp [joinedControls]

theorem joinedControls_nil_right (l : List Node) : joinedControls l [] = [] := by
  simp [joinedControls]

theorem joined_open (hp : p.onCurve = true) (hl : AllOff l) (hm : AllOff m)
    (hr : ∀ a ∈ r.getLast?, a.onCurve = true) (hr' : ∀ b ∈ r'.head?, b.onCurve = true)
    (hfirst : ∀ n ∈ (r ++ l ++ p :: (m ++ r')).head?, n.onCurve = true)
    (hlast : ∀ n ∈ (r ++ l ++ p :: (m ++ r')).getLast?, n.onCurve = true)
    (hcount : r ≠ [] ∨ r' ≠ []) :
    JoinedAt p (spans ⟨r ++ l ++ p :: (m ++ r'), false⟩)
      (spans ⟨r ++ joinedControls l m ++ r', false⟩) := by
  have hopen : ∀ (f : Node) (xs : List Node), f.onCurve = true →
      spans ⟨f :: xs, false⟩ = spansFrom [f] xs := fun f xs hf => spans_open allOff_nil hf xs
  cases r with
  | nil =>
      -- the node is the first one, and nothing is in front of it
      obtain rfl : l = [] := eq_nil_of_head? hl hfirst
      obtain ⟨b, ys, rfl⟩ := List.exists_cons_of_ne_nil (hcount.resolve_left fun h => h rfl)
      have hb : b.onCurve = true := hr' b rfl
      rw [joinedControls_nil_left, List.nil_append, List.nil_append, List.nil_append, hopen p _ hp,
        hopen b ys hb, spansFrom_next hm hb]
      exact .first m b (spansFrom [b] ys)
  | cons f xs =>
      have hf : f.onCurve = true := hfirst f rfl
      obtain ⟨a, hlast?⟩ : ∃ a, (f :: xs).getLast? = some a := ⟨_, List.getLast?_cons⟩
      have ha : a.onCurve = true := hr a hlast?
      simp only [List.cons_append]
      rw [hopen f _ hf, hopen f _ hf, spansFrom_append_next ha hlast? hl hp]
      cases r' with
      | nil =>
          -- the node is the last one, and nothing is behind it
          obtain rfl : m = [] := by
            have hend : f :: xs ++ l ++ p :: (m ++ []) = f :: xs ++ l ++ [p] ++ m := by simp
            rw [hend] at hlast
            exact eq_nil_of_getLast? hm hlast
          rw [joinedControls_nil_right, List.append_nil, List.append_nil]
          simpa [spansFrom] using (.last (spansFrom [f] xs) a l : JoinedAt p _ _)
      | cons b ys =>
          have hb : b.onCurve = true := hr' b rfl
          rw [spansFrom_append_next ha hlast? (allOff_joinedControls hl hm) hb,
            spansFrom_next hm hb]
          exact .inner (spansFrom [f] xs) a l m b (spansFrom [b] ys)

end Joined

/-! ## merging -/

/-- A node on the curve that is not the only one. -/
structure CanMerge (c : Contour) (i : Nat) (p : Node) : Prop where
  getElem? : c.nodes[i]? = some p
  onCurve : p.onCurve = true
  several : 2 ≤ c.onCurveCount

/-- The contour `d` is `c` without the node `p` at the place `i`: all other nodes on the curve are
left, in their order. -/
structure MergedAt (c : Contour) (i : Nat) (p : Node) (d : Contour) : Prop where
  closed_eq : d.closed = c.closed
  plain : d.IsPlain
  starts : c.closed = true → ∃ n ∈ d.nodes.head?, n.onCurve = true
  around : c.closed = true → JoinedAround p c.spans d.spans ∧
    d.nodes.filter (·.onCurve) ~r (c.nodes.eraseIdx i).filter (·.onCurve)
  along : c.closed = false → JoinedAt p c.spans d.spans ∧
    d.nodes.filter (·.onCurve) = (c.nodes.eraseIdx i).filter (·.onCurve)

section Merging

variable {c : Contour} {i : Nat} {p : Node} {front back : List Node}

theorem exists_controls_behind (ns : List Node) :
    ∃ m r, ns = m ++ r ∧ AllOff m ∧ ∀ b ∈ r.head?, b.onCurve = true := by
  rcases allOff_or_exists_first ns with hoff | ⟨m, b, r, rfl, hm, hb⟩
  · exact ⟨ns, [], (List.append_nil ns).symm, hoff, by simp⟩
  · exact ⟨m, b :: r, rfl, hm, by simpa using hb⟩

theorem exists_controls_before (ns : List Node) :
    ∃ r l, ns = r ++ l ∧ AllOff l ∧ ∀ a ∈ r.getLast?, a.onCurve = true := by
  rcases allOff_or_exists_last ns with hoff | ⟨r, a, l, rfl, hl, ha⟩
  · exact ⟨[], ns, rfl, hoff, by simp⟩
  · exact ⟨r ++ [a], l, by simp, hl, by simpa using ha⟩

theorem eraseIdx_append_cons (front : List Node) (p : Node) (back : List Node) :
    (front ++ p :: back).eraseIdx front.length = front ++ back := by
  rw [List.eraseIdx_append_of_length_le (Nat.le_refl _)]
  simp

theorem mergedAt_closed (hp : p.onCurve = true) (hc : IsPlain ⟨front ++ p :: back, true⟩)
    (hcount : 2 ≤ onCurveCount ⟨front ++ p :: back, true⟩) :
    MergedAt ⟨front ++ p :: back, true⟩ front.length p
      (mergedBy ⟨front ++ p :: back, true⟩ front.length
        (controlPlaces (beforePlaces true front back))
        (controlPlaces (behindPlaces true front back))) := by
  obtain ⟨m, rest, hm_rest, hm, hhead⟩ := exists_controls_behind (back ++ front)
  obtain ⟨r, l, rfl, hl, hlast⟩ := exists_controls_before rest
  have hround : back ++ front = m ++ r ++ l := by rw [hm_rest, List.append_assoc]
  have hr : r ≠ [] := by
    rintro rfl
    have hoff : AllOff (back ++ front) := by
      rw [hround, List.append_nil]
      exact allOff_append.mpr ⟨hm, hl⟩
    obtain ⟨hback, hfront⟩ := allOff_append.mp hoff
    simp [onCurveCount, hp, List.countP_eq_length_filter, filter_onCurve_of_allOff hback,
      filter_onCurve_of_allOff hfront] at hcount
  have hfirst : ∀ b ∈ r.head?, b.onCurve = true := by
    rwa [List.head?_append_of_ne_nil r hr] at hhead
  have hturned := turned_mergedBy ⟨front ++ p :: back, true⟩ front.length
    (controlPlaces (beforePlaces true front back)) (controlPlaces (behindPlaces true front back))
  have hstarts := head?_mergedBy front.length (controlPlaces (beforePlaces true front back))
    (controlPlaces (behindPlaces true front back)) (rfl : closed ⟨front ++ p :: back, true⟩ = true)
  have hnodes := hturned.isRotated.symm.trans (kept_closed p hround hl hm hr hfirst hlast)
  have hclosed := hturned.closed_eq
  generalize mergedBy ⟨front ++ p :: back, true⟩ front.length
    (controlPlaces (beforePlaces true front back))
    (controlPlaces (behindPlaces true front back)) = d at *
  obtain ⟨nodes, closed⟩ := d
  obtain rfl : closed = true := hclosed
  have hjoined := joined_closed hp hround hl hm hr hfirst hlast hnodes
  refine ⟨rfl, ⟨hjoined.lengths hc.lengths, fun h => absurd h.symm Bool.false_ne_true,
    fun h => absurd h.symm Bool.false_ne_true⟩, fun _ => hstarts ?_, fun _ => ⟨hjoined, ?_⟩,
    fun h => absurd h.symm Bool.false_ne_true⟩
  · obtain ⟨b, xs, rfl⟩ := List.exists_cons_of_ne_nil hr
    exact ⟨b, hnodes.mem_iff.mpr (by simp), hfirst b rfl⟩
  · have hleft := isRotated_filter hnodes (·.onCurve)
    rw [List.filter_append, filter_onCurve_of_allOff (allOff_joinedControls hl hm),
      List.append_nil] at hleft
    have hothers : (front ++ back).filter (·.onCurve) ~r r.filter (·.onCurve) := by
      have hsides : front ++ back ~r back ++ front := List.isRotated_append
      have hturn := isRotated_filter hsides (·.onCurve)
      rwa [hround, List.filter_append (m ++ r), List.filter_append m,
        filter_onCurve_of_allOff hm, filter_onCurve_of_allOff hl, List.nil_append,
        List.append_nil] at hturn
    rw [eraseIdx_append_cons]
    exact hleft.trans hothers.symm

theorem mergedAt_open (hp : p.onCurve = true) (hc : IsPlain ⟨front ++ p :: back, false⟩)
    (hcount : 2 ≤ onCurveCount ⟨front ++ p :: back, false⟩) :
    MergedAt ⟨front ++ p :: back, false⟩ front.length p
      (mergedBy ⟨front ++ p :: back, false⟩ front.length
        (controlPlaces (beforePlaces false front back))
        (controlPlaces (behindPlaces false front back))) := by
  obtain ⟨r, l, rfl, hl, hr⟩ := exists_controls_before front
  obtain ⟨m, r', rfl, hm, hr'⟩ := exists_controls_behind back
  have hturned := (turned_mergedBy ⟨r ++ l ++ p :: (m ++ r'), false⟩ (r ++ l).length
    (controlPlaces (beforePlaces false (r ++ l) (m ++ r')))
    (controlPlaces (behindPlaces false (r ++ l) (m ++ r')))).eq_of_open rfl
  rw [hturned, kept_open p hl hm hr hr']
  have hsome : r ≠ [] ∨ r' ≠ [] := by
    by_contra! hnone
    obtain ⟨rfl, rfl⟩ := hnone
    simp [onCurveCount, hp, List.countP_eq_length_filter, filter_onCurve_of_allOff hl,
      filter_onCurve_of_allOff hm] at hcount
  have hjoined := joined_open hp hl hm hr hr' (hc.first rfl) (hc.last rfl) hsome
  refine ⟨rfl, ⟨hjoined.lengths hc.lengths, fun _ => ?_, fun _ => ?_⟩,
    fun h => absurd h Bool.false_ne_true, fun h => absurd h Bool.false_ne_true,
    fun _ => ⟨hjoined, ?_⟩⟩
  · cases r with
    | nil =>
        obtain rfl : l = [] := eq_nil_of_head? hl (hc.first rfl)
        rwa [joinedControls_nil_left]
    | cons f xs => exact hc.first rfl
  · rcases List.eq_nil_or_concat r' with rfl | ⟨ys, b, rfl⟩
    · have hend : r ++ l ++ p :: (m ++ []) = r ++ l ++ [p] ++ m := by simp
      have hlast := hc.last rfl
      rw [hend] at hlast
      obtain rfl : m = [] := eq_nil_of_getLast? hm hlast
      simpa [joinedControls_nil_right] using hr
    · have hend : r ++ l ++ p :: (m ++ ys.concat b) = r ++ l ++ p :: (m ++ ys) ++ [b] := by simp
      have hb : b.onCurve = true := hc.last rfl b (by rw [hend, List.getLast?_concat]; rfl)
      simpa [← List.append_assoc] using hb
  · rw [eraseIdx_append_cons]
    simp [filter_onCurve_of_allOff hl, filter_onCurve_of_allOff hm,
      filter_onCurve_of_allOff (allOff_joinedControls hl hm)]

/-- Merging keeps contours of lines and cubics what they are. -/
theorem mergePoint_keeps_form (hc : c.IsPlain) (i : Nat) :
    ∃ d, Engine.basic.mergePoint c i = pure d ∧ ((∀ p, ¬CanMerge c i p) → d = c) ∧
      ∀ p, CanMerge c i p → MergedAt c i p d ∧
        ∃ before after, Walks c false i (c.next? false i) before ∧
          Walks c true i (c.next? true i) after ∧ d = mergedBy c i before after := by
  refine ⟨mergeAt c i, rfl, fun hnone => ?_, ?_⟩
  · unfold mergeAt
    split
    · rfl
    · next n hn =>
      refine if_pos ?_
      by_contra hmore
      simp only [Bool.or_eq_true, Bool.not_eq_true', decide_eq_true_eq, not_or,
        Bool.not_eq_false] at hmore
      exact hnone n ⟨hn, hmore.1, by omega⟩
  · rintro p ⟨hat, hp, hcount⟩
    obtain ⟨nodes, closed⟩ := c
    obtain ⟨front, back, rfl, rfl⟩ := exists_split_of_getElem? hat
    rw [mergeAt_eq hp hcount]
    refine ⟨?_, _, _, walks_before closed front p back, walks_after closed front p back, rfl⟩
    cases closed with
    | true => exact mergedAt_closed hp hc hcount
    | false => exact mergedAt_open hp hc hcount

/-- Two curves that lead to one another's ends. -/
def lens : Contour :=
  ⟨[.on ⟨0, 0⟩, .off ⟨0, 5⟩, .off ⟨10, 5⟩, .on ⟨10, 0⟩, .off ⟨10, -5⟩, .off ⟨0, -5⟩], true⟩

/-- They are joined to one curve that leads back to its start. -/
theorem mergePoint_of_lens :
    lens.IsPlain ∧ CanMerge lens 3 (.on ⟨10, 0⟩) ∧
      ∃ d, Engine.basic.mergePoint lens 3 = pure d ∧ MergedAt lens 3 (.on ⟨10, 0⟩) d := by
  have hspans : lens.spans =
      [[.on ⟨0, 0⟩, .off ⟨0, 5⟩, .off ⟨10, 5⟩, .on ⟨10, 0⟩],
        [.on ⟨10, 0⟩, .off ⟨10, -5⟩, .off ⟨0, -5⟩, .on ⟨0, 0⟩]] := rfl
  have hplain : lens.IsPlain :=
    ⟨by rw [hspans]; simp, fun h => absurd h (by decide), fun h => absurd h (by decide)⟩
  have hcan : CanMerge lens 3 (.on ⟨10, 0⟩) := ⟨rfl, rfl, by decide⟩
  obtain ⟨d, hd, -, hmerged⟩ := mergePoint_keeps_form hplain 3
  exact ⟨hplain, hcan, d, hd, (hmerged _ hcan).1⟩

end Merging

end Contour

end FontTrace
