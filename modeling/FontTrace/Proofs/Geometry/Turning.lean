import FontTrace.Geometry.Contour
import FontTrace.Proofs.Number.Least
import Mathlib

/-!
# FontTrace.Proofs.Geometry.Turning

Closed contours that are given another of their nodes as the first one.

* `Contour.Turned` — the same contour, as long as it does not matter where it starts;
* `Contour.turned_startingAt` — what putting a node in front does, and
  `Contour.head?_startingAt` — to which node;
* `Contour.Turned.eq_of_head?` — a contour that starts with a node it has only once is
  known by its cycle of nodes;
* `Contour.least_of_measured` — the least of its nodes on the curve, however they are measured.
-/

namespace FontTrace

theorem rotatedTo_eq_rotate {α : Type} {xs : List α} {i : Nat} (h : i ≤ xs.length) :
    rotatedTo xs i = xs.rotate i := (List.rotate_eq_drop_append_take h).symm

namespace Contour

variable {c d : Contour} {n : Node} {i : Nat}

/-! ## cycles of nodes -/

/-- The same contour, as long as it does not matter with which node a closed one starts. -/
structure Turned (c d : Contour) : Prop where
  closed_eq : d.closed = c.closed
  isRotated : c.nodes ~r d.nodes
  eq_of_open : c.closed = false → d = c

namespace Turned

theorem refl (c : Contour) : Turned c c := ⟨rfl, .refl _, fun _ => rfl⟩

theorem symm (h : Turned c d) : Turned d c :=
  ⟨h.closed_eq.symm, h.isRotated.symm, fun hopen =>
    (h.eq_of_open (h.closed_eq.symm.trans hopen)).symm⟩

theorem trans {b : Contour} (h : Turned b c) (h' : Turned c d) : Turned b d := by
  refine ⟨h'.closed_eq.trans h.closed_eq, h.isRotated.trans h'.isRotated, fun hopen => ?_⟩
  rw [h'.eq_of_open (h.closed_eq.trans hopen), h.eq_of_open hopen]

theorem mem_iff (h : Turned c d) : n ∈ d.nodes ↔ n ∈ c.nodes := h.isRotated.perm.mem_iff.symm

theorem count_eq (h : Turned c d) (n : Node) : d.nodes.count n = c.nodes.count n :=
  (h.isRotated.perm.count_eq n).symm

end Turned

/-- Putting another node in front turns a closed contour and leaves an open one as it is. -/
theorem turned_startingAt (c : Contour) (i : Nat) : Turned c (c.startingAt i) := by
  unfold startingAt
  split
  · next h =>
    obtain ⟨hclosed, hi⟩ := Bool.and_eq_true_iff.mp h
    refine ⟨rfl, ⟨i, ?_⟩, fun hopen => absurd (hopen.symm.trans hclosed) Bool.false_ne_true⟩
    exact (rotatedTo_eq_rotate (of_decide_eq_true hi).le).symm
  · exact .refl c

/-- The node that is put in front. -/
theorem nodes_startingAt (hclosed : c.closed = true) (h : c.nodes[i]? = some n) :
    (c.startingAt i).nodes = c.nodes.drop i ++ c.nodes.take i := by
  obtain ⟨hi, -⟩ := List.getElem?_eq_some_iff.mp h
  rw [startingAt, if_pos (Bool.and_eq_true_iff.mpr ⟨hclosed, decide_eq_true hi⟩)]
  rfl

theorem head?_startingAt (hclosed : c.closed = true) (h : c.nodes[i]? = some n) :
    (c.startingAt i).nodes.head? = some n := by
  obtain ⟨hi, rfl⟩ := List.getElem?_eq_some_iff.mp h
  rw [nodes_startingAt hclosed h, List.drop_eq_getElem_cons hi]
  rfl

theorem startingAt_zero (c : Contour) : c.startingAt 0 = c := by
  unfold startingAt
  split
  · simp [rotatedTo]
  · rfl

/-- A contour that starts with a node it has only once is known by its cycle of nodes. -/
theorem Turned.eq_of_head? (h : Turned c d) (hc : c.nodes.head? = some n)
    (hd : d.nodes.head? = some n) (hcount : c.nodes.count n = 1) : c = d := by
  obtain ⟨k, hk, hrotate⟩ := List.isRotated_iff_mod.mp h.isRotated
  have hnodes : c.nodes = d.nodes := by
    rw [List.rotate_eq_drop_append_take hk] at hrotate
    rcases Nat.eq_zero_or_pos k with rfl | hpos
    · simpa using hrotate
    · rcases Nat.lt_or_ge k c.nodes.length with hlt | hge
      -- turned by some of its nodes the contour would have the first one twice
      · have htake : n ∈ c.nodes.take k :=
          List.mem_of_mem_head? (by rw [List.head?_take, if_neg hpos.ne', hc]; rfl)
        have hdrop : n ∈ c.nodes.drop k := by
          rw [← hrotate, List.head?_append, List.head?_drop, List.getElem?_eq_getElem hlt] at hd
          refine List.mem_of_mem_head? ?_
          rw [List.head?_drop, List.getElem?_eq_getElem hlt]
          exact hd
        have htwice : (c.nodes.take k ++ c.nodes.drop k).count n = _ := List.count_append
        rw [List.take_append_drop, hcount] at htwice
        have := List.count_pos_iff.mpr htake
        have := List.count_pos_iff.mpr hdrop
        omega
      · simpa [List.drop_eq_nil_of_le hge, List.take_of_length_le hge] using hrotate
  cases c
  cases d
  exact congr (congrArg _ hnodes) h.closed_eq.symm

/-! ## nodes on the curve -/

/-- The nodes on the curve, measured in some way, each with its place among all nodes. -/
def measured {β : Type} (f : Point → β) (c : Contour) : List (β × Nat) :=
  c.nodes.zipIdx.filterMap fun (n, i) => if n.onCurve then some (f n.pos, i) else none

theorem mem_measured {β : Type} {f : Point → β} {b : β} :
    (b, i) ∈ c.measured f ↔ ∃ p, c.nodes[i]? = some (.on p) ∧ f p = b := by
  constructor
  · intro h
    obtain ⟨⟨⟨p, onCurve⟩, j⟩, hmem, hsome⟩ := List.mem_filterMap.mp h
    cases onCurve with
    | false => cases hsome
    | true =>
        cases hsome
        exact ⟨p, List.mem_zipIdx_iff_getElem?.mp hmem, rfl⟩
  · rintro ⟨p, hp, rfl⟩
    exact List.mem_filterMap.mpr ⟨(.on p, i), List.mem_zipIdx_iff_getElem?.mpr hp, rfl⟩

section Least

variable {β κ : Type} {f : Point → β} {le : β → β → Bool}

/-- Only among no nodes on the curve there is no least one. -/
theorem not_mem_of_measured {p : Point}
    (h : leastBy? (fun a b => le a.1 b.1) (c.measured f) = none) : .on p ∉ c.nodes := by
  intro hp
  obtain ⟨i, hi⟩ := List.getElem?_of_mem hp
  have hmem : (f p, i) ∈ c.measured f := mem_measured.mpr ⟨p, hi, rfl⟩
  rw [leastBy?_eq_none_iff.mp h] at hmem
  exact List.not_mem_nil hmem

/-- What is found is the least of the nodes on the curve, if they are compared by keys. -/
theorem least_of_measured [LinearOrder κ] {key : β → κ} {b : β}
    (hle : ∀ a b, le a b = true ↔ key a ≤ key b)
    (h : leastBy? (fun a b => le a.1 b.1) (c.measured f) = some (b, i)) :
    ∃ p, c.nodes[i]? = some (.on p) ∧ f p = b ∧ ∀ q, .on q ∈ c.nodes → key (f p) ≤ key (f q) := by
  have htotal (x y : β × Nat) : le x.1 y.1 = true ∨ le y.1 x.1 = true := by
    rw [hle, hle]
    exact le_total _ _
  have htrans (x y z : β × Nat) (_ : True) (hxy : le x.1 y.1 = true) (hyz : le y.1 z.1 = true) :
      le x.1 z.1 = true :=
    (hle _ _).mpr (((hle _ _).mp hxy).trans ((hle _ _).mp hyz))
  have hfirst := firstLeast_of_leastBy? htrans htotal (fun _ _ => trivial) h
  obtain ⟨p, hp, rfl⟩ := mem_measured.mp hfirst.mem
  refine ⟨p, hp, rfl, fun q hq => ?_⟩
  obtain ⟨j, hj⟩ := List.getElem?_of_mem hq
  exact (hle _ _).mp (hfirst.le_of_mem htotal (mem_measured.mpr ⟨q, hj, rfl⟩))

end Least

end Contour

end FontTrace
