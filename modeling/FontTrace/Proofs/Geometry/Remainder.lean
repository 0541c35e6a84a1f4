import FontTrace.Proofs.Geometry.Loops

/-!
# FontTrace.Proofs.Geometry.Remainder

What is left of a contour when its loops are cut.  Whether a contour is straight as a whole is
asked before the cuts, so what they leave may be straight and stays until the pass is made again;
from then on nothing changes.

* `removeArtifacts_of_loopless` — the pass over contours without loops only takes contours out;
* `removeArtifacts_again` — that is all it does when it is made again;
* `cutLoops_of_spread` — where nodes on the curve keep apart nothing is cut;
* `removeArtifacts_twice_iff` — when the second pass has nothing to do.
-/

namespace FontTrace

/-- No two nodes on the curve are closer than `reach` on both axes, neighbours aside: they would
bound a loop if everything were straight. -/
def Spread (reach : Float) (nodes : List Node) : Prop :=
  ∀ p ∈ curvePoints nodes, ∀ q ∈ curvePoints nodes, isLoop (fun _ => true) reach nodes p q = false

instance (reach : Float) (nodes : List Node) : Decidable (Spread reach nodes) :=
  inferInstanceAs (Decidable (∀ p ∈ _, ∀ q ∈ _, _ = _))

variable {straight : List Node → Bool} {reach : Float} {nodes : List Node} {o : Outline}

theorem findLoop?_of_spread (h : Spread reach nodes) : findLoop? straight reach nodes = none := by
  rw [findLoop?, List.findSome?_eq_none_iff]
  intro p hp
  rw [Option.map_eq_none_iff, List.find?_eq_none]
  intro q hq hloop
  obtain ⟨hnear, hgap, hsize, -⟩ := isLoop_iff.mp hloop
  have hbound : isLoop (fun _ => true) reach nodes p q = true :=
    isLoop_iff.mpr ⟨hnear, hgap, hsize, rfl⟩
  exact absurd (hbound.symm.trans (h p hp q hq)) (by decide)

theorem cutLoops_of_spread (h : Spread reach nodes) : cutLoops straight reach nodes = nodes :=
  cutLoops_of_none (findLoop?_of_spread h)

/-! ## an outline -/

/-- Contours without loops are taken out or stay as they are. -/
theorem removeArtifacts_of_loopless (h : ∀ c ∈ o, c.closed = true → straight c.nodes = false →
    findLoop? straight reach c.nodes = none) :
    removeArtifacts straight reach o = o.filter (survives straight) :=
  filterMap_passed_of_fixed fun c hc hclosed hbent => cutLoops_of_none (h c hc hclosed hbent)

theorem findLoop?_removeArtifacts {d : Contour} (hd : d ∈ removeArtifacts straight reach o)
    (hclosed : d.closed = true) : findLoop? straight reach d.nodes = none := by
  obtain ⟨c, -, -, -, hnodes⟩ := exists_of_mem_passed hd hclosed
  rw [hnodes]
  exact (unloopings_cutLoops straight reach c.nodes).2

/-- The pass made again takes out what has become straight, and finds no loop. -/
theorem removeArtifacts_again (straight : List Node → Bool) (reach : Float) (o : Outline) :
    removeArtifacts straight reach (removeArtifacts straight reach o) =
      (removeArtifacts straight reach o).filter (survives straight) :=
  removeArtifacts_of_loopless fun _ hd hclosed _ => findLoop?_removeArtifacts hd hclosed

theorem removeArtifacts_settles (straight : List Node → Bool) (reach : Float) (o : Outline) :
    let pass := removeArtifacts straight reach
    pass (pass (pass o)) = pass (pass o) := by
  intro pass
  have hagain : pass (pass o) = (pass o).filter (survives straight) :=
    removeArtifacts_again straight reach o
  calc pass (pass (pass o))
      = (pass (pass o)).filter (survives straight) := removeArtifacts_again straight reach (pass o)
    _ = pass (pass o) := by rw [hagain, List.filter_filter]; simp only [Bool.and_self]

theorem survives_iff {c : Contour} :
    survives straight c = true ↔ (c.closed = true → straight c.nodes = false) := by
  rw [survives, Bool.not_eq_true', Bool.and_eq_false_imp]

/-- What is left of a closed contour is what its loops left of it, if it was bent. -/
theorem forall_removeArtifacts_iff :
    (∀ d ∈ removeArtifacts straight reach o, d.closed = true → straight d.nodes = false) ↔
      ∀ c ∈ o, c.closed = true → straight c.nodes = false →
        straight (cutLoops straight reach c.nodes) = false := by
  constructor
  · intro h c hc hclosed hbent
    refine h { c with nodes := cutLoops straight reach c.nodes } ?_ hclosed
    exact List.mem_filterMap.mpr ⟨c, hc, by simp [hclosed, hbent]⟩
  · intro h d hd hclosed
    obtain ⟨c, hc, hbefore, hbent, hnodes⟩ := exists_of_mem_passed hd hclosed
    rw [hnodes]
    exact h c hc hbefore hbent

/-- The second pass has nothing to do if and only if the first one left no closed contour that is
straight as a whole, that is, if no contour is straight without its loops that was bent with them.
That is so where the nodes on the curve keep apart.  In any case a second pass is enough. -/
theorem removeArtifacts_twice_iff (straight : List Node → Bool) (reach : Float) (o : Outline) :
    let pass := removeArtifacts straight reach
    (pass (pass o) = pass o ↔ ∀ d ∈ pass o, d.closed = true → straight d.nodes = false) ∧
    ((∀ d ∈ pass o, d.closed = true → straight d.nodes = false) ↔
      ∀ c ∈ o, c.closed = true → straight c.nodes = false →
        straight (cutLoops straight reach c.nodes) = false) ∧
    ((∀ c ∈ o, c.closed = true → Spread reach c.nodes) →
      pass (pass o) = pass o ∧ ∀ d ∈ pass o, d.closed = true → straight d.nodes = false) ∧
    pass (pass o) = (pass o).filter (survives straight) ∧
    (∀ d ∈ pass (pass o), d.closed = true → straight d.nodes = false) ∧
    pass (pass (pass o)) = pass (pass o) := by
  intro pass
  have hagain : pass (pass o) = (pass o).filter (survives straight) :=
    removeArtifacts_again straight reach o
  have hfixed : pass (pass o) = pass o ↔
      ∀ d ∈ pass o, d.closed = true → straight d.nodes = false := by
    rw [hagain, List.filter_eq_self]
    exact forall₂_congr fun d _ => survives_iff
  refine ⟨hfixed, forall_removeArtifacts_iff, fun hspread => ?_, hagain, fun d hd => ?_,
    removeArtifacts_settles straight reach o⟩
  · have hbent : ∀ d ∈ pass o, d.closed = true → straight d.nodes = false := by
      refine forall_removeArtifacts_iff.mpr fun c hc hclosed hbent => ?_
      rw [cutLoops_of_spread (hspread c hc hclosed), hbent]
    exact ⟨hfixed.mpr hbent, hbent⟩
  · rw [hagain] at hd
    exact survives_iff.mp (List.mem_filter.mp hd).2

/-- A square has its corners apart; with a spike on one side, the cut leaves it bent. -/
theorem removeArtifacts_twice_square :
    let pass := removeArtifacts (isCollinear 0.01) 0.1
    let square := Contour.polygon [⟨0, 0⟩, ⟨100, 0⟩, ⟨100, 100⟩, ⟨0, 100⟩]
    let spiked := Contour.polygon
      [⟨0, 0⟩, ⟨50, 0⟩, ⟨80, 0⟩, ⟨50, 0⟩, ⟨100, 0⟩, ⟨100, 100⟩, ⟨0, 100⟩]
    (Spread 0.1 square.nodes ∧ pass (pass [square]) = pass [square]) ∧
    pass [spiked] = [.polygon [⟨0, 0⟩, ⟨50, 0⟩, ⟨100, 0⟩, ⟨100, 100⟩, ⟨0, 100⟩]] ∧
    pass (pass [spiked]) = pass [spiked] := by
  intro pass square spiked
  have hspread : Spread 0.1 square.nodes := by decide +kernel
  have hcut : pass [spiked] = [.polygon [⟨0, 0⟩, ⟨50, 0⟩, ⟨100, 0⟩, ⟨100, 100⟩, ⟨0, 100⟩]] := by
    decide +kernel
  refine ⟨⟨hspread, ?_⟩, hcut, ?_⟩
  · obtain ⟨-, -, happart, -⟩ := removeArtifacts_twice_iff (isCollinear 0.01) 0.1 [square]
    refine (happart fun c hc _ => ?_).1
    rw [List.mem_singleton.mp hc]
    exact hspread
  · refine (removeArtifacts_twice_iff (isCollinear 0.01) 0.1 [spiked]).1.mpr fun d hd _ => ?_
    rw [show removeArtifacts (isCollinear 0.01) 0.1 [spiked] = _ from hcut] at hd
    rw [List.mem_singleton.mp hd]
    decide +kernel

/-- Two spikes from one corner and nothing else: without the first one the other is left, there and
back, which is straight as a whole and goes with the second pass only. -/
theorem removeArtifacts_twice_spikes :
    let pass := removeArtifacts (isCollinear 0.01) 0.1
    let o := [Contour.polygon [⟨0, 0⟩, ⟨100, 0⟩, ⟨0, 0⟩, ⟨0, 100⟩]]
    pass o = [.polygon [⟨0, 0⟩, ⟨0, 100⟩]] ∧
    isCollinear 0.01 (Contour.polygon [⟨0, 0⟩, ⟨0, 100⟩]).nodes = true ∧ pass (pass o) = [] ∧
    pass (pass o) ≠ pass o := by
  intro pass o
  have hfirst : pass o = [.polygon [⟨0, 0⟩, ⟨0, 100⟩]] := by decide +kernel
  have hsecond : pass [.polygon [⟨0, 0⟩, ⟨0, 100⟩]] = [] := by decide +kernel
  rw [hfirst, hsecond]
  exact ⟨rfl, by decide +kernel, rfl, by decide⟩

end FontTrace
