import FontTrace.Geometry.Pruning
import FontTrace.Proofs.Geometry.Reversal
import FontTrace.Proofs.Number.Comparison

/-!
# FontTrace.Proofs.Geometry.Closing

When a closed contour ends where it starts.  Closing a contour drops one node at the
end that repeats the first one, so a second one stays.

* `endsAtStart_close` — a contour ends at its start behind closing if and only if its
  last two nodes both repeated the first one;
* `toContour_endsAtStart_iff` — of the cycles, those are affected whose last join is
  drawn as a line behind a join that was back at the start already;
* `closed_contours_endAtStart_iff` — all paths that are read, and all contours that are
  closed because their ends meet.
-/

namespace FontTrace

/-! ## positions -/

section Positions

/-- What equals something has numbers for coordinates, so it equals itself. -/
theorem Point.same_self_of_same {p q : Point} (h : p.same q = true) : q.same q = true := by
  rw [same, Bool.and_eq_true] at h ⊢
  exact ⟨beq_self (isNaN_eq_false_of_beq h.1), beq_self (isNaN_eq_false_of_beq h.2)⟩

end Positions

/-! ## contours -/

/-- The last of several nodes repeats the first one: both lie on the curve, at the same
position. -/
def EndsAtStart (nodes : List Node) : Prop :=
  ∃ (first : Node) (middle : List Node) (last : Node), nodes = first :: (middle ++ [last]) ∧
    first.onCurve = true ∧ last.onCurve = true ∧ last.pos.same first.pos = true

/-- The last two of several nodes both repeat the first one. -/
def EndsTwiceAtStart (nodes : List Node) : Prop :=
  ∃ (first : Node) (middle : List Node) (before last : Node),
    nodes = first :: (middle ++ [before, last]) ∧ first.onCurve = true ∧
    (before.onCurve = true ∧ before.pos.same first.pos = true) ∧
    (last.onCurve = true ∧ last.pos.same first.pos = true)

section Contours

variable {nodes body : List Node}

theorem repeatsStart_append_singleton (first last : Node) (middle : List Node) :
    Contour.repeatsStart (first :: (middle ++ [last])) =
      (last.onCurve && first.onCurve && last.pos.same first.pos) := by
  cases middle with
  | nil => rfl
  | cons second middle =>
      rw [List.cons_append, Contour.repeatsStart, ← List.cons_append, List.getLastD_concat]

theorem repeatsStart_iff : Contour.repeatsStart nodes = true ↔ EndsAtStart nodes := by
  constructor
  · intro h
    cases nodes with
    | nil => cases h
    | cons first rest =>
        rcases List.eq_nil_or_concat rest with rfl | ⟨middle, last, hrest⟩
        · cases h
        · rw [List.concat_eq_append] at hrest
          rw [hrest, repeatsStart_append_singleton, Bool.and_eq_true, Bool.and_eq_true] at h
          exact ⟨first, middle, last, by rw [hrest], h.1.2, h.1.1, h.2⟩
  · rintro ⟨first, middle, last, rfl, hfirst, hlast, hsame⟩
    rw [repeatsStart_append_singleton, hlast, hfirst, hsame]
    rfl

/-- Only one node that repeats the first one is dropped. -/
theorem endsAtStart_close {c : Contour} : EndsAtStart c.close.nodes ↔ EndsTwiceAtStart c.nodes := by
  constructor
  · intro h
    by_cases hrepeats : Contour.repeatsStart c.nodes = true
    · obtain ⟨first, middle, last, hnodes, hfirst, hlast⟩ := repeatsStart_iff.mp hrepeats
      have hclose : c.close.nodes = first :: middle := by
        rw [Contour.close, if_pos hrepeats, hnodes, ← List.cons_append, List.dropLast_concat]
      rw [hclose] at h
      obtain ⟨first', middle', before, hnodes', -, hbefore⟩ := h
      obtain ⟨rfl, rfl⟩ := List.cons.inj hnodes'
      exact ⟨first, middle', before, last, by simp [hnodes], hfirst, hbefore, hlast⟩
    · have hclose : c.close.nodes = c.nodes := if_neg hrepeats
      rw [hclose] at h
      exact absurd (repeatsStart_iff.mpr h) hrepeats
  · rintro ⟨first, middle, before, last, hnodes, hfirst, hbefore, hlast⟩
    have hsplit : c.nodes = first :: (middle ++ [before]) ++ [last] := by simp [hnodes]
    have hends : EndsAtStart c.nodes :=
      ⟨first, middle ++ [before], last, hsplit, hfirst, hlast⟩
    have hclose : c.close.nodes = first :: (middle ++ [before]) := by
      rw [Contour.close, if_pos (repeatsStart_iff.mpr hends), hsplit, List.dropLast_concat]
    rw [hclose]
    exact ⟨first, middle, before, rfl, hfirst, hbefore⟩

/-- Behind a line back to the start, the node before it decides. -/
theorem endsTwiceAtStart_line {s : Point} :
    EndsTwiceAtStart (.on s :: (body ++ [.on s])) ↔
      ∃ middle before, body = middle ++ [before] ∧ before.onCurve = true ∧
        before.pos.same s = true := by
  constructor
  · rintro ⟨first, middle, before, last, hnodes, -, hbefore, -⟩
    obtain ⟨rfl, hrest⟩ := List.cons.inj hnodes
    have hsplit : middle ++ [before, last] = middle ++ [before] ++ [last] := by simp
    rw [hsplit] at hrest
    exact ⟨middle, before, (List.append_inj' hrest rfl).1, hbefore⟩
  · rintro ⟨middle, before, rfl, honCurve, hsame⟩
    exact ⟨.on s, middle, before, .on s, by simp, rfl, ⟨honCurve, hsame⟩, rfl,
      Point.same_self_of_same hsame⟩

/-- A curve has a control point before its end. -/
theorem not_endsTwiceAtStart_curve {s c1 c2 : Point} :
    ¬EndsTwiceAtStart (.on s :: (body ++ [.off c1, .off c2, .on s])) := by
  rintro ⟨first, middle, before, last, hnodes, -, ⟨hbefore, -⟩, -⟩
  have hsplit : body ++ [.off c1, .off c2, .on s] = body ++ [.off c1] ++ [.off c2, .on s] := by simp
  rw [hsplit] at hnodes
  have hends := (List.append_inj' (List.cons.inj hnodes).2 rfl).2
  obtain ⟨rfl, -⟩ := List.cons.inj hends
  cases hbefore

end Contours

/-! ## joins -/

namespace Path

section Joins

variable {threshold : Option Float} {s last : Point} {c : Contour} {js ks : List Join}

/-- Where joins have come to that begin at a point. -/
def stopOf (last : Point) (js : List Join) : Point := (js.filterMap (·.stop)).getLastD last

/-- A contour continued by one join. -/
def drawn (threshold : Option Float) (last : Point) (c : Contour) (c1 c2 stop : Point) : Contour :=
  if isStraight threshold last c1 c2 stop then c.lineTo stop else c.curveTo c1 c2 stop

/-- Joins behind others that do not lead back to the start. -/
theorem extend_append (h : ∀ j ∈ js, j.stop.isSome = true) :
    extend threshold s c last (js ++ ks) =
      extend threshold s (extend threshold s c last js) (stopOf last js) ks := by
  induction js generalizing c last with
  | nil => rfl
  | cons j js ih =>
      obtain ⟨z, hz⟩ := Option.isSome_iff_exists.mp (h j List.mem_cons_self)
      have hstop : stopOf last (j :: js) = stopOf z js := by
        rw [stopOf, List.filterMap_cons_some hz, List.getLastD_cons, stopOf]
      rw [hstop, List.cons_append, extend, extend]
      simp only [hz, Option.isNone_some, Bool.false_eq_true, if_false, Option.getD_some]
      exact ih fun j' hj' => h j' (List.mem_cons_of_mem j hj')

theorem extend_singleton_of_some {j : Join} {z : Point} (hj : j.stop = some z) :
    extend threshold s c last [j] = drawn threshold last c j.c1 j.c2 z := by
  simp [extend, drawn, hj]

theorem extend_singleton_of_none {j : Join} (hj : j.stop = none) :
    extend threshold s c last [j] = (drawn threshold last c j.c1 j.c2 s).close := by
  simp [extend, drawn, hj]

/-- A join adds nodes, the last of which is its end. -/
theorem exists_nodes_drawn (threshold : Option Float) (last : Point) (c : Contour)
    (c1 c2 stop : Point) : ∃ controls, drawn threshold last c c1 c2 stop =
      ⟨c.nodes ++ (controls ++ [.on stop]), c.closed⟩ := by
  unfold drawn
  split
  · exact ⟨[], rfl⟩
  · exact ⟨[.off c1, .off c2], rfl⟩

/-- A join back to the start repeats it twice if it is a line and the node before it is
at the start. -/
theorem endsTwiceAtStart_drawn {body : List Node} {c1 c2 : Point} :
    EndsTwiceAtStart (drawn threshold last ⟨.on s :: body, false⟩ c1 c2 s).nodes ↔
      isStraight threshold last c1 c2 s = true ∧ ∃ middle before, body = middle ++ [before] ∧
        before.onCurve = true ∧ before.pos.same s = true := by
  unfold drawn
  split
  · next hstraight =>
    rw [Contour.lineTo, List.cons_append, endsTwiceAtStart_line]
    simp [hstraight]
  · next hcurved =>
    rw [Contour.curveTo, List.cons_append]
    simp only [hcurved, not_endsTwiceAtStart_curve, Bool.false_eq_true, false_and]

/-- Joins that do not lead back to the start add nodes and close nothing. -/
theorem exists_nodes_extend (threshold : Option Float) (s last : Point) (c : Contour)
    (h : ∀ j ∈ js, j.stop.isSome = true) :
    ∃ body, extend threshold s c last js = ⟨c.nodes ++ body, c.closed⟩ := by
  induction js generalizing c last with
  | nil => exact ⟨[], by simp [extend]⟩
  | cons j js ih =>
      obtain ⟨z, hz⟩ := Option.isSome_iff_exists.mp (h j List.mem_cons_self)
      obtain ⟨controls, hdrawn⟩ := exists_nodes_drawn threshold last c j.c1 j.c2 z
      obtain ⟨body, hbody⟩ := ih z (drawn threshold last c j.c1 j.c2 z)
        fun j' hj' => h j' (List.mem_cons_of_mem j hj')
      refine ⟨controls ++ [.on z] ++ body, ?_⟩
      have hextend : extend threshold s c last (j :: js) =
          extend threshold s (drawn threshold last c j.c1 j.c2 z) z js := by
        simp [extend, drawn, hz]
      rw [hextend, hbody, hdrawn]
      simp

end Joins

/-! ## paths -/

/-- The last join leads back to the start and is drawn as a line, and the join before it
was back at the start already. -/
def ClosesInPlace (threshold : Option Float) (p : Path) : Prop :=
  ∃ (js : List Join) (j k : Join) (z : Point), p.joins = js ++ [j, k] ∧ j.stop = some z ∧
    k.stop = none ∧ z.same p.start = true ∧ isStraight threshold z k.c1 k.c2 p.start = true

section Paths

variable {p : Path} {threshold : Option Float}

theorem ClosesLast.isSome_of_concat {js : List Join} {k : Join} (h : p.ClosesLast)
    (hjoins : p.joins = js ++ [k]) : ∀ j ∈ js, j.stop.isSome = true := by
  intro j hj
  refine h j.stop ?_
  rw [stops, hjoins, List.map_append, List.map_singleton, List.dropLast_concat]
  exact List.mem_map_of_mem hj

/-- The nodes before the last join, and the place where that join starts. -/
theorem toContour_of_concat (threshold : Option Float) {js : List Join} {k : Join}
    (h : p.ClosesLast) (hjoins : p.joins = js ++ [k]) :
    ∃ body, p.toContour threshold =
        extend threshold p.start ⟨.on p.start :: body, false⟩ (stopOf p.start js) [k] ∧
      (js = [] ∧ body = [] ∨ ∃ ls j z before, js = ls ++ [j] ∧ j.stop = some z ∧
        stopOf p.start js = z ∧ body = before ++ [.on z]) := by
  have hopen := h.isSome_of_concat hjoins
  rw [toContour, hjoins, extend_append hopen]
  rcases List.eq_nil_or_concat js with rfl | ⟨ls, j, hjs⟩
  · exact ⟨[], rfl, .inl ⟨rfl, rfl⟩⟩
  · rw [List.concat_eq_append] at hjs
    subst hjs
    obtain ⟨z, hz⟩ := Option.isSome_iff_exists.mp (hopen j (by simp))
    have hls : ∀ j' ∈ ls, j'.stop.isSome = true := fun j' hj' => hopen j' (by simp [hj'])
    have hstop : stopOf p.start (ls ++ [j]) = z := by simp [stopOf, List.filterMap_append, hz]
    obtain ⟨body, hbody⟩ := exists_nodes_extend threshold p.start p.start
      (Contour.start p.start) hls
    obtain ⟨controls, hdrawn⟩ := exists_nodes_drawn threshold (stopOf p.start ls)
      (extend threshold p.start (Contour.start p.start) p.start ls) j.c1 j.c2 z
    refine ⟨body ++ controls ++ [.on z], ?_, .inr ⟨ls, j, z, body ++ controls, rfl, hz, hstop, rfl⟩⟩
    rw [extend_append hls, extend_singleton_of_some hz, hdrawn, hbody]
    simp [Contour.start]

theorem closesInPlace_of_concat {js : List Join} {k : Join} (hjoins : p.joins = js ++ [k]) :
    p.ClosesInPlace threshold ↔ k.stop = none ∧ ∃ ls j z, js = ls ++ [j] ∧ j.stop = some z ∧
      z.same p.start = true ∧ isStraight threshold z k.c1 k.c2 p.start = true := by
  constructor
  · rintro ⟨ls, j, k', z, hjoins', hj, hk, hrest⟩
    have hsplit : ls ++ [j, k'] = ls ++ [j] ++ [k'] := by simp
    rw [hjoins, hsplit] at hjoins'
    obtain ⟨rfl, hlast⟩ := List.append_inj' hjoins' rfl
    obtain rfl := List.singleton_inj.mp hlast
    exact ⟨hk, ls, j, z, rfl, hj, hrest⟩
  · rintro ⟨hk, ls, j, z, rfl, hj, hrest⟩
    exact ⟨ls, j, k, z, by simp [hjoins], hj, hk, hrest⟩

/-- A path is drawn as a closed contour that ends at its start if and only if it closes
in place. -/
theorem toContour_endsAtStart_iff (h : p.ClosesLast) (threshold : Option Float) :
    (p.toContour threshold).closed = true ∧ EndsAtStart (p.toContour threshold).nodes ↔
      p.ClosesInPlace threshold := by
  rcases List.eq_nil_or_concat p.joins with hnil | ⟨js, k, hjoins⟩
  · constructor
    · rintro ⟨hclosed, -⟩
      rw [toContour, hnil] at hclosed
      cases hclosed
    · rintro ⟨js, j, k, z, hjoins, -⟩
      simp [hnil] at hjoins
  rw [List.concat_eq_append] at hjoins
  obtain ⟨body, hcontour, hbody⟩ := toContour_of_concat threshold h hjoins
  rw [closesInPlace_of_concat hjoins, hcontour]
  cases hk : k.stop with
  | some z =>
      obtain ⟨controls, hdrawn⟩ := exists_nodes_drawn threshold (stopOf p.start js)
        ⟨.on p.start :: body, false⟩ k.c1 k.c2 z
      rw [extend_singleton_of_some hk, hdrawn]
      simp
  | none =>
      rw [extend_singleton_of_none hk, endsAtStart_close, endsTwiceAtStart_drawn]
      simp only [Contour.closed_close, true_and]
      rcases hbody with ⟨rfl, rfl⟩ | ⟨ls, j, z, before, rfl, hj, hstop, rfl⟩
      · simp
      · rw [hstop]
        constructor
        · rintro ⟨hstraight, middle, node, hnodes, -, hsame⟩
          obtain rfl := List.singleton_inj.mp (List.append_inj' hnodes rfl).2
          exact ⟨ls, j, z, rfl, hj, hsame, hstraight⟩
        · rintro ⟨ls', j', z', hjs, hj', hsame, hstraight⟩
          obtain rfl := List.singleton_inj.mp (List.append_inj' hjs rfl).2
          obtain rfl := Option.some.inj (hj.symm.trans hj')
          exact ⟨hstraight, before, .on z, rfl, rfl, hsame⟩

end Paths

end Path

/-! ## paths that are read, and contours that are closed -/

theorem getElem?_closeMeeting {o : Outline} {i : Nat} {c d : Contour} (hc : o[i]? = some c)
    (hd : (closeMeeting o)[i]? = some d) (hopen : c.closed = false) (hclosed : d.closed = true) :
    d = c.close := by
  rw [closeMeeting, List.getElem?_map, hc, Option.map_some] at hd
  obtain rfl := Option.some.inj hd
  split at hclosed
  · next hmeet => exact if_pos hmeet
  · rw [hopen] at hclosed
    cases hclosed

/-- A cycle that is read is drawn as a contour that ends at its start if and only if it
closes in place, and a contour that is closed because its ends meet ends at its start
if and only if it did so twice. -/
theorem closed_contours_endAtStart_iff (text : String) (threshold : Option Float) (o : Outline) :
    (∀ p, Operand.path text = .ok p →
      ((p.toContour threshold).closed = true ∧ EndsAtStart (p.toContour threshold).nodes ↔
        p.ClosesInPlace threshold)) ∧
    ∀ (i : Nat) (c d : Contour), o[i]? = some c → (closeMeeting o)[i]? = some d → c.closed = false →
      d.closed = true → (EndsAtStart d.nodes ↔ EndsTwiceAtStart c.nodes) := by
  constructor
  · intro p hread
    exact Path.toContour_endsAtStart_iff (Operand.closesLast_of_path hread) threshold
  · intro i c d hc hd hopen hclosed
    rw [getElem?_closeMeeting hc hd hopen hclosed]
    exact endsAtStart_close

/-- A triangle that is drawn, or whose ends meet, is closed once, and its last point is its
third corner. -/
theorem closed_contours_endAtStart_of_triangle :
    let text := "(0,0)..controls (3,0) and (7,0) ..(10,0)" ++
      "..controls (10,3) and (10,7) ..(10,10)..controls (7,7) and (3,3) ..cycle"
    let c : Contour := ⟨[.on ⟨0, 0⟩, .on ⟨10, 0⟩, .on ⟨10, 10⟩, .on ⟨0, 0⟩], false⟩
    (∃ p, Operand.path text = .ok p ∧ (p.toContour (some 0.01)).closed = true ∧
      ¬EndsAtStart (p.toContour (some 0.01)).nodes) ∧
    ∃ d, (closeMeeting [c])[0]? = some d ∧ d.closed = true ∧ ¬EndsAtStart d.nodes := by
  intro text c
  let p : Path := ⟨⟨0, 0⟩, [⟨⟨3, 0⟩, ⟨7, 0⟩, some ⟨10, 0⟩⟩, ⟨⟨10, 3⟩, ⟨10, 7⟩, some ⟨10, 10⟩⟩,
    ⟨⟨7, 7⟩, ⟨3, 3⟩, none⟩]⟩
  have hpath : Operand.path text = .ok p := path_of_path? (by decide +kernel)
  have hclosed : (p.toContour (some 0.01)).closed = true := by decide +kernel
  obtain ⟨hdrawn, hmeeting⟩ := closed_contours_endAtStart_iff text (some 0.01) [c]
  refine ⟨⟨p, hpath, hclosed, fun hends => ?_⟩, c.close, by decide +kernel, rfl, fun hends => ?_⟩
  · obtain ⟨js, j, k, z, hjoins, hj, -, hsame, -⟩ := (hdrawn p hpath).mp ⟨hclosed, hends⟩
    -- The join before the last one ends in the third corner.
    have hcorner : (p.stops.reverse)[1]? = some (some z) := by
      rw [Path.stops, hjoins]
      simp [hj]
    obtain rfl : (⟨10, 10⟩ : Point) = z := by simpa [p, Path.stops] using hcorner
    exact absurd hsame (by decide +kernel)
  · obtain ⟨first, middle, before, last, hnodes, -, ⟨-, hsame⟩, -⟩ :=
      (hmeeting 0 c c.close rfl (by decide +kernel) rfl rfl).mp hends
    have hcorner : c.nodes.reverse[1]? = some before := by rw [hnodes]; simp
    have hfirst : c.nodes.head? = some first := by rw [hnodes]; rfl
    obtain rfl : Node.on ⟨10, 10⟩ = before := by simpa [c] using hcorner
    obtain rfl : Node.on ⟨0, 0⟩ = first := by simpa [c] using hfirst
    exact absurd hsame (by decide +kernel)

/-- A triangle with its third side drawn, and then a join in place, keeps its start at the
end, and so does an open contour that came back to its start twice. -/
theorem closed_triangle_endsAtStart :
    let text := "(0,0)..controls (3,0) and (7,0) ..(10,0)..controls (10,3) and (10,7) ..(10,10)" ++
      "..controls (7,7) and (3,3) ..(0,0)..controls (0,0) and (0,0) ..cycle"
    (∃ p, Operand.path text = .ok p ∧ (p.toContour (some 0.01)).closed = true ∧
      EndsAtStart (p.toContour (some 0.01)).nodes) ∧
    ∃ nodes, closeMeeting [⟨[.on ⟨0, 0⟩, .on ⟨10, 0⟩, .on ⟨0, 0⟩, .on ⟨0, 0⟩], false⟩] =
      [⟨nodes, true⟩] ∧ EndsAtStart nodes := by
  intro text
  have hread : ((Operand.path? text.toList).map (·.toContour (some 0.01))) =
      some ⟨[.on ⟨0, 0⟩, .on ⟨10, 0⟩, .on ⟨10, 10⟩, .on ⟨0, 0⟩], true⟩ := by decide +kernel
  obtain ⟨p, hp, hcontour⟩ := Option.map_eq_some_iff.mp hread
  constructor
  · refine ⟨p, path_of_path? hp, ?_⟩
    rw [hcontour]
    exact ⟨rfl, repeatsStart_iff.mp (by decide +kernel)⟩
  · exact ⟨[.on ⟨0, 0⟩, .on ⟨10, 0⟩, .on ⟨0, 0⟩], by decide +kernel,
      repeatsStart_iff.mp (by decide +kernel)⟩

end FontTrace
