import FontTrace.Proofs.Geometry.Closing

/-!
# FontTrace.Proofs.Geometry.Backwards

The contour of a path that is traversed backwards.  A path and its contour are reversed in
different ways: a path moves the ends of its joins along, and an open one starts elsewhere, while
a contour turns its nodes round.  Both draw the same.

* `toContour_none` — the contour of a path without lines, a cycle without its start at the end;
* `curves_reversed` — that contour backwards, by what a chain of joins draws
  (`joinNodes_reversedJoins`);
* `WellFormed.reversed` — a path that closes with its last join, if at all, and has finite
  coordinates only, is such a path backwards;
* `Operand.wellFormed_of_path` — every path that is read from a text is such a path;
* `toContour_reversed_of_read` — the law for all of them.
-/

namespace FontTrace

/-- Both coordinates are finite. -/
def Point.IsFinite (z : Point) : Prop := z.x.isFinite = true ∧ z.y.isFinite = true

theorem Point.IsFinite.same_self {z : Point} (h : z.IsFinite) : z.same z = true := by
  rw [same, beq_self (isNaN_eq_false_of_isFinite h.1), beq_self (isNaN_eq_false_of_isFinite h.2)]
  rfl

theorem Contour.reversed_perm (c : Contour) : c.reversed.nodes.Perm c.nodes := by
  obtain ⟨nodes, closed⟩ := c
  cases closed with
  | false => exact List.reverse_perm nodes
  | true =>
      cases nodes with
      | nil => exact .refl []
      | cons first rest => exact (List.reverse_perm rest).cons first

namespace Path

/-! ## nodes of joins -/

/-- The nodes a join draws as a curve; a join back to the start has no end of its own. -/
def curveNodes (j : Join) : List Node := .off j.c1 :: .off j.c2 :: (j.stop.map .on).toList

/-- The nodes that joins draw as curves. -/
def joinNodes (js : List Join) : List Node := js.flatMap curveNodes

section Joins

variable {js : List Join} {stops : List (Option Point)}

@[simp] theorem joinNodes_nil : joinNodes [] = [] := rfl

@[simp] theorem joinNodes_cons (j : Join) (js : List Join) :
    joinNodes (j :: js) = curveNodes j ++ joinNodes js := List.flatMap_cons

@[simp] theorem joinNodes_append (js ks : List Join) :
    joinNodes (js ++ ks) = joinNodes js ++ joinNodes ks := List.flatMap_append

/-- The first of several joins comes last. -/
theorem reversedJoins_cons (h : stops.length = js.length) (j : Join) (e : Option Point) :
    reversedJoins (j :: js) (stops ++ [e]) = reversedJoins js stops ++ [⟨j.c2, j.c1, e⟩] := by
  rw [reversedJoins, List.reverse_cons, List.zipWith_append (by simp [h])]
  rfl

/-- The last of several joins comes first. -/
theorem reversedJoins_concat (js : List Join) (k : Join) (e : Option Point) :
    reversedJoins (js ++ [k]) (e :: stops) = ⟨k.c2, k.c1, e⟩ :: reversedJoins js stops := by
  rw [reversedJoins, List.reverse_append, List.reverse_singleton]
  rfl

/-- A chain of joins from somewhere to `w`, and the same chain from `w` to an end `e`. -/
theorem joinNodes_reversedJoins {ws : List Point} {w : Point} (e : Option Point)
    (h : js.map (·.stop) = (ws ++ [w]).map some) :
    .on w :: joinNodes (reversedJoins js (ws.reverse.map some ++ [e])) =
      (joinNodes js).reverse ++ (e.map .on).toList := by
  -- The end of the first join is where the last one behind it leads to in the other order.
  induction ws generalizing js e with
  | nil =>
      obtain ⟨j, rfl, hj⟩ := List.map_eq_singleton_iff.mp h
      have hback : reversedJoins [j] [e] = [⟨j.c2, j.c1, e⟩] := rfl
      simp [hback, curveNodes, hj]
  | cons v ws ih =>
      rw [List.cons_append, List.map_cons] at h
      obtain ⟨j, js, rfl, hj, hjs⟩ := List.map_eq_cons_iff.mp h
      have hlength : (ws.reverse.map some ++ [some v]).length = js.length := by
        simpa using (congrArg List.length hjs).symm
      have hstops : (v :: ws).reverse.map some = ws.reverse.map some ++ [some v] := by simp
      rw [hstops, reversedJoins_cons hlength, joinNodes_append, ← List.cons_append,
        ih (some v) hjs]
      simp [curveNodes, hj]

end Joins

/-! ## contours without lines -/

/-- The contour that draws every join of a path as a curve. -/
def curves (p : Path) : Contour := ⟨.on p.start :: joinNodes p.joins, p.isCyclic⟩

section Curves

variable {p : Path}

theorem points_eq (p : Path) : p.points = p.curves.nodes.map (·.pos) := by
  have hjoin : ∀ j : Join, (curveNodes j).map (·.pos) = j.c1 :: j.c2 :: j.stop.toList := by
    rintro ⟨c1, c2, stop⟩
    cases stop <;> rfl
  rw [points, curves, List.map_cons, joinNodes, List.map_flatMap]
  simp only [hjoin]
  rfl

/-- Without a threshold nothing becomes a line. -/
theorem extend_none {s last : Point} {c : Contour} {js : List Join}
    (h : ∀ j ∈ js, j.stop.isSome = true) :
    extend none s c last js = ⟨c.nodes ++ joinNodes js, c.closed⟩ := by
  induction js generalizing c last with
  | nil => simp [extend]
  | cons j js ih =>
      obtain ⟨z, hz⟩ := Option.isSome_iff_exists.mp (h j List.mem_cons_self)
      have hextend : extend none s c last (j :: js) =
          extend none s (c.curveTo j.c1 j.c2 z) z js := by
        simp [extend, isStraight, hz]
      rw [hextend, ih fun j' hj' => h j' (List.mem_cons_of_mem j hj')]
      simp [Contour.curveTo, curveNodes, hz]

/-- The joins of a cycle: the last one leads back to the start. -/
theorem exists_joins_of_isCyclic (h : p.isCyclic) :
    ∃ js k, p.joins = js ++ [k] ∧ k.stop = none := by
  obtain ⟨init, hinit⟩ := List.getLast?_eq_some_iff.mp ((isCyclic_iff p).mp h)
  obtain ⟨js, ks, hjoins, -, hks⟩ := List.map_eq_append_iff.mp hinit
  obtain ⟨k, rfl, hk⟩ := List.map_eq_singleton_iff.mp hks
  exact ⟨js, k, hjoins, hk⟩

theorem toContour_none_of_stops {zs : List Point} (h : p.stops = zs.map some)
    (hp : p.isCyclic = false) : p.toContour none = p.curves := by
  have hopen : ∀ j ∈ p.joins, j.stop.isSome = true := by
    intro j hj
    have hmem : j.stop ∈ zs.map some := by
      rw [← h]
      exact List.mem_map_of_mem hj
    obtain ⟨z, -, hz⟩ := List.mem_map.mp hmem
    rw [← hz, Option.isSome_some]
  rw [toContour, extend_none hopen, curves, hp]
  rfl

/-- Closing drops the start at the end of a cycle, as it equals itself. -/
theorem toContour_none_of_isCyclic (h : p.ClosesLast) (hp : p.isCyclic)
    (hstart : p.start.same p.start = true) : p.toContour none = p.curves := by
  obtain ⟨js, k, hjoins, hk⟩ := exists_joins_of_isCyclic hp
  have hopen := h.isSome_of_concat hjoins
  have hdrawn : extend none p.start (Contour.start p.start) p.start (js ++ [k]) =
      Contour.close ⟨.on p.start ::
        (joinNodes js ++ [.off k.c1, .off k.c2] ++ [.on p.start]), false⟩ := by
    rw [extend_append hopen, extend_none hopen, extend_singleton_of_none hk]
    simp [drawn, isStraight, Contour.curveTo, Contour.start]
  have hrepeats : Contour.repeatsStart (.on p.start ::
      (joinNodes js ++ [.off k.c1, .off k.c2] ++ [.on p.start])) = true := by
    rw [repeatsStart_append_singleton]
    simpa [Node.on] using hstart
  rw [toContour, hjoins, hdrawn, Contour.close, if_pos hrepeats, ← List.cons_append,
    List.dropLast_concat, curves, hjoins, hp]
  simp [curveNodes, hk]

theorem toContour_none (h : p.ClosesLast) (hstart : p.start.same p.start = true) :
    p.toContour none = p.curves := by
  cases hp : p.isCyclic with
  | true => exact toContour_none_of_isCyclic h hp hstart
  | false =>
      obtain ⟨zs, hzs⟩ := h.exists_stops hp
      exact toContour_none_of_stops hzs hp

/-! ## backwards -/

theorem reversed_of_joins_nil (h : p.joins = []) : p.reversed = p := by
  rw [reversed, h]
  rfl

/-- As many joins, the last of which leads back to the start if the path is a cycle. -/
theorem exists_stops_reversed (h : p.ClosesLast) :
    ∃ zs : List Point, p.reversed.stops = zs.map some ++ (if p.isCyclic then [none] else []) ∧
      p.reversed.stops.length = p.joins.length := by
  cases hp : p.isCyclic with
  | true =>
      obtain ⟨zs, hzs⟩ := exists_map_some h
      refine ⟨zs.reverse, ?_, ?_⟩
      · rw [stops_reversed_of_isCyclic hp, hzs, List.map_reverse]
        rfl
      · rw [stops_reversed_of_isCyclic hp, ← length_stops, List.length_append,
          List.length_reverse, ← List.length_append, dropLast_stops_of_isCyclic hp]
  | false =>
      obtain ⟨zs, hzs⟩ := h.exists_stops hp
      by_cases hne : p.joins = []
      · have hsame := reversed_of_joins_nil hne
        exact ⟨zs, by simp [hsame, hzs], by rw [hsame, length_stops]⟩
      · have hback := stops_reversed_of_stops hne hzs
        refine ⟨_, by rw [hback]; exact (List.append_nil _).symm, ?_⟩
        rw [hback, ← length_stops, hzs]
        simp

theorem isCyclic_reversed (h : p.ClosesLast) : p.reversed.isCyclic = p.isCyclic := by
  obtain ⟨zs, hzs, -⟩ := exists_stops_reversed h
  rw [Bool.eq_iff_iff, isCyclic_iff, hzs]
  cases p.isCyclic with
  | true => simp
  | false => simp [List.getLast?_map]

theorem closesLast_reversed (h : p.ClosesLast) : p.reversed.ClosesLast := by
  obtain ⟨zs, hzs, -⟩ := exists_stops_reversed h
  have hall : ∀ stop ∈ zs.map some, stop.isSome := by simp
  rw [ClosesLast, hzs]
  cases p.isCyclic with
  | true => rwa [if_pos rfl, List.dropLast_concat]
  | false =>
      rw [if_neg Bool.false_ne_true, List.append_nil]
      exact fun stop hstop => hall stop (List.dropLast_subset _ hstop)

theorem length_joins_reversed (h : p.ClosesLast) : p.reversed.joins.length = p.joins.length := by
  obtain ⟨-, -, hlength⟩ := exists_stops_reversed h
  rw [← hlength, length_stops]

/-- A cycle keeps its first node, and the joins behind it draw the others in the other order. -/
theorem joinNodes_reversed_of_isCyclic (h : p.ClosesLast) (hp : p.isCyclic) :
    joinNodes p.reversed.joins = (joinNodes p.joins).reverse := by
  obtain ⟨js, k, hjoins, hk⟩ := exists_joins_of_isCyclic hp
  have hstops : p.stops.dropLast = js.map (·.stop) := by
    rw [stops, hjoins, List.map_append, List.map_singleton, List.dropLast_concat]
  obtain ⟨zs, hzs⟩ := exists_map_some h
  rw [reversed_of_isCyclic hp, hzs, hjoins]
  rcases List.eq_nil_or_concat zs with rfl | ⟨ws, w, hws⟩
  · obtain rfl : js = [] := List.map_eq_nil_iff.mp (hstops.symm.trans hzs)
    simp [reversedJoins, curveNodes, hk]
  · rw [List.concat_eq_append] at hws
    subst hws
    have hends : ((ws ++ [w]).map some).reverse ++ [none] =
        some w :: (ws.reverse.map some ++ [none]) := by simp
    rw [hends, reversedJoins_concat, joinNodes_cons]
    show .off k.c2 :: .off k.c1 :: .on w :: joinNodes (reversedJoins js _) = _
    rw [joinNodes_reversedJoins none (hstops.symm.trans hzs)]
    simp [curveNodes, hk]

theorem curves_reversed (h : p.ClosesLast) : p.reversed.curves = p.curves.reversed := by
  rw [curves, isCyclic_reversed h]
  cases hp : p.isCyclic with
  | true =>
      have hstart : p.reversed.start = p.start := by rw [reversed_of_isCyclic hp]
      rw [joinNodes_reversed_of_isCyclic h hp, hstart, curves, hp]
      rfl
  | false =>
      obtain ⟨zs, hzs⟩ := h.exists_stops hp
      rcases List.eq_nil_or_concat zs with rfl | ⟨ws, w, hws⟩
      · have hnil : p.joins = [] := List.map_eq_nil_iff.mp hzs
        rw [reversed_of_joins_nil hnil, curves, hp, hnil]
        rfl
      · rw [List.concat_eq_append] at hws
        subst hws
        have hne : p.joins ≠ [] := by
          rw [← List.length_pos_iff, ← length_stops, hzs]
          simp
        -- Backwards an open path starts where it ended.
        have hback : p.reversed =
            ⟨w, reversedJoins p.joins (ws.reverse.map some ++ [some p.start])⟩ := by
          rw [reversed_of_stops hne hzs, ← List.cons_append, List.getLastD_concat,
            List.dropLast_concat]
          simp
        rw [hback, joinNodes_reversedJoins (some p.start) hzs, curves, hp]
        simp [Contour.reversed]

end Curves

/-! ## paths with finite coordinates -/

/-- A path that leads back to its start with its last join, if at all, and has finite
coordinates only. -/
structure WellFormed (p : Path) : Prop where
  closesLast : p.ClosesLast
  finite : ∀ z ∈ p.points, z.IsFinite

section WellFormed

variable {p : Path}

theorem WellFormed.reversed (h : p.WellFormed) : p.reversed.WellFormed := by
  refine ⟨closesLast_reversed h.closesLast, fun z hz => ?_⟩
  rw [points_eq, curves_reversed h.closesLast] at hz
  obtain ⟨n, hn, rfl⟩ := List.mem_map.mp hz
  refine h.finite n.pos ?_
  rw [points_eq]
  exact List.mem_map_of_mem ((Contour.reversed_perm p.curves).mem_iff.mp hn)

theorem WellFormed.toContour_none (h : p.WellFormed) : p.toContour none = p.curves :=
  Path.toContour_none h.closesLast (h.finite p.start List.mem_cons_self).same_self

theorem WellFormed.toContour_reversed (h : p.WellFormed) :
    p.reversed.toContour none = (p.toContour none).reversed := by
  rw [h.reversed.toContour_none, curves_reversed h.closesLast, h.toContour_none]

end WellFormed

end Path

/-! ## paths that are read -/

namespace Operand

theorem isFinite_of_number? {cs : List Char} {x : Float} (h : number? cs = some x) :
    x.isFinite = true :=
  (Option.filter_eq_some_iff.mp h).2

theorem isFinite_of_point? {t : List Char × List Char} {z : Point} (h : point? t = some z) :
    z.IsFinite := by
  simp only [point?, Option.bind_eq_bind, Option.bind_eq_some_iff, Option.pure_def,
    Option.some.injEq] at h
  obtain ⟨x, hx, y, hy, rfl⟩ := h
  exact ⟨isFinite_of_number? hx, isFinite_of_number? hy⟩

theorem isFinite_of_read? {t : JoinText} {j : Join} (h : t.read? = some j) :
    ∀ z ∈ j.c1 :: j.c2 :: j.stop.toList, z.IsFinite := by
  simp only [JoinText.read?, Option.bind_eq_bind, Option.bind_eq_some_iff] at h
  obtain ⟨c1, hc1, c2, hc2, h⟩ := h
  split at h
  · simp only [Option.bind_eq_some_iff, Option.pure_def, Option.some.injEq] at h
    obtain ⟨stop, hstop, rfl⟩ := h
    simp [isFinite_of_point? hc1, isFinite_of_point? hc2, isFinite_of_point? hstop]
  · simp only [Option.pure_def, Option.some.injEq] at h
    obtain rfl := h
    simp [isFinite_of_point? hc1, isFinite_of_point? hc2]

theorem isFinite_of_joins? {cs : List Char} {js : List Join} (h : joins? cs = some js) :
    ∀ j ∈ js, ∀ z ∈ j.c1 :: j.c2 :: j.stop.toList, z.IsFinite := by
  induction cs using joins?.induct generalizing js with
  | case1 cs hseek =>
      rw [joins?, hseek] at h
      cases h
      simp
  | case2 cs skipped t rest hseek hread =>
      rw [joins?, hseek] at h
      simp [hread] at h
  | case3 cs skipped t rest hseek j hread hclosed =>
      rw [joins?, hseek] at h
      simp only [hread, hclosed, if_true, Option.some.injEq] at h
      rw [← h]
      simpa using isFinite_of_read? hread
  | case4 cs skipped t rest hseek j hread hopen ih =>
      rw [joins?, hseek] at h
      simp only [hread, hopen, Bool.false_eq_true, if_false, Option.map_eq_some_iff] at h
      obtain ⟨ks, hks, rfl⟩ := h
      exact List.forall_mem_cons.mpr ⟨isFinite_of_read? hread, ih hks⟩

theorem wellFormed_of_path {text : String} {p : Path} (h : Operand.path text = .ok p) :
    p.WellFormed := by
  refine ⟨closesLast_of_path h, ?_⟩
  unfold Operand.path at h
  split at h
  next q hq =>
    cases h
    simp only [path?, Option.bind_eq_bind, Option.bind_eq_some_iff, Option.pure_def,
      Option.some.injEq, Prod.exists] at hq
    obtain ⟨x, y, _, -, start, hstart, js, hjs, rfl⟩ := hq
    refine List.forall_mem_cons.mpr ⟨isFinite_of_point? hstart, fun z hz => ?_⟩
    obtain ⟨j, hj, hz⟩ := List.mem_flatMap.mp hz
    exact isFinite_of_joins? hjs j hj z hz
  · cases h

end Operand

/-- Every path that is read is well-formed, and a well-formed path backwards is one that draws the
contour of the path backwards. -/
theorem toContour_reversed_of_read :
    (∀ text p, Operand.path text = .ok p → p.WellFormed) ∧
    ∀ p : Path, p.WellFormed → p.reversed.WellFormed ∧
      p.reversed.isCyclic = p.isCyclic ∧ p.reversed.joins.length = p.joins.length ∧
      p.reversed.reversed = p ∧ p.reversed.toContour none = (p.toContour none).reversed := by
  refine ⟨fun text p hread => Operand.wellFormed_of_path hread, fun p hp => ?_⟩
  exact ⟨hp.reversed, Path.isCyclic_reversed hp.closesLast,
    Path.length_joins_reversed hp.closesLast, Path.reversed_reversed hp.closesLast,
    hp.toContour_reversed⟩

/-- A cycle of three joins, whose start stays where it is, and an open path of two, which starts
at its end. -/
theorem toContour_reversed_of_triangle :
    let joins := "(0,0)..controls (3,0) and (7,1) ..(10,0)..controls (11,3) and (10,7) ..(10,10)"
    let p : Path := ⟨⟨0, 0⟩, [⟨⟨3, 0⟩, ⟨7, 1⟩, some ⟨10, 0⟩⟩, ⟨⟨11, 3⟩, ⟨10, 7⟩, some ⟨10, 10⟩⟩]⟩
    let k : Join := ⟨⟨7, 7⟩, ⟨3, 4⟩, none⟩
    (Operand.path joins = .ok p ∧
      p.reversed = ⟨⟨10, 10⟩, [⟨⟨10, 7⟩, ⟨11, 3⟩, some ⟨10, 0⟩⟩, ⟨⟨7, 1⟩, ⟨3, 0⟩, some ⟨0, 0⟩⟩]⟩ ∧
      p.reversed.toContour none = (p.toContour none).reversed) ∧
    Operand.path (joins ++ "..controls (7,7) and (3,4) ..cycle") = .ok ⟨p.start, p.joins ++ [k]⟩ ∧
      Path.reversed ⟨p.start, p.joins ++ [k]⟩ = ⟨⟨0, 0⟩, [⟨⟨3, 4⟩, ⟨7, 7⟩, some ⟨10, 10⟩⟩,
        ⟨⟨10, 7⟩, ⟨11, 3⟩, some ⟨10, 0⟩⟩, ⟨⟨7, 1⟩, ⟨3, 0⟩, none⟩]⟩ ∧
      (Path.reversed ⟨p.start, p.joins ++ [k]⟩).toContour none =
        (Path.toContour ⟨p.start, p.joins ++ [k]⟩ none).reversed := by
  intro joins p k
  have hopen : Operand.path joins = .ok p := path_of_path? (by decide +kernel)
  have hcycle : Operand.path (joins ++ "..controls (7,7) and (3,4) ..cycle") =
      .ok ⟨p.start, p.joins ++ [k]⟩ := path_of_path? (by decide +kernel)
  obtain ⟨hread, hback⟩ := toContour_reversed_of_read
  obtain ⟨-, -, -, -, hdrawn⟩ := hback p (hread joins p hopen)
  obtain ⟨-, -, -, -, hdrawn'⟩ := hback _ (hread _ _ hcycle)
  exact ⟨⟨hopen, rfl, hdrawn⟩, hcycle, rfl, hdrawn'⟩

end FontTrace
