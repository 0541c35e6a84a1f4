import FontTrace.Proofs.Geometry.Turning
import FontTrace.Proofs.Number.Least
import FontTrace.Proofs.Number.Ranking
import FontTrace.Proofs.Picture.Edits
import FontTrace.Replay.Points
import Mathlib.Data.Prod.Lex

/-!
# FontTrace.Proofs.Picture.NamedPoint

Points that are named by where they are.  A name stands for a contour and a number, which
counts the points of the contour on the curve; the search for the nearest point counts them,
and every use of the name counts them again.

* `Contour.PointAt` — a point on the curve, its number and its place among all nodes;
* `Contour.onCurveIndex?_eq_some_iff`, `mem_curveNodes` — both counts agree with it;
* `nearest?_eq_some`, `nearest?_eq_none_iff` — the first of the nearest points;
* `nameByCoords_names_nearest` — a name is given to that point, and stands for it afterwards.
-/

namespace FontTrace

/-! ## counting points on the curve -/

/-- The elements with a property are counted by those before them. -/
theorem getElem?_filter_zipIdx {α : Type} {f : α → Bool} {xs : List α} {k i j : Nat} {a : α} :
    ((xs.zipIdx j).filter (f ·.1))[k]? = some (a, j + i) ↔
      xs[i]? = some a ∧ f a = true ∧ (xs.take i).countP f = k := by
  induction xs generalizing k i j with
  | nil => simp
  | cons x xs ih =>
      have hbehind (k : Nat) : ((xs.zipIdx (j + 1)).filter (f ·.1))[k]? ≠ some (a, j) := by
        intro h
        have hmem := List.mem_of_mem_filter (List.mem_of_getElem? h)
        have := List.le_snd_of_mem_zipIdx hmem
        omega
      rw [List.zipIdx_cons]
      cases i with
      | zero =>
          cases hx : f x with
          | true =>
              rw [List.filter_cons_of_pos (by exact hx)]
              cases k with
              | zero =>
                  constructor
                  · intro h
                    obtain ⟨rfl, -⟩ := Prod.mk.inj (Option.some.inj h)
                    exact ⟨rfl, hx, rfl⟩
                  · rintro ⟨h, -, -⟩
                    obtain rfl := Option.some.inj h
                    rfl
              | succ k => simpa using hbehind k
          | false =>
              rw [List.filter_cons_of_neg (by simp [hx])]
              refine iff_of_false (hbehind k) ?_
              rintro ⟨ha, hfa, -⟩
              obtain rfl := Option.some.inj ha
              exact Bool.false_ne_true (hx.symm.trans hfa)
      | succ i =>
          have hshift : j + (i + 1) = j + 1 + i := by omega
          rw [hshift]
          cases hx : f x with
          | true =>
              rw [List.filter_cons_of_pos (by exact hx)]
              cases k with
              | zero =>
                  simp [hx]
                  omega
              | succ k => simpa [hx] using ih
          | false =>
              rw [List.filter_cons_of_neg (by simp [hx])]
              simpa [hx] using ih

/-- The `k`-th point of a contour on the curve, which is the `i`-th of all its nodes. -/
structure Contour.PointAt (c : Contour) (k i : Nat) (p : Point) : Prop where
  node : c.nodes[i]? = some (.on p)
  number : (c.nodes.take i).countP (·.onCurve) = k

namespace Contour

variable {c : Contour} {k i : Nat} {p : Point}

/-- The nodes on the curve, each with its place among all nodes. -/
def curvePlaces (c : Contour) : List (Node × Nat) := c.nodes.zipIdx.filter (·.1.onCurve)

theorem getElem?_curvePlaces : c.curvePlaces[k]? = some (.on p, i) ↔ c.PointAt k i p := by
  have hplaces : c.curvePlaces[k]? = some (.on p, 0 + i) ↔ _ := getElem?_filter_zipIdx
  rw [Nat.zero_add] at hplaces
  exact hplaces.trans ⟨fun h => ⟨h.1, h.2.2⟩, fun h => ⟨h.node, rfl, h.number⟩⟩

theorem onCurveIndices_eq (c : Contour) : c.onCurveIndices = c.curvePlaces.map (·.2) := by
  rw [curvePlaces, ← List.filterMap_eq_map, List.filterMap_filter]
  rfl

theorem filter_onCurve_eq (c : Contour) :
    c.nodes.filter (·.onCurve) = c.curvePlaces.map (·.1) := by
  have hmap := List.filter_map (f := Prod.fst) (p := Node.onCurve) (l := c.nodes.zipIdx)
  rwa [List.zipIdx_map_fst] at hmap

theorem exists_of_getElem?_curvePlaces {x : Node × Nat} (h : c.curvePlaces[k]? = some x) :
    ∃ p i, x = (.on p, i) ∧ c.PointAt k i p := by
  obtain ⟨⟨p, onCurve⟩, i⟩ := x
  obtain rfl : onCurve = true := (List.mem_filter.mp (List.mem_of_getElem? h)).2
  exact ⟨p, i, rfl, getElem?_curvePlaces.mp h⟩

/-- A closed contour with the point in front. -/
theorem PointAt.startingAt_eq (h : c.PointAt k i p) (hclosed : c.closed = true) :
    c.startingAt i = ⟨.on p :: c.nodes.drop (i + 1) ++ c.nodes.take i, true⟩ := by
  obtain ⟨hi, hnode⟩ := List.getElem?_eq_some_iff.mp h.node
  have hnodes := nodes_startingAt hclosed h.node
  rw [List.drop_eq_getElem_cons hi, hnode] at hnodes
  rw [← hnodes, ← (c.closed_startingAt i).trans hclosed]

/-- The place that a number stands for. -/
theorem onCurveIndex?_eq_some_iff : c.onCurveIndex? k = some i ↔ ∃ p, c.PointAt k i p := by
  rw [onCurveIndex?, onCurveIndices_eq, List.getElem?_map, Option.map_eq_some_iff]
  constructor
  · rintro ⟨x, hx, rfl⟩
    obtain ⟨p, i, rfl, hp⟩ := exists_of_getElem?_curvePlaces hx
    exact ⟨p, hp⟩
  · rintro ⟨p, hp⟩
    exact ⟨(.on p, i), getElem?_curvePlaces.mpr hp, rfl⟩

/-- The point that has a number. -/
theorem getElem?_filter_onCurve_iff {n : Node} :
    (c.nodes.filter (·.onCurve))[k]? = some n ↔ ∃ p i, n = .on p ∧ c.PointAt k i p := by
  rw [filter_onCurve_eq, List.getElem?_map, Option.map_eq_some_iff]
  constructor
  · rintro ⟨x, hx, rfl⟩
    obtain ⟨p, i, rfl, hp⟩ := exists_of_getElem?_curvePlaces hx
    exact ⟨p, i, rfl, hp⟩
  · rintro ⟨p, i, rfl, hp⟩
    exact ⟨(.on p, i), getElem?_curvePlaces.mpr hp, rfl⟩

end Contour

/-! ## the nearest point -/

namespace Outline

/-- A point of an outline on the curve, by the number of its contour and its own. -/
def HasPoint (o : Outline) (place : Nat × Nat) (p : Point) : Prop :=
  ∃ c i, o[place.1]? = some c ∧ c.PointAt place.2 i p

/-- The point that a name is given to: no point on the curve is nearer, and none that is as
near comes before it, contour by contour and point by point. -/
structure IsNearest (o : Outline) (target : Point) (place : Nat × Nat) (p : Point) : Prop where
  hasPoint : o.HasPoint place p
  least : ∀ other q, o.HasPoint other q → ¬q.distance target < p.distance target
  first : ∀ other q, o.HasPoint other q → q.distance target ≤ p.distance target →
    toLex place ≤ toLex other

end Outline

variable {o : Outline} {target : Point} {radius : Float} {place : Nat × Nat} {p : Point}

/-- The points that are searched are those on the curve. -/
theorem mem_curveNodes : (p, place) ∈ curveNodes o ↔ o.HasPoint place p := by
  constructor
  · intro h
    obtain ⟨⟨c, i⟩, hc, hmem⟩ := List.mem_flatMap.mp h
    obtain ⟨⟨n, k⟩, hn, heq⟩ := List.mem_map.mp hmem
    obtain ⟨q, j, rfl, hq⟩ :=
      Contour.getElem?_filter_onCurve_iff.mp (List.mem_zipIdx_iff_getElem?.mp hn)
    cases heq
    exact ⟨c, j, List.mem_zipIdx_iff_getElem?.mp hc, hq⟩
  · rintro ⟨c, j, hc, hp⟩
    refine List.mem_flatMap.mpr ⟨(c, place.1), List.mem_zipIdx_iff_getElem?.mpr hc, ?_⟩
    refine List.mem_map.mpr ⟨(.on p, place.2), List.mem_zipIdx_iff_getElem?.mpr ?_, rfl⟩
    exact Contour.getElem?_filter_onCurve_iff.mpr ⟨p, j, rfl, hp⟩

theorem pairwise_zipIdx {α : Type} (xs : List α) : xs.zipIdx.Pairwise fun x y => x.2 < y.2 := by
  rw [← List.pairwise_map (f := Prod.snd) (R := (· < ·)), List.zipIdx_map_snd]
  exact List.pairwise_lt_range'

/-- They are searched contour by contour and point by point. -/
theorem pairwise_curveNodes (o : Outline) :
    (curveNodes o).Pairwise fun x y => toLex x.2 < toLex y.2 := by
  refine List.pairwise_flatMap.mpr ⟨fun x _ => ?_, (pairwise_zipIdx o).imp ?_⟩
  · refine List.pairwise_map.mpr ((pairwise_zipIdx _).imp fun h => ?_)
    exact Prod.Lex.toLex_lt_toLex.mpr (.inr ⟨rfl, h⟩)
  · intro x y h a ha b hb
    obtain ⟨-, -, rfl⟩ := List.mem_map.mp ha
    obtain ⟨-, -, rfl⟩ := List.mem_map.mp hb
    exact Prod.Lex.toLex_lt_toLex.mpr (.inl h)

/-- The points that are near enough, with their distances. -/
def within (target : Point) (radius : Float) (o : Outline) : List (Float × (Nat × Nat)) :=
  (curveNodes o).filterMap fun (p, place) =>
    let d := p.distance target
    if d ≤ radius then some (d, place) else none

theorem nearest?_eq (target : Point) (radius : Float) (o : Outline) :
    nearest? target radius o =
      (leastBy? (fun a b => !decide (b.1 < a.1)) (within target radius o)).map (·.2) := rfl

theorem mem_within {d : Float} : (d, place) ∈ within target radius o ↔
    ∃ p, o.HasPoint place p ∧ p.distance target = d ∧ d ≤ radius := by
  constructor
  · intro h
    obtain ⟨⟨p, other⟩, hp, hd⟩ := List.mem_filterMap.mp h
    dsimp only at hd
    split at hd
    · next hle =>
      obtain ⟨rfl, rfl⟩ := Prod.mk.inj (Option.some.inj hd)
      exact ⟨p, mem_curveNodes.mp hp, rfl, hle⟩
    · cases hd
  · rintro ⟨p, hp, rfl, hle⟩
    exact List.mem_filterMap.mpr ⟨(p, place), mem_curveNodes.mpr hp, if_pos hle⟩

theorem pairwise_within (target : Point) (radius : Float) (o : Outline) :
    (within target radius o).Pairwise fun x y => toLex x.2 < toLex y.2 := by
  refine List.pairwise_filterMap.mpr ((pairwise_curveNodes o).imp ?_)
  intro x y h a ha b hb
  dsimp only at ha hb
  split at ha
  · split at hb
    · rw [← Option.some.inj ha, ← Option.some.inj hb]
      exact h
    · cases hb
  · cases ha

theorem nearest?_eq_none_iff : nearest? target radius o = none ↔
    ∀ place p, o.HasPoint place p → ¬p.distance target ≤ radius := by
  rw [nearest?_eq, Option.map_eq_none_iff, leastBy?_eq_none_iff, List.eq_nil_iff_forall_not_mem]
  constructor
  · exact fun h place p hp hle => h (_, place) (mem_within.mpr ⟨p, hp, rfl, hle⟩)
  · rintro h ⟨d, place⟩ hmem
    obtain ⟨p, hp, rfl, hle⟩ := mem_within.mp hmem
    exact h place p hp hle

/-- The search finds the first of the nearest points. -/
theorem nearest?_eq_some (h : nearest? target radius o = some place) :
    ∃ p, o.IsNearest target place p ∧ p.distance target ≤ radius := by
  rw [nearest?_eq, Option.map_eq_some_iff] at h
  obtain ⟨⟨d, place⟩, hleast, rfl⟩ := h
  have hnumbers : ∀ x ∈ within target radius o, x.1.isNaN = false := by
    rintro ⟨d, place⟩ hx
    obtain ⟨p, -, -, hle⟩ := mem_within.mp hx
    exact (le_iff.mp hle).1
  have htotal (a b : Float × (Nat × Nat)) :
      (!decide (b.1 < a.1)) = true ∨ (!decide (a.1 < b.1)) = true := by
    simp only [Bool.not_eq_true', decide_eq_false_iff_not]
    exact Decidable.not_or_of_imp lt_asymm
  have hfirst := firstLeast_of_leastBy? (P := fun x : Float × (Nat × Nat) => x.1.isNaN = false)
    (fun a b c hb => by
      simp only [Bool.not_eq_true', decide_eq_false_iff_not]
      exact fun hab hbc hca => hbc (lt_of_lt_of_not_lt hb hca hab))
    htotal hnumbers hleast
  obtain ⟨p, hp, rfl, hle⟩ := mem_within.mp hfirst.mem
  -- what is not farther away is near enough too
  have hwithin {other : Nat × Nat} {q : Point} (hq : o.HasPoint other q)
      (hnumber : (q.distance target).isNaN = false)
      (h : ¬p.distance target < q.distance target) :
      (q.distance target, other) ∈ within target radius o :=
    mem_within.mpr ⟨q, hq, rfl, le_of_not_lt_of_le hnumber h hle⟩
  refine ⟨p, ⟨hp, fun other q hq hlt => ?_, fun other q hq hqp => ?_⟩, hle⟩
  · have hmem := hwithin hq (isNaN_eq_false_of_lt hlt).1 (lt_asymm hlt)
    simpa [hlt] using hfirst.le_of_mem htotal hmem
  · obtain ⟨hnumber, -, hnot⟩ := le_iff.mp hqp
    have hmem := hwithin hq hnumber hnot
    have hpairwise := pairwise_within target radius o
    obtain ⟨before, after, hsplit, hbefore, -⟩ := hfirst
    rw [hsplit] at hmem hpairwise
    rcases List.mem_append.mp hmem with hmem | hmem
    · exact absurd (by simpa using hbefore _ hmem) hnot
    · rcases List.mem_cons.mp hmem with heq | hmem
      · rw [(Prod.mk.inj heq).2]
      · have hafter := (List.pairwise_cons.mp (List.pairwise_append.mp hpairwise).2.1).1 _ hmem
        exact hafter.le

/-! ## names -/

section Names

variable {σ : Type} {p : Picture} {name : String} {c : Contour} {i : Nat} {q : Point}

theorem find?_naming (p : Picture) (name : String) (place : Nat × Nat) :
    Table.find? (p.naming name place).namedPoints name = some place :=
  Table.find?_put_self p.namedPoints name place

theorem pointAt?_eq_some (hc : p.outline[place.1]? = some c) (hq : c.PointAt place.2 i q) :
    p.pointAt? place = some (c, i) := by
  have hindex : c.onCurveIndex? place.2 = some i := Contour.onCurveIndex?_eq_some_iff.mpr ⟨q, hq⟩
  rw [Picture.pointAt?, hc]
  show (do return (c, ← c.onCurveIndex? place.2) : Option (Contour × Nat)) = _
  rw [hindex]
  rfl

/-- A change by name is one of the contour that the named point is on. -/
theorem value_changeAtPoint {f : Contour → Nat → StateM σ Contour} (engine : σ)
    (hname : Table.find? p.namedPoints name = some place)
    (hpoint : p.pointAt? place = some (c, i)) :
    (changeAtPoint name f p engine).value =
      (p.withContour place.1 (f c i engine).1, (f c i engine).2) := by
  unfold changeAtPoint
  rw [hname]
  dsimp only
  rw [hpoint]
  rfl

theorem value_nameNear_of_none (e : Engine σ) (engine : σ)
    (h : nearest? target radius p.outline = none) :
    ((PointEdit.nameNear target radius name).apply e p engine).value = (p, engine) := by
  unfold PointEdit.apply
  dsimp only
  rw [h]
  rfl

theorem value_nameNear_of_some (e : Engine σ) (engine : σ)
    (h : nearest? target radius p.outline = some place) :
    ((PointEdit.nameNear target radius name).apply e p engine).value =
      (p.naming name place, engine) := by
  unfold PointEdit.apply
  dsimp only
  rw [h]
  rfl

end Names

/-- A record that edits a point of a picture by its name. -/
structure Record.EditsPoint (r : Record) (command : OutlineCommand) (picture name : String) :
    Prop where
  op : r.op = .outline command
  fields : ∃ a b, r.fields = [a, b] ∧ pictureName a = picture ∧ Operand.nameOf b = name

section Names

variable {σ : Type} {cfg : Settings} {r : Record}

theorem Record.EditsPoint.read {picture name : String} {command : OutlineCommand}
    {edit : String → PointEdit} (h : r.EditsPoint command picture name)
    (hedit : ∀ a, PictureEdit.readEdit command r [a] = .ok (edit (Operand.nameOf a))) :
    PictureEdit.read command r = .ok ⟨picture, edit name⟩ := by
  obtain ⟨a, b, hfields, rfl, rfl⟩ := h.fields
  exact PictureEdit.read_of_fields hfields (hedit b)

/-- What such a record does if it changes the contour that the point is on. -/
theorem Record.EditsPoint.value_step {e : Engine σ} {s : State σ} {picture name : String}
    {command : OutlineCommand} {f : Contour → Nat → StateM σ Contour} {p : Picture}
    {place : Nat × Nat} {contour : Contour} {i : Nat} (edit : String → PointEdit)
    (h : r.EditsPoint command picture name) (henabled : cfg.enables .outline = true)
    (hread : ∀ a, PictureEdit.readEdit command r [a] = .ok (edit (Operand.nameOf a)))
    (happly : ∀ name p, (edit name).apply e p = changeAtPoint name f p)
    (hp : Pictures.get s.pictures picture = .ok p)
    (hname : Table.find? p.namedPoints name = some place)
    (hpoint : p.pointAt? place = some (contour, i)) (c : Cursor) :
    (State.step e cfg s (Script.construct r c).1).value =
      { s with
        pictures :=
          Table.put s.pictures picture (p.withContour place.1 (f contour i s.engine).1)
        engine := (f contour i s.engine).2 } := by
  rw [value_step_edit e henabled h.op (h.read hread) hp c, State.edited, happly,
    value_changeAtPoint s.engine hname hpoint]

theorem PictureEdit.readEdit_nameByCoords {coords distance name : String} {target : Point}
    {radius : Float} (htarget : Operand.pair coords = .ok target)
    (hradius : Operand.number distance = .ok radius) :
    readEdit .nameByCoords r [coords, distance, name] =
      .ok (.nameNear target radius (Operand.nameOf name)) := by
  simp only [readEdit, threeOperands, bind, Except.bind, htarget, hradius, orMalformed]
  rfl

/-- A point that is named by where it is.  If no point on the curve is near enough nothing
happens.  Otherwise the name is given to the first of the nearest points, and directly
afterwards it stands for that point: it is put in front of its contour, or its contour and its
place among all nodes are what the engine is given, and all other contours stay. -/
theorem nameByCoords_names_nearest (e : Engine σ) {s : State σ}
    {picture coords distance name : String} {target : Point} {radius : Float} {p : Picture}
    (henabled : cfg.enables .outline = true) (hop : r.op = .outline .nameByCoords)
    (hfields : r.fields = [picture, coords, distance, name])
    (htarget : Operand.pair coords = .ok target) (hradius : Operand.number distance = .ok radius)
    (hp : Pictures.get s.pictures (pictureName picture) = .ok p) :
    ((∀ place q, p.outline.HasPoint place q → ¬q.distance target ≤ radius) →
      ∀ c, (State.step e cfg s (Script.construct r c).1).value = s) ∧
    ((∃ place q, p.outline.HasPoint place q ∧ q.distance target ≤ radius) →
      ∃ place q contour i, p.outline.IsNearest target place q ∧ q.distance target ≤ radius ∧
        p.outline[place.1]? = some contour ∧ contour.PointAt place.2 i q ∧
        let named := p.naming (Operand.nameOf name) place
        let put (p : Picture) := Table.put s.pictures (pictureName picture) p
        (∀ c, (State.step e cfg s (Script.construct r c).1).value = s.withPictures (put named)) ∧
        (∀ r' : Record, r'.EditsPoint .makeFirst (pictureName picture) (Operand.nameOf name) →
          contour.closed = true → ∀ c,
          (State.step e cfg (s.withPictures (put named)) (Script.construct r' c).1).value =
            s.withPictures (put (named.withContour place.1
              ⟨.on q :: contour.nodes.drop (i + 1) ++ contour.nodes.take i, true⟩))) ∧
        ∀ r' : Record, r'.EditsPoint .delete (pictureName picture) (Operand.nameOf name) → ∀ c,
          (State.step e cfg (s.withPictures (put named)) (Script.construct r' c).1).value =
            { s with
              pictures := put (named.withContour place.1 (e.mergePoint contour i s.engine).1)
              engine := (e.mergePoint contour i s.engine).2 }) := by
  have hread :=
    PictureEdit.read_of_fields hfields (PictureEdit.readEdit_nameByCoords htarget hradius)
  constructor
  · intro hfar c
    have hnone := nearest?_eq_none_iff.mpr hfar
    exact (value_step_edit e henabled hop hread hp c).trans
      (State.edited_eq_self hp (value_nameNear_of_none e s.engine hnone))
  · rintro ⟨other, near, hother, hle⟩
    obtain ⟨place, hplace⟩ : ∃ place, nearest? target radius p.outline = some place :=
      Option.ne_none_iff_exists'.mp fun hnone =>
        nearest?_eq_none_iff.mp hnone other near hother hle
    obtain ⟨q, hq, hwithin⟩ := nearest?_eq_some hplace
    obtain ⟨contour, i, hcontour, hpoint⟩ := hq.hasPoint
    refine ⟨place, q, contour, i, hq, hwithin, hcontour, hpoint, ?_⟩
    intro named put
    have hnamed : Pictures.get (put named) (pictureName picture) = .ok named := by
      rw [Pictures.get_put, if_pos rfl]
    have hname := find?_naming p (Operand.nameOf name) place
    have hplaced : named.pointAt? place = some (contour, i) := pointAt?_eq_some hcontour hpoint
    refine ⟨fun c => ?_, fun r' hr' hclosed c => ?_, fun r' hr' c => ?_⟩
    · rw [value_step_edit e henabled hop hread hp c, State.edited,
        value_nameNear_of_some e s.engine hplace]
      rfl
    · rw [hr'.value_step (s := s.withPictures (put named)) .makeFirst henabled (fun _ => rfl)
        (fun _ _ => rfl) hnamed hname hplaced c, State.withPictures, Table.put_put,
        ← hpoint.startingAt_eq hclosed]
      rfl
    · rw [hr'.value_step (s := s.withPictures (put named)) .delete henabled (fun _ => rfl)
        (fun _ _ => rfl) hnamed hname hplaced c, State.withPictures, Table.put_put]

/-- The second point of a loop on the curve, which is the fourth of its nodes.  The control point
where the coordinates are does not count. -/
theorem nameByCoords_of_corner :
    let loop : Contour := ⟨[.off ⟨0, 0⟩, .on ⟨0, 1⟩, .off ⟨9, 1⟩, .on ⟨10, 0⟩], true⟩
    let turned : Contour := ⟨[.on ⟨10, 0⟩, .off ⟨0, 0⟩, .on ⟨0, 1⟩, .off ⟨9, 1⟩], true⟩
    let cfg : Settings := { extensions := { outline := true } }
    let s := (State.initial () cfg .unicode).withPictures [("p", { outline := [loop] })]
    let s' := s.withPictures [("p", ⟨[loop], [("corner", (0, 1))]⟩)]
    let r : Record :=
      ⟨"outline_point_name_by_coords", none, "\"p\">> (9,1)>> 2>> \"corner\""⟩
    let r' : Record := ⟨"outline_point_make_first", none, "\"p\">> \"corner\""⟩
    (∀ c, (State.step Engine.basic cfg s (Script.construct r c).1).value = s') ∧
      ∀ c, (State.step Engine.basic cfg s' (Script.construct r' c).1).value =
        s.withPictures [("p", ⟨[turned], [("corner", (0, 1))]⟩)] := by
  intro loop turned cfg s s' r r'
  have hcorner : Outline.HasPoint [loop] (0, 1) ⟨10, 0⟩ := ⟨loop, 3, rfl, rfl, rfl⟩
  have hnear : (⟨10, 0⟩ : Point).distance ⟨9, 1⟩ ≤ 2 := by decide +kernel
  have hr' : r'.EditsPoint .makeFirst (pictureName "\"p\"") (Operand.nameOf "\"corner\"") :=
    ⟨by cbv, "\"p\"", "\"corner\"", by cbv, rfl, rfl⟩
  have henabled : cfg.enables .outline = true := rfl
  have hop : r.op = .outline .nameByCoords := by cbv
  have hfields : r.fields = ["\"p\"", "(9,1)", "2", "\"corner\""] := by cbv
  have htarget : Operand.pair "(9,1)" = .ok ⟨9, 1⟩ := by rfl
  have hradius : Operand.number "2" = .ok 2 := by rfl
  have hp : Pictures.get s.pictures (pictureName "\"p\"") = .ok { outline := [loop] } := by rfl
  obtain ⟨⟨number, k⟩, q, contour, i, -, hwithin, hcontour, hpoint, hnamed, hfirst, -⟩ :=
    (nameByCoords_names_nearest Engine.basic henabled hop hfields htarget hradius hp).2
      ⟨(0, 1), ⟨10, 0⟩, hcorner, hnear⟩
  obtain ⟨rfl, rfl⟩ : number = 0 ∧ contour = loop := by
    cases number with
    | zero => exact ⟨rfl, (Option.some.inj hcontour).symm⟩
    | succ number => cases hcontour
  obtain ⟨rfl, rfl, rfl⟩ : i = 3 ∧ k = 1 ∧ q = ⟨10, 0⟩ := by
    have hnode := hpoint.node
    rcases i with _ | _ | _ | _ | i
    · cases hnode
    · cases hnode
      exact absurd hwithin (by decide +kernel)
    · cases hnode
    · cases hnode
      exact ⟨rfl, hpoint.number.symm, rfl⟩
    · cases hnode
  exact ⟨hnamed, hfirst r' hr' rfl⟩

end Names

end FontTrace
