import FontTrace.Trace.Operand

/-!
# FontTrace.Proofs.Geometry.Reversal

Paths traversed backwards.  A path as such may hold a join that leads back to
its start in front of others; none that is read from a text does, and those
come back when they are reversed twice.

* `map_stop_reversedJoins`, `map_controls_reversedJoins` — what reversing joins does to
  their ends, and what to their control points;
* `reversed_reversed` — a path that closes with its last join, if at all, reversed twice;
* `Operand.closesLast_of_path` — every path that is read from a text is such a path.
-/

namespace FontTrace

/-! ## joins -/

/-- The control points of a join. -/
def Join.controls (j : Join) : Point × Point := (j.c1, j.c2)

/-- Joins are known by their control points and their ends. -/
theorem Join.list_ext {js ks : List Join} (hc : js.map controls = ks.map controls)
    (hs : js.map (·.stop) = ks.map (·.stop)) : js = ks := by
  induction js generalizing ks with
  | nil => simpa using hs
  | cons j js ih =>
      cases ks with
      | nil => simp at hs
      | cons k ks =>
          simp only [List.map_cons, List.cons.injEq, controls, Prod.mk.injEq] at hc hs
          obtain ⟨⟨hc₁, hc₂⟩, hc⟩ := hc
          rw [ih hc hs.2]
          exact congrArg (· :: ks) (by cases j; cases k; simp_all)

namespace Path

theorem reversedJoins_eq_map_zip (joins : List Join) (stops : List (Option Point)) :
    reversedJoins joins stops =
      (joins.reverse.zip stops).map fun p => ⟨p.1.c2, p.1.c1, p.2⟩ := by
  rw [reversedJoins, List.zip, List.map_zipWith]

theorem map_stop_reversedJoins {joins : List Join} {stops : List (Option Point)}
    (h : stops.length = joins.length) :
    (reversedJoins joins stops).map (·.stop) = stops := by
  rw [reversedJoins_eq_map_zip, List.map_map]
  exact List.map_snd_zip (by simp [h])

theorem map_controls_reversedJoins {joins : List Join} {stops : List (Option Point)}
    (h : stops.length = joins.length) :
    (reversedJoins joins stops).map Join.controls =
      (joins.map Join.controls).reverse.map Prod.swap := by
  have hfst : (joins.reverse.zip stops).map Prod.fst = joins.reverse :=
    List.map_fst_zip (by simp [h])
  calc (reversedJoins joins stops).map Join.controls
      = ((joins.reverse.zip stops).map Prod.fst).map (Prod.swap ∘ Join.controls) := by
        rw [reversedJoins_eq_map_zip, List.map_map, List.map_map]
        rfl
    _ = (joins.map Join.controls).reverse.map Prod.swap := by
        rw [hfst, ← List.map_reverse, List.map_map]

/-- The control points swap back, so only the ends of joins that are reversed
twice have to be looked at. -/
theorem reversedJoins_reversedJoins {joins : List Join} {stops stops' : List (Option Point)}
    (h : stops.length = joins.length) (h' : stops' = joins.map (·.stop)) :
    reversedJoins (reversedJoins joins stops) stops' = joins := by
  have hlength : stops'.length = (reversedJoins joins stops).length := by
    simp [h', length_reversedJoins, h]
  refine Join.list_ext ?_ ((map_stop_reversedJoins hlength).trans h')
  rw [map_controls_reversedJoins hlength, map_controls_reversedJoins h, ← List.map_reverse,
    List.reverse_reverse, List.map_map, List.map_map]
  rfl

/-! ## paths -/

/-- Where the joins of a path end. -/
def stops (p : Path) : List (Option Point) := p.joins.map (·.stop)

/-- Only the last join may lead back to the start. -/
def ClosesLast (p : Path) : Prop := ∀ stop ∈ p.stops.dropLast, stop.isSome

instance (p : Path) : Decidable p.ClosesLast := inferInstanceAs (Decidable (∀ stop ∈ _, _))

@[simp] theorem length_stops (p : Path) : p.stops.length = p.joins.length := List.length_map ..

theorem isCyclic_iff (p : Path) : p.isCyclic ↔ p.stops.getLast? = some none := by
  rw [isCyclic, stops, List.getLast?_map]
  cases p.joins.getLast? <;> simp

theorem knots_of_stops {p : Path} {zs : List Point} (h : p.stops = zs.map some) :
    p.knots = p.start :: zs := by
  have hfilter : p.joins.filterMap (·.stop) = p.stops.filterMap id := by
    rw [stops, List.filterMap_map]
    rfl
  rw [knots, hfilter, h, List.filterMap_map]
  simp

theorem exists_map_some {stops : List (Option Point)} (h : ∀ stop ∈ stops, stop.isSome) :
    ∃ zs : List Point, stops = zs.map some := by
  refine ⟨stops.filterMap id, ?_⟩
  rw [List.map_filterMap_some_eq_filter_map_isSome, List.filter_eq_self.mpr]
  · simp
  · simpa using h

/-- Without a join back to the start, every join has an end. -/
theorem ClosesLast.exists_stops {p : Path} (h : p.ClosesLast) (hp : p.isCyclic = false) :
    ∃ zs : List Point, p.stops = zs.map some := by
  apply exists_map_some
  rcases List.eq_nil_or_concat p.stops with hnil | ⟨stops, last, hlast⟩
  · simp [hnil]
  · have hsome : last.isSome := by
      rw [Bool.eq_false_iff, Ne, isCyclic_iff, hlast] at hp
      simpa [Option.isSome_iff_ne_none] using hp
    rw [ClosesLast, hlast, List.concat_eq_append, List.dropLast_concat] at h
    simpa [hlast, or_imp, forall_and, hsome] using h

/-- A cycle reversed ends where the joins began. -/
theorem reversed_of_isCyclic {p : Path} (h : p.isCyclic) :
    p.reversed = ⟨p.start, reversedJoins p.joins (p.stops.dropLast.reverse ++ [none])⟩ := by
  have hne : p.joins.isEmpty = false := by
    cases hjs : p.joins with
    | nil => simp [isCyclic, hjs] at h
    | cons j js => rfl
  rw [reversed, hne, if_neg Bool.false_ne_true, if_pos h, List.drop_one, List.tail_reverse,
    List.map_reverse, List.map_dropLast, stops]

/-- An open path reversed, by the knots it passes. -/
theorem reversed_of_stops {p : Path} {zs : List Point} (hne : p.joins ≠ [])
    (h : p.stops = zs.map some) :
    p.reversed =
      ⟨(p.start :: zs).getLastD p.start,
       reversedJoins p.joins ((p.start :: zs).dropLast.reverse.map some)⟩ := by
  have hopen : ¬ p.isCyclic := by
    rw [isCyclic_iff, h, List.getLast?_map]
    simp
  have hlength : p.joins.length = zs.length := by simpa using congrArg List.length h
  rw [reversed, if_neg (by simpa using hne), if_neg hopen, knots_of_stops h, hlength,
    List.dropLast_eq_take]
  rfl

theorem dropLast_stops_of_isCyclic {p : Path} (h : p.isCyclic) :
    p.stops.dropLast ++ [none] = p.stops := by
  obtain ⟨init, hinit⟩ := List.getLast?_eq_some_iff.mp ((isCyclic_iff p).mp h)
  rw [hinit, List.dropLast_concat]

theorem stops_reversed_of_isCyclic {p : Path} (h : p.isCyclic) :
    p.reversed.stops = p.stops.dropLast.reverse ++ [none] := by
  rw [reversed_of_isCyclic h]
  refine map_stop_reversedJoins ?_
  simpa using congrArg List.length (dropLast_stops_of_isCyclic h)

theorem stops_reversed_of_stops {p : Path} {zs : List Point} (hne : p.joins ≠ [])
    (h : p.stops = zs.map some) :
    p.reversed.stops = (p.start :: zs).dropLast.reverse.map some := by
  rw [reversed_of_stops hne h]
  refine map_stop_reversedJoins ?_
  simpa using (congrArg List.length h).symm

/-! ## twice -/

theorem reversed_reversed_of_isCyclic {p : Path} (h : p.isCyclic) : p.reversed.reversed = p := by
  have hstops := dropLast_stops_of_isCyclic h
  have hback := stops_reversed_of_isCyclic h
  have hlength : (p.stops.dropLast.reverse ++ [none]).length = p.joins.length := by
    simpa using congrArg List.length hstops
  have hcyclic : p.reversed.isCyclic := by
    rw [isCyclic_iff, hback]
    simp
  rw [reversed_of_isCyclic hcyclic, hback, List.dropLast_concat, List.reverse_reverse, hstops,
    reversed_of_isCyclic h]
  exact congrArg (Path.mk p.start) (reversedJoins_reversedJoins hlength rfl)

theorem reversed_reversed_of_stops {p : Path} {zs : List Point} (hne : p.joins ≠ [])
    (h : p.stops = zs.map some) : p.reversed.reversed = p := by
  have hback := stops_reversed_of_stops hne h
  have hlength : ((p.start :: zs).dropLast.reverse.map some).length = p.joins.length := by
    simpa using (congrArg List.length h).symm
  have hne' : p.reversed.joins ≠ [] := by
    rw [← List.length_pos_iff, ← length_stops, hback, hlength]
    exact List.length_pos_iff.mpr hne
  -- the knots come in the other order
  have hknots : p.reversed.start :: (p.start :: zs).dropLast.reverse = zs.reverse ++ [p.start] := by
    rw [reversed_of_stops hne h, ← List.reverse_cons]
    rcases List.eq_nil_or_concat (p.start :: zs) with hnil | ⟨ws, w, hw⟩
    · cases hnil
    · simp [hw]
  rw [reversed_of_stops hne' hback, hknots, List.dropLast_concat, List.reverse_reverse,
    reversed_of_stops hne h, reversedJoins_reversedJoins hlength h.symm]
  simp

/-- A path that closes with its last join, if at all, reversed twice. -/
theorem reversed_reversed {p : Path} (h : p.ClosesLast) : p.reversed.reversed = p := by
  cases hp : p.isCyclic with
  | true => exact reversed_reversed_of_isCyclic hp
  | false =>
      obtain ⟨zs, hzs⟩ := h.exists_stops hp
      by_cases hne : p.joins = []
      · obtain ⟨z, js⟩ := p
        cases hne
        rfl
      · exact reversed_reversed_of_stops hne hzs

end Path

/-! ## paths that are read -/

theorem path_of_path? {text : String} {p : Path} (h : Operand.path? text.toList = some p) :
    Operand.path text = .ok p := by
  rw [Operand.path, h]

namespace Operand

/-- No join is read behind one that leads back to the start. -/
theorem closesLast_of_joins {cs : List Char} {js : List Join} (h : joins? cs = some js) :
    ∀ stop ∈ (js.map (·.stop)).dropLast, stop.isSome := by
  induction cs using joins?.induct generalizing js with
  | case1 cs hseek =>
      rw [joins?, hseek] at h
      cases h
      simp
  | case2 cs skipped t rest hseek hread =>
      rw [joins?, hseek] at h
      simp [hread] at h
  | case3 cs skipped t rest hseek j hread hclosed =>
      rw [joins?, hseek] at h
      simp only [hread, hclosed, if_true, Option.some.injEq] at h
      simp [← h]
  | case4 cs skipped t rest hseek j hread hopen ih =>
      rw [joins?, hseek] at h
      simp only [hread, hopen, Bool.false_eq_true, if_false, Option.map_eq_some_iff] at h
      obtain ⟨ks, hks, rfl⟩ := h
      have hj : j.stop.isSome := by simpa [Option.isSome_iff_ne_none] using hopen
      cases ks with
      | nil => simp
      | cons k ks => simpa [hj] using ih hks

theorem closesLast_of_path {text : String} {p : Path} (h : Operand.path text = .ok p) :
    p.ClosesLast := by
  unfold Operand.path at h
  split at h
  next q hq =>
    cases h
    simp only [path?, Option.bind_eq_bind, Option.bind_eq_some_iff, Option.pure_def,
      Option.some.injEq, Prod.exists] at hq
    obtain ⟨_, _, _, -, start, -, js, hjs, rfl⟩ := hq
    exact closesLast_of_joins hjs
  · cases h

end Operand

end FontTrace
