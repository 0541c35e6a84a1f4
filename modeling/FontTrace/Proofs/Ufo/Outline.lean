import FontTrace.Engine.Basic
import FontTrace.Proofs.Font.Distinct
import FontTrace.Ufo

/-!
# FontTrace.Proofs.Ufo.Outline

Outlines as typed points.  The types say which points lie on the curve, where an open
contour begins and which segments are curved, so a reader who sees nothing else has the
contour back.

* `getElem?_contour` — the point of a node follows from the node and the one before it;
* `showsContour` — the points of a contour show all of it;
* `showsGlyphs` — every glyph that can be named is there once, with its contours in order;
* `outlines_kept` — both, for every finished font.
-/

namespace FontTrace

variable {σ : Type}

namespace Ufo

/-! ## what typed points say -/

/-- The place before a place of a list of `n`, which before the first one is the last. -/
def placeBefore (n i : Nat) : Nat := (i + n - 1) % n

/-- The contour that a reader makes of typed points: a point lies on the curve unless it
is a control point, and the contour is closed unless it starts with a move. -/
def readContour (points : List ContourPoint) : Contour where
  nodes := points.map fun p => ⟨p.pos, p.type != .offCurve⟩
  closed := points.head?.all (·.type != .move)

/-- Typed points show a contour. -/
structure ShowsContour (points : List ContourPoint) (c : Contour) : Prop where
  /-- They stand where the nodes stand, in the same order. -/
  positions : points.map (·.pos) = c.nodes.map (·.pos)
  /-- From the types alone the contour comes back. -/
  recovered : readContour points = c
  /-- A node is on the curve exactly if its point is no control point. -/
  onCurve : ∀ {i : Nat} {n : Node} {p : ContourPoint}, c.nodes[i]? = some n →
    points[i]? = some p → (n.onCurve = true ↔ p.type ≠ .offCurve)
  /-- The contour is open exactly if the first point is a move. -/
  opened : c.closed = false ↔ ∃ p, points[0]? = some p ∧ p.type = .move
  /-- No other point is one. -/
  move : ∀ {i : Nat} {p : ContourPoint}, points[i]? = some p → p.type = .move → i = 0
  /-- Any other point on the curve ends a curve exactly if a control point is before it. -/
  curve : ∀ {i : Nat} {n before : Node} {p : ContourPoint}, c.nodes[i]? = some n →
    c.nodes[placeBefore c.nodes.length i]? = some before → points[i]? = some p →
    n.onCurve = true → p.type ≠ .move → (p.type = .curve ↔ before.onCurve = false)
  /-- No straight segment comes directly behind a control point. -/
  line : ∀ {i : Nat} {p before : ContourPoint}, points[i]? = some p →
    points[placeBefore points.length i]? = some before → before.type = .offCurve →
    p.type ≠ .line

/-- A font shows the glyphs of another one. -/
structure ShowsGlyphs (u : UfoFont) (f : Font) : Prop where
  /-- No name is there twice. -/
  names : (u.glyphs.map (·.name)).Nodup
  /-- One glyph for every glyph whose name is one, and one contour for every contour with
  nodes, in order. -/
  glyphs : (u.glyphs.map fun g => (g.name, g.contours)).Perm
    ((f.glyphs.filter fun g => isName g.name).map fun g =>
      (g.name, (g.outline.filter fun c => !c.nodes.isEmpty).map contour))

/-! ## the point of a node -/

section Places

variable {n i : Nat}

theorem placeBefore_zero (n : Nat) : placeBefore n 0 = n - 1 := by
  rcases Nat.eq_zero_or_pos n with rfl | hn
  · rfl
  · rw [placeBefore, Nat.zero_add, Nat.mod_eq_of_lt (Nat.sub_lt hn Nat.zero_lt_one)]

theorem placeBefore_succ (h : i + 1 < n) : placeBefore n (i + 1) = i := by
  have hsum : i + 1 + n - 1 = i + n := by omega
  rw [placeBefore, hsum, Nat.add_mod_right, Nat.mod_eq_of_lt (Nat.lt_of_succ_lt h)]

end Places

theorem typeAfter_eq_offCurve_iff {before n : Node} :
    typeAfter before n = .offCurve ↔ n.onCurve = false := by
  unfold typeAfter
  cases n.onCurve <;> cases before.onCurve <;> simp

theorem typeAfter_ne_move (before n : Node) : typeAfter before n ≠ .move := by
  unfold typeAfter
  cases n.onCurve <;> cases before.onCurve <;> simp

theorem typeAfter_eq_curve_iff {before n : Node} (h : n.onCurve = true) :
    typeAfter before n = .curve ↔ before.onCurve = false := by
  unfold typeAfter
  cases before.onCurve <;> simp [h]

theorem getElem?_pointsAfter {nodes : List Node} {first n before : Node} {i : Nat}
    (hn : nodes[i]? = some n) (hbefore : (first :: nodes)[i]? = some before) :
    (pointsAfter first nodes)[i]? = some ⟨n.pos, typeAfter before n⟩ := by
  induction nodes generalizing first i with
  | nil => simp at hn
  | cons m nodes ih =>
      cases i with
      | zero =>
          obtain rfl : m = n := by simpa using hn
          obtain rfl : first = before := by simpa using hbefore
          rfl
      | succ i => exact ih hn hbefore

/-- The first point of a closed contour goes on from the last one, also if that is the
same. -/
theorem firstType_closed {first before : Node} {rest : List Node}
    (h : (first :: rest).getLast? = some before) :
    firstType true first rest = typeAfter before first := by
  cases rest with
  | nil =>
      obtain rfl : first = before := by simpa using h
      unfold firstType typeAfter
      cases first.onCurve <;> rfl
  | cons second rest =>
      have hlast : (second :: rest).getLast? = some before := by
        rw [← h, List.getLast?_cons_cons]
      unfold firstType typeAfter
      rw [hlast]
      cases first.onCurve <;> rfl

/-- The type of a node, from the node before it. -/
def typeAt (closed : Bool) (i : Nat) (before n : Node) : PointType :=
  if closed = false ∧ i = 0 ∧ n.onCurve = true then .move else typeAfter before n

/-- The point of a node follows from the node and the one before it. -/
theorem getElem?_contour {c : Contour} {i : Nat} {n before : Node} (hn : c.nodes[i]? = some n)
    (hbefore : c.nodes[placeBefore c.nodes.length i]? = some before) :
    (contour c)[i]? = some ⟨n.pos, typeAt c.closed i before n⟩ := by
  obtain ⟨nodes, closed⟩ := c
  cases nodes with
  | nil => simp at hn
  | cons first rest =>
      cases i with
      | succ i =>
          have hi : i + 1 < (first :: rest).length := (List.getElem?_eq_some_iff.mp hn).1
          rw [placeBefore_succ hi] at hbefore
          have htype : typeAt closed (i + 1) before n = typeAfter before n := by simp [typeAt]
          rw [htype]
          exact getElem?_pointsAfter hn hbefore
      | zero =>
          obtain rfl : first = n := by simpa using hn
          rw [placeBefore_zero, ← List.getLast?_eq_getElem?] at hbefore
          have htype : firstType closed first rest = typeAt closed 0 before first := by
            cases closed with
            | true => simp [firstType_closed hbefore, typeAt]
            | false => cases honCurve : first.onCurve <;>
                simp [firstType, typeAt, typeAfter, honCurve]
          rw [← htype]
          rfl

/-! ## contours -/

section Contours

variable {c : Contour} {i : Nat}

/-- The contour starts on the curve if it is open. -/
def StartsOnCurve (c : Contour) : Prop :=
  c.closed = false → ∃ n, c.nodes.head? = some n ∧ n.onCurve = true

theorem length_pointsAfter (first : Node) (nodes : List Node) :
    (pointsAfter first nodes).length = nodes.length := by
  induction nodes generalizing first with
  | nil => rfl
  | cons n nodes ih => simp [pointsAfter, ih]

@[simp] theorem length_contour (c : Contour) : (contour c).length = c.nodes.length := by
  obtain ⟨nodes, closed⟩ := c
  cases nodes with
  | nil => rfl
  | cons first rest => simp [contour, length_pointsAfter]

/-- Every point is that of a node, which has one before it. -/
theorem exists_nodes_of_getElem?_contour {p : ContourPoint} (h : (contour c)[i]? = some p) :
    ∃ n before : Node, c.nodes[i]? = some n ∧
      c.nodes[placeBefore c.nodes.length i]? = some before ∧
      p = ⟨n.pos, typeAt c.closed i before n⟩ := by
  have hi : i < c.nodes.length := by simpa using (List.getElem?_eq_some_iff.mp h).1
  have hbefore : placeBefore c.nodes.length i < c.nodes.length :=
    Nat.mod_lt _ (Nat.zero_lt_of_lt hi)
  refine ⟨c.nodes[i], c.nodes[placeBefore c.nodes.length i], List.getElem?_eq_getElem hi,
    List.getElem?_eq_getElem hbefore, ?_⟩
  rw [getElem?_contour (List.getElem?_eq_getElem hi) (List.getElem?_eq_getElem hbefore)] at h
  exact (Option.some.inj h).symm

theorem typeAt_eq_offCurve_iff {closed : Bool} {before n : Node} :
    typeAt closed i before n = .offCurve ↔ n.onCurve = false := by
  unfold typeAt
  split
  · next h => simp [h.2.2]
  · exact typeAfter_eq_offCurve_iff

theorem typeAt_eq_move_iff {closed : Bool} {before n : Node} :
    typeAt closed i before n = .move ↔ closed = false ∧ i = 0 ∧ n.onCurve = true := by
  unfold typeAt
  split
  · next h => simpa using h
  · next h => simpa [typeAfter_ne_move] using h

/-- Nodes come back from the types, in the contour as in the reader's. -/
theorem nodes_readContour (c : Contour) : (readContour (contour c)).nodes = c.nodes := by
  refine List.ext_getElem? fun i => ?_
  rw [readContour, List.getElem?_map]
  cases hp : (contour c)[i]? with
  | none =>
      have hi : c.nodes.length ≤ i := by simpa using List.getElem?_eq_none_iff.mp hp
      exact (List.getElem?_eq_none hi).symm
  | some p =>
      obtain ⟨n, before, hn, -, rfl⟩ := exists_nodes_of_getElem?_contour hp
      have htype : (typeAt c.closed i before n != .offCurve) = n.onCurve := by
        rw [Bool.eq_iff_iff, bne_iff_ne, Ne, typeAt_eq_offCurve_iff, Bool.not_eq_false]
      rw [hn, Option.map_some, htype]

/-- The first point is a move exactly if the contour is open. -/
theorem opened_contour (hne : c.nodes ≠ []) (hstart : StartsOnCurve c) :
    c.closed = false ↔ ∃ p, (contour c)[0]? = some p ∧ p.type = .move := by
  obtain ⟨p, hp⟩ : ∃ p, (contour c)[0]? = some p := by
    have hlength : 0 < (contour c).length := by
      rw [length_contour]
      exact List.length_pos_iff.mpr hne
    exact ⟨_, List.getElem?_eq_getElem hlength⟩
  obtain ⟨n, before, hn, -, rfl⟩ := exists_nodes_of_getElem?_contour hp
  have hmove : typeAt c.closed 0 before n = .move ↔ c.closed = false ∧ 0 = 0 ∧ n.onCurve = true :=
    typeAt_eq_move_iff
  constructor
  · intro hopen
    obtain ⟨first, hfirst, honCurve⟩ := hstart hopen
    obtain rfl : first = n := Option.some.inj (hfirst.symm.trans (List.head?_eq_getElem? ▸ hn))
    exact ⟨_, hp, hmove.mpr ⟨hopen, rfl, honCurve⟩⟩
  · intro ⟨q, hq, htype⟩
    obtain rfl := Option.some.inj (hp.symm.trans hq)
    exact (hmove.mp htype).1

/-- The points of a contour show all of it. -/
theorem showsContour (hne : c.nodes ≠ []) (hstart : StartsOnCurve c) :
    ShowsContour (contour c) c where
  positions := by
    have hnodes := congrArg (List.map Node.pos) (nodes_readContour c)
    rwa [readContour, List.map_map] at hnodes
  recovered := by
    have hclosed : (readContour (contour c)).closed = c.closed := by
      have hopened := opened_contour hne hstart
      rw [readContour, List.head?_eq_getElem?]
      cases hp : (contour c)[0]? with
      | none => simp [hp] at hopened; simp [hopened]
      | some p =>
          rw [hp] at hopened
          rw [Option.all_some, Bool.eq_iff_iff, bne_iff_ne, Ne, ← Bool.not_eq_false, hopened]
          simp
    calc readContour (contour c)
        = ⟨(readContour (contour c)).nodes, (readContour (contour c)).closed⟩ := rfl
      _ = c := by rw [nodes_readContour, hclosed]
  onCurve hn hp := by
    obtain ⟨m, before, hm, -, rfl⟩ := exists_nodes_of_getElem?_contour hp
    obtain rfl := Option.some.inj (hn.symm.trans hm)
    rw [Ne, typeAt_eq_offCurve_iff, Bool.not_eq_false]
  opened := opened_contour hne hstart
  move hp htype := by
    obtain ⟨n, before, -, -, rfl⟩ := exists_nodes_of_getElem?_contour hp
    exact (typeAt_eq_move_iff.mp htype).2.1
  curve {i n before p} hn hbefore hp honCurve hmove := by
    obtain rfl := Option.some.inj (hp.symm.trans (getElem?_contour hn hbefore))
    have htype : typeAt c.closed i before n = typeAfter before n :=
      if_neg fun h => hmove (if_pos h)
    rw [htype]
    exact typeAfter_eq_curve_iff honCurve
  line {i p before} hp hbefore hoff := by
    obtain ⟨n, m, hn, hm, rfl⟩ := exists_nodes_of_getElem?_contour hp
    rw [length_contour] at hbefore
    obtain ⟨m', m'', hm', -, rfl⟩ := exists_nodes_of_getElem?_contour hbefore
    obtain rfl := Option.some.inj (hm.symm.trans hm')
    have hcontrol : m.onCurve = false := typeAt_eq_offCurve_iff.mp hoff
    show typeAt c.closed i m n ≠ .line
    unfold typeAt typeAfter
    rw [hcontrol]
    cases n.onCurve <;> split <;> simp

end Contours

/-! ## glyphs -/

section Glyphs

variable {f : Font}

theorem value_filterMapM {α β : Type} (pick : α → Noted (Option β)) (as : List α) :
    (as.filterMapM pick).value = as.filterMap fun a => (pick a).value := by
  have hgo : ∀ found, (List.filterMapM.loop pick as found).value =
      found.reverse ++ as.filterMap fun a => (pick a).value := by
    induction as with
    | nil => intro found; simp [List.filterMapM.loop]
    | cons a as ih =>
        intro found
        rw [List.filterMapM.loop, Noted.value_bind]
        cases hpick : (pick a).value with
        | none => simp [hpick, ih]
        | some b => simp [hpick, ih]
  exact hgo []

/-- A glyph is left out only if it cannot be named. -/
theorem glyph?_eq (g : Glyph) :
    (glyph? g).value.map (fun x => (x.name, x.contours)) =
      if isName g.name then
        some (g.name, (g.outline.filter fun c => !c.nodes.isEmpty).map contour)
      else none := by
  unfold glyph?
  split <;> rfl

theorem put_of_not_mem {t : Table String UfoGlyph} {name : String} (h : name ∉ Table.names t)
    (g : UfoGlyph) : Table.put t name g = t ++ [(name, g)] := by
  induction t with
  | nil => rfl
  | cons entry t ih =>
      obtain ⟨name', g'⟩ := entry
      rw [Table.names, List.map_cons, List.mem_cons, not_or] at h
      rw [Table.put, if_neg (Ne.symm h.1), ih h.2]
      rfl

/-- Glyphs with different names all stay. -/
theorem byName_perm {glyphs : List UfoGlyph} (h : (glyphs.map (·.name)).Nodup) :
    (byName glyphs).Perm glyphs := by
  have htable : ∀ t : Table String UfoGlyph, (Table.names t ++ glyphs.map (·.name)).Nodup →
      (glyphs.foldl (fun t g => Table.put t g.name g) t).map (·.2) = t.map (·.2) ++ glyphs := by
    clear h
    induction glyphs with
    | nil => simp
    | cons g glyphs ih =>
        intro t hnodup
        have hnew : g.name ∉ Table.names t := by
          intro hmem
          exact (List.nodup_append.mp hnodup).2.2 _ hmem _ (by simp) rfl
        rw [List.foldl_cons, ih, put_of_not_mem hnew]
        · simp
        · rw [put_of_not_mem hnew]
          simpa [Table.names] using hnodup
  have hglyphs := htable [] (by simpa [Table.names] using h)
  rw [List.map_nil, List.nil_append] at hglyphs
  unfold byName
  dsimp only
  rw [hglyphs]
  exact List.mergeSort_perm _ _

/-- The glyphs that can be named, in the order of the font. -/
theorem map_filterMap_glyph? (glyphs : List Glyph) :
    (glyphs.filterMap fun g => (glyph? g).value).map (fun x => (x.name, x.contours)) =
      (glyphs.filter fun g => isName g.name).map fun g =>
        (g.name, (g.outline.filter fun c => !c.nodes.isEmpty).map contour) := by
  rw [List.map_filterMap, ← List.filterMap_eq_map, List.filterMap_filter]
  refine List.filterMap_congr fun g _ => ?_
  rw [glyph?_eq]
  rfl

/-- Every glyph that can be named is shown once. -/
theorem showsGlyphs (h : (f.glyphs.map (·.name)).Nodup) : ShowsGlyphs (ofFont f).value f := by
  have hofFont : (ofFont f).value.glyphs =
      byName (f.glyphs.filterMap fun g => (glyph? g).value) := by
    rw [← value_filterMapM]
    rfl
  have hshown := map_filterMap_glyph? f.glyphs
  have hnames : ((f.glyphs.filterMap fun g => (glyph? g).value).map (·.name)).Nodup := by
    have hfst := congrArg (List.map Prod.fst) hshown
    rw [List.map_map, List.map_map] at hfst
    have hkept : ((f.glyphs.filter fun g => isName g.name).map (·.name)).Nodup :=
      h.sublist (List.filter_sublist.map _)
    exact hfst ▸ hkept
  have hperm := byName_perm hnames
  rw [← hofFont] at hperm
  exact ⟨(hperm.map _).nodup_iff.mpr hnames, hshown ▸ hperm.map _⟩

end Glyphs

/-! ## finished fonts -/

/-- No outline is lost: typed points show every contour with nodes, and a finished font
shows every glyph that can be named, with all its contours. -/
theorem outlines_kept (e : Engine σ) (engine : σ) (cfg : Settings) (encoding : Encoding)
    (records : List Record) :
    (∀ c : Contour, c.nodes ≠ [] → StartsOnCurve c → ShowsContour (contour c) c) ∧
    ShowsGlyphs (ofFont (fontOf e engine cfg encoding records).value).value
      (fontOf e engine cfg encoding records).value :=
  ⟨fun _ => showsContour,
    showsGlyphs (distinct_finish e cfg
      (distinct_follow e engine cfg encoding (Script.ofRecords records))).glyphs⟩

/-- A triangle with a curve as its last side, which ends on the first point. -/
def curvedTriangle : Contour :=
  ⟨[.on ⟨0, 0⟩, .on ⟨10, 0⟩, .on ⟨10, 10⟩, .off ⟨7, 7⟩, .off ⟨3, 3⟩], true⟩

theorem outlines_kept_of_curvedTriangle :
    curvedTriangle.nodes ≠ [] ∧ StartsOnCurve curvedTriangle ∧
    (contour curvedTriangle).map (·.type) = [.curve, .line, .line, .offCurve, .offCurve] ∧
    readContour (contour curvedTriangle) = curvedTriangle := by
  have hne : curvedTriangle.nodes ≠ [] := List.cons_ne_nil _ _
  have hstart : StartsOnCurve curvedTriangle := fun hopen => absurd hopen (by decide)
  have hkept := outlines_kept Engine.basic () {} .unicode []
  exact ⟨hne, hstart, by decide, (hkept.1 curvedTriangle hne hstart).recovered⟩

end Ufo

end FontTrace
