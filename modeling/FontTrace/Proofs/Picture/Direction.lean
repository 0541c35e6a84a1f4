import FontTrace.Proofs.Geometry.Turning
import FontTrace.Proofs.Number.Ranking
import FontTrace.Proofs.Picture.Edits
import FontTrace.Replay.Points
import Mathlib.Data.Prod.Lex
import Mathlib.Order.WithBot

/-!
# FontTrace.Proofs.Picture.Direction

Contours in the order of a direction.  Closed contours start with their first node on the curve
in that direction, and the order of contours at the same distance is the order they had; so a
second time there is nothing left to do.

* `Contour.IsFirstToward` — the first point of a contour on the curve in a direction;
* `Contour.turnedToward_cases` — what becomes of a contour, and `turnedToward_turnedToward`;
* `ComesBefore` — which of two contours comes first, and `ComesBefore.not_lt`;
* `exists_order_sortedToward`, `sortedToward_sortedToward` — contours that are sorted, and
  sorted once more;
* `sortDirection_keeps_picture` — what becomes of the picture.
-/

namespace FontTrace

/-! ## keys in order -/

/-- Keys are compared from the front. -/
def DirectionKey.lex (k : DirectionKey) : Int ×ₗ Int ×ₗ Int :=
  toLex (k.distance, toLex (k.height, k.right))

theorem DirectionKey.le_iff (a b : DirectionKey) : a.le b = true ↔ a.lex ≤ b.lex := by
  simp [DirectionKey.le, lex, Prod.Lex.toLex_le_toLex]

section Toward

variable (sin cos : Float)

namespace Contour

variable {sin cos} {c d : Contour} {p q : Point}

/-! ## the first point of a contour -/

/-- The first point of a contour on the curve in a direction. -/
structure IsFirstToward (sin cos : Float) (c : Contour) (p : Point) : Prop where
  mem : .on p ∈ c.nodes
  le : ∀ q, .on q ∈ c.nodes → (directionKey sin cos p).lex ≤ (directionKey sin cos q).lex

/-- All nodes of a contour are control points. -/
def IsOffCurve (c : Contour) : Prop := ∀ p, .on p ∉ c.nodes

theorem IsFirstToward.of_turned (h : Turned c d) (hp : c.IsFirstToward sin cos p) :
    d.IsFirstToward sin cos p :=
  ⟨h.mem_iff.mpr hp.mem, fun q hq => hp.le q (h.mem_iff.mp hq)⟩

theorem IsFirstToward.distance_eq (hp : c.IsFirstToward sin cos p)
    (hq : c.IsFirstToward sin cos q) :
    (directionKey sin cos p).distance = (directionKey sin cos q).distance :=
  congrArg (fun k => (ofLex k).1) (le_antisymm (hp.le q hq.mem) (hq.le p hp.mem))

theorem firstInDirection?_eq (c : Contour) : firstInDirection? sin cos c =
    leastBy? (fun a b => DirectionKey.le a.1 b.1) (c.measured (directionKey sin cos)) := rfl

/-- A contour starts with its first point in the direction, or has no node on the curve. -/
theorem turnedToward_cases (sin cos : Float) (c : Contour) :
    (∃ p i, c.IsFirstToward sin cos p ∧ c.nodes[i]? = some (.on p) ∧
      turnedToward sin cos c = (some (directionKey sin cos p).distance, c.startingAt i)) ∨
    (c.IsOffCurve ∧ turnedToward sin cos c = (none, c)) := by
  unfold turnedToward
  cases hfound : firstInDirection? sin cos c with
  | none =>
      rw [firstInDirection?_eq] at hfound
      exact .inr ⟨fun p => not_mem_of_measured hfound, rfl⟩
  | some found =>
      obtain ⟨_, i⟩ := found
      rw [firstInDirection?_eq] at hfound
      obtain ⟨p, hp, rfl, hle⟩ := least_of_measured DirectionKey.le_iff hfound
      exact .inl ⟨p, i, ⟨List.mem_of_getElem? hp, hle⟩, hp, rfl⟩

theorem turned_turnedToward (c : Contour) : Turned c (turnedToward sin cos c).2 := by
  rcases turnedToward_cases sin cos c with ⟨p, i, -, -, h⟩ | ⟨-, h⟩
  · rw [h]
    exact turned_startingAt c i
  · rw [h]
    exact .refl c

/-- Where a closed contour starts that has points on the curve. -/
theorem head?_turnedToward (hclosed : c.closed = true) (hc : ¬c.IsOffCurve) :
    ∃ p, (turnedToward sin cos c).2.nodes.head? = some (.on p) ∧
      (turnedToward sin cos c).2.IsFirstToward sin cos p := by
  rcases turnedToward_cases sin cos c with ⟨p, i, hp, hi, h⟩ | ⟨hoff, -⟩
  · rw [h]
    exact ⟨p, head?_startingAt hclosed hi, hp.of_turned (turned_startingAt c i)⟩
  · exact absurd hoff hc

/-- A contour that starts with its first point in the direction stays as it is. -/
theorem turnedToward_of_head? (hhead : c.nodes.head? = some (.on p))
    (hp : c.IsFirstToward sin cos p) :
    turnedToward sin cos c = (some (directionKey sin cos p).distance, c) := by
  obtain ⟨rest, hnodes⟩ := List.head?_eq_some_iff.mp hhead
  obtain ⟨behind, hmeasured⟩ : ∃ behind,
      c.measured (directionKey sin cos) = (directionKey sin cos p, 0) :: behind := by
    rw [measured, hnodes]
    exact ⟨_, rfl⟩
  have hfirst : firstInDirection? sin cos c = some (directionKey sin cos p, 0) := by
    rw [firstInDirection?_eq, hmeasured]
    refine leastBy?_cons_of_le fun x hx => ?_
    obtain ⟨key, i⟩ := x
    have hmem : (key, i) ∈ c.measured (directionKey sin cos) := by
      rw [hmeasured]
      exact List.mem_cons_of_mem _ hx
    obtain ⟨q, hq, rfl⟩ := mem_measured.mp hmem
    exact (DirectionKey.le_iff _ _).mpr (hp.le q (List.mem_of_getElem? hq))
  rw [turnedToward, hfirst]
  show (_, c.startingAt 0) = _
  rw [startingAt_zero]

/-- A second time there is nothing left to do. -/
theorem turnedToward_turnedToward (sin cos : Float) (c : Contour) :
    turnedToward sin cos (turnedToward sin cos c).2 = turnedToward sin cos c := by
  rcases turnedToward_cases sin cos c with ⟨p, i, hp, hi, h⟩ | ⟨-, h⟩
  · cases hclosed : c.closed with
    | true =>
        rw [h]
        exact turnedToward_of_head? (head?_startingAt hclosed hi)
          (hp.of_turned (turned_startingAt c i))
    | false => rw [(turned_turnedToward c).eq_of_open hclosed]
  · rw [h]
    exact h

end Contour

/-! ## the order of contours -/

open Contour

variable {sin cos}

/-- Which of two contours comes first, each with the place where it stood: the one that is
nearer, and if they are level the one that stood before the other.  Contours without nodes on
the curve come last. -/
inductive ComesBefore (sin cos : Float) (x y : Contour × Nat) : Prop
  | nearer {p q : Point} (hx : x.1.IsFirstToward sin cos p) (hy : y.1.IsFirstToward sin cos q)
      (h : (directionKey sin cos p).distance < (directionKey sin cos q).distance)
  | level {p q : Point} (hx : x.1.IsFirstToward sin cos p) (hy : y.1.IsFirstToward sin cos q)
      (h : (directionKey sin cos p).distance = (directionKey sin cos q).distance)
      (hplace : x.2 < y.2)
  | onCurve {p : Point} (hx : x.1.IsFirstToward sin cos p) (hy : y.1.IsOffCurve)
  | offCurve (hx : x.1.IsOffCurve) (hy : y.1.IsOffCurve) (hplace : x.2 < y.2)

/-- No contour comes behind one that is farther away. -/
theorem ComesBefore.not_lt {x y : Contour × Nat} {p q : Point} (h : ComesBefore sin cos x y)
    (hp : x.1.IsFirstToward sin cos p) (hq : y.1.IsFirstToward sin cos q) :
    ¬sin * q.x + cos * q.y < sin * p.x + cos * p.y := by
  intro hlt
  have hkey : (directionKey sin cos q).distance < (directionKey sin cos p).distance :=
    totalKey_lt_of_lt hlt
  cases h with
  | nearer hp' hq' h =>
      rw [hp.distance_eq hp', hq.distance_eq hq'] at hkey
      exact absurd h hkey.not_gt
  | level hp' hq' h _ =>
      rw [hp.distance_eq hp', hq.distance_eq hq', h] at hkey
      exact absurd hkey (Int.lt_irrefl _)
  | onCurve _ hoff => exact hoff q hq.mem
  | offCurve hoff _ _ => exact hoff p hp.mem

/-- What the contours are sorted by; those without a node on the curve are behind all others. -/
def distanceKey (x : Option Int × Contour) : WithTop Int :=
  match x.1 with
  | some distance => distance
  | none => ⊤

theorem distanceLe_iff {x y : Option Int × Contour} :
    distanceLe x y = true ↔ distanceKey x ≤ distanceKey y := by
  unfold distanceLe distanceKey
  cases x.1 with
  | none =>
      cases y.1 with
      | none => exact iff_of_true rfl le_rfl
      | some d => exact iff_of_false Bool.false_ne_true (by simp)
  | some d =>
      cases y.1 with
      | none => exact iff_of_true rfl le_top
      | some d' => rw [WithTop.coe_le_coe]; exact decide_eq_true_iff

theorem distanceLe_trans (x y z : Option Int × Contour) (h : distanceLe x y = true)
    (h' : distanceLe y z = true) : distanceLe x z = true :=
  distanceLe_iff.mpr ((distanceLe_iff.mp h).trans (distanceLe_iff.mp h'))

theorem distanceLe_total (x y : Option Int × Contour) :
    (distanceLe x y || distanceLe y x) = true := by
  rw [Bool.or_eq_true, distanceLe_iff, distanceLe_iff]
  exact le_total _ _

/-- Sorted contours come one before the other. -/
theorem comesBefore_of_zipIdxLE {x y : Contour × Nat} (hplace : x.2 ≠ y.2)
    (h : List.zipIdxLE distanceLe (turnedToward sin cos x.1, x.2)
      (turnedToward sin cos y.1, y.2) = true) : ComesBefore sin cos x y := by
  have hlt (hle : decide (x.2 ≤ y.2) = true) : x.2 < y.2 :=
    lt_of_le_of_ne (of_decide_eq_true hle) hplace
  unfold List.zipIdxLE at h
  dsimp only at h
  rcases turnedToward_cases sin cos x.1 with ⟨p, i, hp, -, hx⟩ | ⟨hoff, hx⟩
  · rcases turnedToward_cases sin cos y.1 with ⟨q, j, hq, -, hy⟩ | ⟨hoff', hy⟩
    · rw [hx, hy] at h
      split at h
      · next hle =>
        have hle := of_decide_eq_true hle
        split at h
        · next hge => exact .level hp hq (le_antisymm hle (of_decide_eq_true hge)) (hlt h)
        · next hge => exact .nearer hp hq (not_le.mp fun hge' => hge (decide_eq_true hge'))
      · cases h
    · exact .onCurve hp hoff'
  · rcases turnedToward_cases sin cos y.1 with ⟨q, j, hq, -, hy⟩ | ⟨hoff', hy⟩
    · rw [hx, hy] at h
      cases h
    · rw [hx, hy] at h
      exact .offCurve hoff hoff' (hlt h)

theorem exists_perm_of_map {α β : Type} {f : α → β} {xs : List α} {ys : List β}
    (h : ys.Perm (xs.map f)) : ∃ as : List α, as.Perm xs ∧ ys = as.map f := by
  have hcomp : Relation.Comp (List.Forall₂ fun a b => f a = b) List.Perm xs ys :=
    ⟨xs.map f, List.forall₂_map_right_iff.mpr (List.forall₂_same.mpr fun _ _ => rfl), h.symm⟩
  rw [List.forall₂_comp_perm_eq_perm_comp_forall₂] at hcomp
  obtain ⟨as, hperm, hmap⟩ := hcomp
  rw [← List.forall₂_map_left_iff, List.forall₂_eq_eq_eq] at hmap
  exact ⟨as, hperm.symm, hmap.symm⟩

/-- The contours of an outline one before the other, each made to start with its first point. -/
theorem exists_order_sortedToward (degrees : Float) (o : Outline) :
    ∃ order : List (Contour × Nat), order.Perm o.zipIdx ∧
      order.Pairwise (ComesBefore (radians degrees).sin (radians degrees).cos) ∧
      sortedToward degrees o =
        order.map fun x => (turnedToward (radians degrees).sin (radians degrees).cos x.1).2 := by
  set turn := turnedToward (radians degrees).sin (radians degrees).cos with hturn
  let sorted := (o.map turn).zipIdx.mergeSort (List.zipIdxLE distanceLe)
  have hresult : sortedToward degrees o = sorted.map fun x => x.1.2 := by
    have hstable : sorted.map (·.1) = (o.map turn).mergeSort distanceLe := List.mergeSort_zipIdx
    rw [sortedToward, ← hturn, ← hstable, List.map_map]
    rfl
  have hperm : sorted.Perm (o.zipIdx.map (Prod.map turn id)) := by
    rw [← List.zipIdx_map]
    exact List.mergeSort_perm _ _
  obtain ⟨order, horder, hsorted⟩ := exists_perm_of_map hperm
  have hplaces : order.Pairwise fun x y => x.2 ≠ y.2 := by
    have hnodup : (order.map Prod.snd).Nodup :=
      (horder.map Prod.snd).nodup_iff.mpr (List.nodup_zipIdx_map_snd o)
    exact List.pairwise_map.mp hnodup
  have hpairwise := List.pairwise_mergeSort (List.zipIdxLE_trans distanceLe_trans)
    (List.zipIdxLE_total distanceLe_total) (o.map turn).zipIdx
  change sorted.Pairwise _ at hpairwise
  rw [hsorted, List.pairwise_map] at hpairwise
  refine ⟨order, horder, ?_, ?_⟩
  · exact (hpairwise.and hplaces).imp fun h => comesBefore_of_zipIdxLE h.2 h.1
  · rw [hresult, hsorted, List.map_map]
    rfl

/-- Sorting contours that are sorted changes nothing. -/
theorem sortedToward_sortedToward (degrees : Float) (o : Outline) :
    sortedToward degrees (sortedToward degrees o) = sortedToward degrees o := by
  set turn := turnedToward (radians degrees).sin (radians degrees).cos with hturn
  let sorted := (o.map turn).mergeSort distanceLe
  have hsorted : sorted.Pairwise fun x y => distanceLe x y = true :=
    List.pairwise_mergeSort distanceLe_trans distanceLe_total _
  have hturned : (sorted.map (·.2)).map turn = sorted := by
    rw [List.map_map]
    refine (List.map_congr_left fun x hx => ?_).trans (List.map_id sorted)
    obtain ⟨c, -, rfl⟩ := List.mem_map.mp ((List.mergeSort_perm _ _).mem_iff.mp hx)
    exact turnedToward_turnedToward _ _ c
  show ((((sorted.map (·.2)).map turn).mergeSort distanceLe).map (·.2)) = sorted.map (·.2)
  rw [hturned, List.mergeSort_of_pairwise hsorted]

end Toward

/-! ## the picture -/

open Contour

variable {σ : Type}

theorem PictureEdit.readEdit_sortDirection {r : Record} {angle : String} {degrees : Float}
    (hangle : Operand.number angle = .ok degrees) :
    readEdit .sortDirection r [angle] = .ok (.sortToward degrees) := by
  simp only [readEdit, oneOperand, bind, Except.bind, hangle, orMalformed]
  rfl

/-- What becomes of the picture.  Its contours come one before the other in the direction, each
of them as it was but for where a closed one starts, which is with its first point; everything
else stays, and doing it again changes nothing. -/
theorem sortDirection_keeps_picture (e : Engine σ) {cfg : Settings} {s : State σ} {r : Record}
    {picture angle : String} {degrees : Float} {p : Picture}
    (henabled : cfg.enables .outline = true) (hop : r.op = .outline .sortDirection)
    (hfields : r.fields = [picture, angle]) (hangle : Operand.number angle = .ok degrees)
    (hp : Pictures.get s.pictures (pictureName picture) = .ok p) :
    ∃ (order : List (Contour × Nat)) (outline : Outline) (s' : State σ),
      order.Perm p.outline.zipIdx ∧
      order.Pairwise (ComesBefore (radians degrees).sin (radians degrees).cos) ∧
      List.Forall₂ (fun x c => Turned x.1 c ∧
        (c.closed = true → ¬c.IsOffCurve → ∃ first, c.nodes.head? = some (.on first) ∧
          c.IsFirstToward (radians degrees).sin (radians degrees).cos first)) order outline ∧
      s' = s.withPictures
        (Table.put s.pictures (pictureName picture) { p with outline := outline }) ∧
      (∀ other, other ≠ pictureName picture →
        Pictures.get s'.pictures other = Pictures.get s.pictures other) ∧
      (∀ c, (State.step e cfg s (Script.construct r c).1).value = s') ∧
      ∀ c, (State.step e cfg s' (Script.construct r c).1).value = s' := by
  obtain ⟨order, horder, hpairwise, houtline⟩ := exists_order_sortedToward degrees p.outline
  have hread := PictureEdit.read_of_fields hfields (PictureEdit.readEdit_sortDirection hangle)
  let sorted : Picture := { p with outline := sortedToward degrees p.outline }
  let s' := s.withPictures (Table.put s.pictures (pictureName picture) sorted)
  have hsorted : Pictures.get s'.pictures (pictureName picture) = .ok sorted := by
    show Pictures.get (Table.put _ _ _) _ = _
    rw [Pictures.get_put, if_pos rfl]
  refine ⟨order, sorted.outline, s', horder, hpairwise, ?_, rfl, fun other hother => ?_,
    fun c => ?_, fun c => ?_⟩
  · rw [show sorted.outline = _ from houtline, List.forall₂_map_right_iff, List.forall₂_same]
    refine fun x _ => ⟨turned_turnedToward x.1, fun hclosed hon => ?_⟩
    have hturned : Turned x.1 (turnedToward (radians degrees).sin (radians degrees).cos x.1).2 :=
      turned_turnedToward x.1
    exact head?_turnedToward (hturned.closed_eq.symm.trans hclosed) fun hoff =>
      hon fun q hq => hoff q (hturned.mem_iff.mp hq)
  · show Pictures.get (Table.put _ _ _) _ = _
    rw [Pictures.get_put, if_neg hother.symm]
  · exact value_step_edit e henabled hop hread hp c
  · refine (value_step_edit e henabled hop hread hsorted c).trans (State.edited_eq_self hsorted ?_)
    show (({ sorted with outline := sortedToward degrees sorted.outline } : Picture), _) = _
    rw [show sortedToward degrees sorted.outline = sorted.outline from
      sortedToward_sortedToward degrees p.outline]

/-- A contour with one point on the curve starts with it, in whatever direction it is sorted. -/
theorem sortDirection_of_one_point :
    let loop : Contour := ⟨[.off ⟨0, 0⟩, .off ⟨0, 1⟩, .on ⟨1, 0⟩], true⟩
    let turned : Contour := ⟨[.on ⟨1, 0⟩, .off ⟨0, 0⟩, .off ⟨0, 1⟩], true⟩
    let p : Picture := { outline := [loop] }
    let cfg : Settings := { extensions := { outline := true } }
    let s := (State.initial () cfg .unicode).withPictures [("p", p)]
    let s' := s.withPictures [("p", { outline := [turned] })]
    let r : Record := ⟨"outline_sort_dir", none, "\"p\">> 90"⟩
    (∀ c, (State.step Engine.basic cfg s (Script.construct r c).1).value = s') ∧
      ∀ c, (State.step Engine.basic cfg s' (Script.construct r c).1).value = s' := by
  intro loop turned p cfg s s' r
  have henabled : cfg.enables .outline = true := rfl
  have hop : r.op = .outline .sortDirection := by cbv
  have hfields : r.fields = ["\"p\"", "90"] := by cbv
  have hangle : Operand.number "90" = .ok 90 := by rfl
  have hp : Pictures.get s.pictures (pictureName "\"p\"") = .ok p := by rfl
  obtain ⟨order, outline, s'', horder, -, hcontours, rfl, -, hstep, hagain⟩ :=
    sortDirection_keeps_picture Engine.basic henabled hop hfields hangle hp
  have houtline : outline = [turned] := by
    rw [List.perm_singleton.mp horder] at hcontours
    obtain ⟨c, rest, ⟨hturned, hfirst⟩, hrest, rfl⟩ := List.forall₂_cons_left_iff.mp hcontours
    rw [List.forall₂_nil_left_iff.mp hrest]
    have hloop : Turned turned loop := ⟨rfl, ⟨1, rfl⟩, fun hopen => by cases hopen⟩
    have hcycle : Turned turned c := hloop.trans hturned
    have hon : Node.on ⟨1, 0⟩ ∈ c.nodes := hcycle.mem_iff.mpr (by decide)
    obtain ⟨first, hhead, hmem, -⟩ := hfirst hturned.closed_eq fun hoff => hoff _ hon
    have hone : ∀ n ∈ turned.nodes, n.onCurve = true → n = .on ⟨1, 0⟩ := by decide
    rw [hone (.on first) (hcycle.mem_iff.mp hmem) rfl] at hhead
    rw [hcycle.eq_of_head? (n := .on ⟨1, 0⟩) rfl hhead (by decide)]
  rw [houtline] at hstep hagain
  exact ⟨hstep, hagain⟩

end FontTrace
