import FontTrace.Engine.Basic
import FontTrace.Proofs.Geometry.Turning
import FontTrace.Proofs.Number.Ranking
import Mathlib.Data.Prod.Lex
import Mathlib.Order.WithBot

/-!
# FontTrace.Proofs.Geometry.CanonicalOrder

The canonical form of an outline.  Closed contours start with their least point on the curve,
and contours are sorted by their starts; where nothing is left to chance, nothing but the
contours themselves decides about the result.

* `pointKey` — what points are compared by, and `Contour.firstKey`, what contours are;
* `Contour.StartsAt` — where a contour starts in canonical order;
* `Contour.startAtLeast_eq_of_turned` — a contour finds its start wherever it started;
* `canonicalOrder_eq_of_rearranged` — contours find their order from any other;
* `canonicalize_of_rearranged` — the canonical form.
-/

namespace FontTrace

/-! ## points in order -/

/-- What points are compared by: how far to the right they are, and then how far up. -/
def pointKey (p : Point) : Int ×ₗ Int := toLex (totalKey p.x, totalKey p.y)

theorem pointLe_iff (p q : Point) : pointLe p q = true ↔ pointKey p ≤ pointKey q := by
  simp [pointLe, pointKey, Prod.Lex.toLex_le_toLex]

theorem pointKey_injective : Function.Injective pointKey := by
  rintro ⟨x, y⟩ ⟨x', y'⟩ h
  obtain ⟨hx, hy⟩ := Prod.mk.inj (toLex.injective h)
  exact congrArg₂ Point.mk (totalKey_injective hx) (totalKey_injective hy)

namespace Contour

variable {c d : Contour} {p q : Point}

/-! ## where a contour starts -/

/-- The least point of a contour on the curve. -/
structure IsLeastPoint (c : Contour) (p : Point) : Prop where
  mem : .on p ∈ c.nodes
  le : ∀ q, .on q ∈ c.nodes → pointKey p ≤ pointKey q

/-- Where a contour starts in canonical order. -/
inductive StartsAt (c : Contour) (p : Point) : Prop
  | closed (hclosed : c.closed = true) (h : c.IsLeastPoint p)
  | opened (hopen : c.closed = false) (h : c.nodes.head?.map (·.pos) = some p)

/-- Nothing leaves it open where the contour starts: there are nodes, and a closed contour
goes through its least point on the curve once. -/
structure HasStart (c : Contour) : Prop where
  ne_nil : c.nodes ≠ []
  once : c.closed = true → ∃ p, c.IsLeastPoint p ∧ c.nodes.count (.on p) = 1

theorem HasStart.exists_startsAt (h : c.HasStart) : ∃ p, c.StartsAt p := by
  cases hclosed : c.closed with
  | true =>
      obtain ⟨p, hp, -⟩ := h.once hclosed
      exact ⟨p, .closed hclosed hp⟩
  | false =>
      obtain ⟨n, rest, hnodes⟩ := List.exists_cons_of_ne_nil h.ne_nil
      exact ⟨n.pos, .opened hclosed (by rw [hnodes]; rfl)⟩

theorem IsLeastPoint.of_turned (h : Turned c d) (hp : c.IsLeastPoint p) : d.IsLeastPoint p :=
  ⟨h.mem_iff.mpr hp.mem, fun q hq => hp.le q (h.mem_iff.mp hq)⟩

theorem IsLeastPoint.unique (hp : c.IsLeastPoint p) (hq : c.IsLeastPoint q) : p = q :=
  pointKey_injective (le_antisymm (hp.le q hq.mem) (hq.le p hp.mem))

theorem StartsAt.of_turned (h : Turned c d) (hp : c.StartsAt p) : d.StartsAt p := by
  cases hp with
  | closed hclosed hp => exact .closed (h.closed_eq.trans hclosed) (hp.of_turned h)
  | opened hopen hp =>
      obtain rfl := h.eq_of_open hopen
      exact .opened hopen hp

theorem HasStart.of_turned (h : Turned c d) (hc : c.HasStart) : d.HasStart := by
  refine ⟨fun hnil => hc.ne_nil (List.isRotated_nil_iff.mp (hnil ▸ h.isRotated)), ?_⟩
  intro hclosed
  obtain ⟨p, hp, hcount⟩ := hc.once (h.closed_eq.symm.trans hclosed)
  exact ⟨p, hp.of_turned h, (h.count_eq _).trans hcount⟩

/-! ## starting there -/

theorem startAtLeast_eq (c : Contour) : startAtLeast c =
    if c.closed then
      match leastBy? (fun p q => pointLe p.1 q.1) (c.measured id) with
      | some (_, i) => c.startingAt i
      | none => c
    else c := rfl

theorem turned_startAtLeast (c : Contour) : Turned c (startAtLeast c) := by
  rw [startAtLeast_eq]
  split
  · split
    · exact turned_startingAt c _
    · exact .refl c
  · exact .refl c

/-- A closed contour with points on the curve is made to start with the least of them. -/
theorem head?_startAtLeast (hclosed : c.closed = true) (hp : c.IsLeastPoint p) :
    (startAtLeast c).nodes.head? = some (.on p) := by
  rw [startAtLeast_eq, if_pos hclosed]
  cases hfound : leastBy? (fun p q => pointLe p.1 q.1) (c.measured id) with
  | none => exact absurd hp.mem (not_mem_of_measured hfound)
  | some found =>
      obtain ⟨_, i⟩ := found
      obtain ⟨q, hq, rfl, hle⟩ := least_of_measured pointLe_iff hfound
      have hleast : c.IsLeastPoint q := ⟨List.mem_of_getElem? hq, hle⟩
      rw [hp.unique hleast]
      exact head?_startingAt hclosed hq

theorem startsAt_startAtLeast_iff : (startAtLeast c).StartsAt p ↔ c.StartsAt p :=
  ⟨.of_turned (turned_startAtLeast c).symm, .of_turned (turned_startAtLeast c)⟩

theorem StartsAt.head?_startAtLeast (hp : c.StartsAt p) :
    (startAtLeast c).nodes.head?.map (·.pos) = some p := by
  cases hp with
  | closed hclosed hp => rw [Contour.head?_startAtLeast hclosed hp]; rfl
  | opened hopen hp => rwa [(turned_startAtLeast c).eq_of_open hopen]

/-- A contour finds its start wherever it started before. -/
theorem startAtLeast_eq_of_turned (h : Turned c d) (hc : c.HasStart) :
    startAtLeast d = startAtLeast c := by
  have hturned : Turned (startAtLeast c) (startAtLeast d) :=
    ((turned_startAtLeast c).symm.trans h).trans (turned_startAtLeast d)
  cases hclosed : c.closed with
  | true =>
      obtain ⟨p, hp, hcount⟩ := hc.once hclosed
      refine (hturned.eq_of_head? (Contour.head?_startAtLeast hclosed hp) ?_ ?_).symm
      · exact Contour.head?_startAtLeast (h.closed_eq.trans hclosed) (hp.of_turned h)
      · exact ((turned_startAtLeast c).count_eq _).trans hcount
  | false => exact hturned.eq_of_open ((turned_startAtLeast c).closed_eq.trans hclosed)

/-! ## contours in order -/

/-- What contours are compared by; those without nodes are behind all others. -/
def firstKey (c : Contour) : WithTop (Int ×ₗ Int) :=
  match c.nodes with
  | [] => ⊤
  | n :: _ => pointKey n.pos

theorem contourLe_iff : contourLe c d = true ↔ c.firstKey ≤ d.firstKey := by
  unfold contourLe firstKey
  cases c.nodes with
  | nil =>
      cases d.nodes with
      | nil => exact iff_of_true rfl le_rfl
      | cons n ns => exact iff_of_false Bool.false_ne_true (by simp)
  | cons m ms =>
      cases d.nodes with
      | nil => exact iff_of_true rfl le_top
      | cons n ns => rw [WithTop.coe_le_coe]; exact pointLe_iff _ _

theorem firstKey_eq (h : c.nodes.head?.map (·.pos) = some p) : c.firstKey = pointKey p := by
  unfold firstKey
  cases hnodes : c.nodes with
  | nil => rw [hnodes] at h; cases h
  | cons n ns => rw [hnodes] at h; cases h; rfl

end Contour

/-! ## outlines -/

namespace Outline

variable {o o' : Outline}

/-- The contours in some order, and the closed ones starting somewhere. -/
def Rearranged (o o' : Outline) : Prop := ∃ p, o.Perm p ∧ List.Forall₂ Contour.Turned p o'

/-- Contours that are told apart by where they start in canonical order. -/
structure Distinguished (o : Outline) : Prop where
  hasStart : ∀ c ∈ o, c.HasStart
  apart : o.Pairwise fun c d => ∀ p q, c.StartsAt p → d.StartsAt q → p ≠ q

theorem Rearranged.refl (o : Outline) : Rearranged o o :=
  ⟨o, .refl o, List.forall₂_same.mpr fun c _ => .refl c⟩

end Outline

open Contour Outline

variable {o o' : Outline}

theorem rearranged_canonicalOrder (o : Outline) : o.Rearranged (canonicalOrder o) := by
  have hstarts : List.Forall₂ Turned o (o.map startAtLeast) :=
    List.forall₂_map_right_iff.mpr (List.forall₂_same.mpr fun c _ => turned_startAtLeast c)
  have hsorted := (List.mergeSort_perm (o.map startAtLeast) contourLe).symm
  have hcomp : Relation.Comp (List.Forall₂ Turned) List.Perm o (canonicalOrder o) :=
    ⟨_, hstarts, hsorted⟩
  rwa [List.forall₂_comp_perm_eq_perm_comp_forall₂] at hcomp

theorem pairwise_canonicalOrder (o : Outline) :
    (canonicalOrder o).Pairwise fun c d => c.firstKey ≤ d.firstKey := by
  have hsorted : ((o.map startAtLeast).mergeSort contourLe).Pairwise fun c d =>
      contourLe c d = true := by
    refine List.pairwise_mergeSort (fun a b c => ?_) (fun a b => ?_) _
    · simp only [contourLe_iff]
      exact le_trans
    · rw [Bool.or_eq_true, contourLe_iff, contourLe_iff]
      exact le_total _ _
  exact hsorted.imp contourLe_iff.mp

theorem map_startAtLeast_eq (h : List.Forall₂ Turned o o') (hstart : ∀ c ∈ o, c.HasStart) :
    o'.map startAtLeast = o.map startAtLeast := by
  induction h with
  | nil => rfl
  | cons hturned _ ih =>
      rw [List.map_cons, List.map_cons,
        startAtLeast_eq_of_turned hturned (hstart _ List.mem_cons_self),
        ih fun c hc => hstart c (List.mem_cons_of_mem _ hc)]

/-- Contours that start at different points have different keys once they start there. -/
theorem Outline.Distinguished.pairwise_ne (h : o.Distinguished) :
    (o.map startAtLeast).Pairwise fun c d => c.firstKey ≠ d.firstKey := by
  refine List.pairwise_map.mpr (h.apart.imp_of_mem fun {c d} hc hd happart hkey => ?_)
  obtain ⟨p, hp⟩ := (h.hasStart c hc).exists_startsAt
  obtain ⟨q, hq⟩ := (h.hasStart d hd).exists_startsAt
  rw [firstKey_eq hp.head?_startAtLeast, firstKey_eq hq.head?_startAtLeast, WithTop.coe_inj] at hkey
  exact happart p q hp hq (pointKey_injective hkey)

theorem canonicalOrder_perm (o : Outline) : (canonicalOrder o).Perm (o.map startAtLeast) :=
  List.mergeSort_perm _ _

theorem Outline.Distinguished.pairwise_lt (h : o.Distinguished) :
    (canonicalOrder o).Pairwise fun c d => c.firstKey < d.firstKey := by
  have hne := (canonicalOrder_perm o).symm.pairwise h.pairwise_ne fun hne => hne.symm
  exact ((pairwise_canonicalOrder o).and hne).imp fun hkeys => lt_of_le_of_ne hkeys.1 hkeys.2

/-- Contours that are told apart find their order from any other. -/
theorem canonicalOrder_eq_of_rearranged (h : o.Distinguished) (hr : o.Rearranged o') :
    canonicalOrder o' = canonicalOrder o := by
  obtain ⟨p, hperm, hturned⟩ := hr
  have hmap : o'.map startAtLeast = p.map startAtLeast :=
    map_startAtLeast_eq hturned fun c hc => h.hasStart c (hperm.mem_iff.mpr hc)
  have hsame : (canonicalOrder o').Perm (canonicalOrder o) := by
    refine (canonicalOrder_perm o').trans (.trans ?_ (canonicalOrder_perm o).symm)
    rw [hmap]
    exact (hperm.map startAtLeast).symm
  have hsymm : Std.Symm fun c d : Contour => c.firstKey ≠ d.firstKey := ⟨fun _ _ hne => hne.symm⟩
  have hne := (canonicalOrder_perm o).symm.pairwise h.pairwise_ne fun hne => hne.symm
  refine List.Perm.eq_of_pairwise ?_ (pairwise_canonicalOrder o') (pairwise_canonicalOrder o) hsame
  intro c d hc hd hcd hdc
  by_contra hneq
  exact hne.forall (hsame.mem_iff.mp hc) hd hneq (le_antisymm hcd hdc)

theorem firstKey_canonicalOrder {c : Contour} {p : Point} (hc : c ∈ canonicalOrder o)
    (hp : c.StartsAt p) : c.firstKey = pointKey p := by
  obtain ⟨c, -, rfl⟩ := List.mem_map.mp ((canonicalOrder_perm o).mem_iff.mp hc)
  exact firstKey_eq (startsAt_startAtLeast_iff.mp hp).head?_startAtLeast

/-- The canonical form: contours that are told apart by where they start come out the same
wherever they stood and wherever they started.  They are sorted by their starts, they start
there, and doing it again changes nothing. -/
theorem canonicalize_of_rearranged (h : o.Distinguished) :
    ∃ result : Outline,
      (∀ o', o.Rearranged o' → Engine.basic.canonicalize o' = pure result) ∧
      o.Rearranged result ∧
      (∀ c ∈ result, ∃ p, c.StartsAt p ∧ c.nodes.head?.map (·.pos) = some p ∧
        (c.closed = true → c.nodes.head? = some (.on p))) ∧
      (result.Pairwise fun c d => ∀ p q, c.StartsAt p → d.StartsAt q → pointKey p < pointKey q) ∧
      Engine.basic.canonicalize result = pure result := by
  have hforms (o' : Outline) (hr : o.Rearranged o') :
      Engine.basic.canonicalize o' = pure (canonicalOrder o) :=
    congrArg pure (canonicalOrder_eq_of_rearranged h hr)
  have hrearranged := rearranged_canonicalOrder o
  refine ⟨canonicalOrder o, hforms, hrearranged, ?_, ?_, hforms _ hrearranged⟩
  · intro c hc
    obtain ⟨c, hmem, rfl⟩ := List.mem_map.mp ((canonicalOrder_perm o).mem_iff.mp hc)
    obtain ⟨p, hp⟩ := (h.hasStart c hmem).exists_startsAt
    refine ⟨p, startsAt_startAtLeast_iff.mpr hp, hp.head?_startAtLeast, fun hclosed => ?_⟩
    cases hp with
    | closed hclosed hp => exact Contour.head?_startAtLeast hclosed hp
    | opened hopen hp =>
        have hopen := (turned_startAtLeast c).closed_eq.trans hopen
        exact absurd (hopen.symm.trans hclosed) Bool.false_ne_true
  · refine h.pairwise_lt.imp_of_mem fun {c d} hc hd hlt p q hp hq => ?_
    rwa [firstKey_canonicalOrder hc hp, firstKey_canonicalOrder hd hq, WithTop.coe_lt_coe] at hlt

/-- A loop with a control point, which does not count although it is the lowest to the left, and
an open path, which comes first and is not turned. -/
theorem canonicalize_of_two_contours :
    let loop : Contour := ⟨[.on ⟨1, 1⟩, .off ⟨0, 0⟩, .on ⟨0, 1⟩, .on ⟨1, 0⟩], true⟩
    let turned : Contour := ⟨[.on ⟨0, 1⟩, .on ⟨1, 0⟩, .on ⟨1, 1⟩, .off ⟨0, 0⟩], true⟩
    let path : Contour := ⟨[.on ⟨-1, 0⟩, .on ⟨-2, 2⟩], false⟩
    Distinguished [loop, path] ∧ Rearranged [loop, path] [path, turned] ∧
      Engine.basic.canonicalize [loop, path] = pure [path, turned] := by
  intro loop turned path
  have hleast : loop.IsLeastPoint ⟨0, 1⟩ := by
    have hle : ∀ n ∈ loop.nodes, n.onCurve = true → pointLe ⟨0, 1⟩ n.pos = true := by decide
    exact ⟨by decide, fun q hq => (pointLe_iff _ _).mp (hle (.on q) hq rfl)⟩
  have hdistinguished : Distinguished [loop, path] := by
    refine ⟨fun c hc => ?_, List.pairwise_pair.mpr fun p q hp hq => ?_⟩
    · rcases List.mem_cons.mp hc with rfl | hc
      · exact ⟨by decide, fun _ => ⟨⟨0, 1⟩, hleast, by decide⟩⟩
      · obtain rfl := List.mem_singleton.mp hc
        exact ⟨by decide, fun hclosed => absurd hclosed (by decide)⟩
    · cases hp with
      | opened hopen _ => cases hopen
      | closed _ hp =>
          cases hq with
          | closed hclosed _ => cases hclosed
          | opened _ hq =>
              obtain rfl : ⟨-1, 0⟩ = q := Option.some.inj hq
              rw [hp.unique hleast]
              decide
  have hturned : Turned loop turned := ⟨rfl, ⟨2, rfl⟩, fun hopen => by cases hopen⟩
  have hrearranged : Rearranged [loop, path] [path, turned] :=
    ⟨[path, loop], .swap path loop [], .cons (.refl path) (.cons hturned .nil)⟩
  have hresult : Engine.basic.canonicalize [path, turned] = pure [path, turned] := by
    have hstarts : [path, turned].map startAtLeast = [path, turned] := by decide
    have hsorted : canonicalOrder [path, turned] = [path, turned] := by
      rw [canonicalOrder, hstarts]
      exact List.mergeSort_of_pairwise (by decide)
    exact congrArg pure hsorted
  obtain ⟨form, hforms, -⟩ := canonicalize_of_rearranged hdistinguished
  refine ⟨hdistinguished, hrearranged, ?_⟩
  rw [hforms _ (.refl _), ← hforms _ hrearranged, hresult]

end FontTrace
