import FontTrace.Geometry.Curve
import FontTrace.Proofs.Geometry.Segments
import FontTrace.Proofs.Number.Comparison
import Mathlib.Data.List.TakeDrop
import Mathlib.Data.List.TakeWhile

/-!
# FontTrace.Proofs.Geometry.Drawing

What a contour draws when it is traversed backwards: the same segments from the last one to the
first, each of them backwards.  A closed contour keeps its first node and turns the others round,
an open one turns all of them round; either way a segment goes from one node on the curve to the
next, with the control points between them.  The segment that closes a contour counts even if it
has no length; without lines that have none, the same holds.

* `piecesAlong_append_cons` — a node on the curve splits what is drawn along nodes;
* `piecesAlong_reverse` — the nodes in the other order draw the same backwards;
* `segments_of_closed`, `segments_of_open` — the segments of a contour as what its nodes draw from
  one node on the curve to another, which for a closed one is the same node again;
* `segments_reversed_backwards` — every contour and its reverse.
-/

namespace FontTrace

/-! ## one piece -/

theorem Point.same_comm (p q : Point) : p.same q = q.same p := by
  rw [same, same, beq_comm p.x, beq_comm p.y]

namespace Piece

theorem through_ends (a c : Point) (cs : List Point) (d b : Point) :
    through a (c :: (cs ++ [d])) b = .cubic a c d b := by
  cases cs with
  | nil => rfl
  | cons e cs =>
      rw [List.cons_append, through, ← List.cons_append, List.getLastD_concat]

/-- Of several control points the first and the last count, and they change places. -/
theorem reversed_through (a : Point) (cs : List Point) (b : Point) :
    (through a cs b).reversed = through b cs.reverse a := by
  cases cs with
  | nil => rfl
  | cons c cs =>
      rcases List.eq_nil_or_concat cs with rfl | ⟨ds, d, hds⟩
      · rfl
      · rw [List.concat_eq_append] at hds
        have hback : (c :: (ds ++ [d])).reverse = d :: (ds.reverse ++ [c]) := by simp
        rw [hds, hback, through_ends, through_ends, reversed]

@[simp] theorem last_through (a : Point) (cs : List Point) (b : Point) :
    (through a cs b).last = b := by
  match cs with
  | [] => rfl
  | [_] => rfl
  | _ :: _ :: _ => rfl

/-- Whether a piece is straight and goes nowhere. -/
def isEmpty : Piece → Bool
  | .line a b => a == b || a.same b
  | _ => false

theorem isEmpty_reversed (p : Piece) : p.reversed.isEmpty = p.isEmpty := by
  cases p with
  | line a b => rw [reversed, isEmpty, isEmpty, Point.same_comm, BEq.comm]
  | _ => rfl

theorem filter_map_reversed (ps : List Piece) :
    (ps.map reversed).filter (!·.isEmpty) = (ps.filter (!·.isEmpty)).map reversed := by
  rw [List.filter_map]
  simp [Function.comp_def, isEmpty_reversed]

end Piece

/-! ## pieces along nodes -/

section Pieces

variable {a b : Point} {cs : List Point} {p : Node} {ns xs ys : List Node}

theorem allOff_reverse (h : AllOff ns) : AllOff ns.reverse :=
  fun n hn => h n (List.mem_reverse.mp hn)

theorem piecesFrom_off (h : AllOff ns) (a : Point) (cs : List Point) :
    piecesFrom a cs ns = ([], a, cs ++ ns.map (·.pos)) := by
  induction ns generalizing cs with
  | nil => simp [piecesFrom]
  | cons n ns ih =>
      obtain ⟨hn, hns⟩ := allOff_cons.mp h
      rw [piecesFrom, if_neg (by simp [hn]), ih hns]
      simp

theorem piecesFrom_append (a : Point) (cs : List Point) (xs ys : List Node) :
    piecesFrom a cs (xs ++ ys) =
      let r := piecesFrom a cs xs
      let t := piecesFrom r.2.1 r.2.2 ys
      (r.1 ++ t.1, t.2) := by
  induction xs generalizing a cs with
  | nil => rfl
  | cons n xs ih =>
      cases hn : n.onCurve <;> simp [piecesFrom, hn, ih]

/-- The pieces from a point along nodes to another point. -/
def piecesAlong (a : Point) (ns : List Node) (b : Point) : List Piece :=
  (piecesFrom a [] (ns ++ [.on b])).1

theorem piecesAlong_eq (a : Point) (ns : List Node) (b : Point) :
    piecesAlong a ns b =
      let r := piecesFrom a [] ns
      r.1 ++ [Piece.through r.2.1 r.2.2 b] := by
  rw [piecesAlong, piecesFrom_append]
  rfl

theorem piecesAlong_off (h : AllOff ns) :
    piecesAlong a ns b = [Piece.through a (ns.map (·.pos)) b] := by
  rw [piecesAlong_eq, piecesFrom_off h]
  rfl

theorem piecesFrom_append_cons (hp : p.onCurve = true) :
    piecesFrom a [] (xs ++ p :: ys) =
      let t := piecesFrom p.pos [] ys
      (piecesAlong a xs p.pos ++ t.1, t.2) := by
  rw [piecesAlong_eq, piecesFrom_append]
  simp [piecesFrom, hp]

/-- What is drawn along nodes goes through each of them that is on the curve. -/
theorem piecesAlong_append_cons (hp : p.onCurve = true) :
    piecesAlong a (xs ++ p :: ys) b =
      piecesAlong a xs p.pos ++ piecesAlong p.pos ys b := by
  rw [piecesAlong, List.append_assoc, List.cons_append, piecesFrom_append_cons hp]
  rfl

/-- The nodes in the other order draw the same pieces backwards.  The induction takes off the
nodes up to the first one on the curve. -/
theorem piecesAlong_reverse (a : Point) (ns : List Node) (b : Point) :
    piecesAlong b ns.reverse a = (piecesAlong a ns b).reverse.map Piece.reversed := by
  rcases allOff_or_exists_first ns with hoff | ⟨l, p, r, rfl, hl, hp⟩
  · rw [piecesAlong_off (allOff_reverse hoff), piecesAlong_off hoff, List.map_reverse]
    simp [Piece.reversed_through]
  · have hsplit : (l ++ p :: r).reverse = r.reverse ++ p :: l.reverse := by simp
    rw [hsplit, piecesAlong_append_cons hp, piecesAlong_append_cons hp,
      piecesAlong_reverse p.pos r b, piecesAlong_off (allOff_reverse hl), piecesAlong_off hl]
    simp [Piece.reversed_through]
termination_by ns.length
decreasing_by
  subst_vars
  simp only [List.length_append, List.length_cons]
  omega

theorem getLast?_piecesAlong (a : Point) (ns : List Node) (b : Point) :
    ((piecesAlong a ns b).getLast?.map Piece.last) = some b := by
  rw [piecesAlong_eq, List.getLast?_concat, Option.map_some, Piece.last_through]

/-- Several nodes are control points behind the last one on the curve, if there is one. -/
theorem allOff_or_exists_last (ns : List Node) :
    AllOff ns ∨ ∃ r p l, ns = r ++ p :: l ∧ AllOff l ∧ p.onCurve = true := by
  rcases allOff_or_exists_first ns.reverse with hoff | ⟨l, p, r, hsplit, hl, hp⟩
  · exact .inl fun n hn => hoff n (List.mem_reverse.mpr hn)
  · refine .inr ⟨r.reverse, p, l.reverse, ?_, allOff_reverse hl, hp⟩
    rw [← List.reverse_reverse ns, hsplit]
    simp

/-- The last of several nodes is on the curve if no control point is left behind it. -/
theorem getLast?_onCurve (hp : p.onCurve = true) (hl : AllOff ns) (xs : List Node) :
    (xs ++ p :: ns).getLast?.any (·.onCurve) = (ns.map (·.pos)).isEmpty := by
  rcases List.eq_nil_or_concat ns with rfl | ⟨ms, n, rfl⟩
  · simp [hp]
  · have hn : n.onCurve = false := hl n (by simp)
    have hsplit : xs ++ p :: ms.concat n = xs ++ p :: ms ++ [n] := by simp
    rw [hsplit, List.getLast?_concat, Option.any_some, hn]
    simp

end Pieces

/-! ## segments of a contour -/

namespace Contour

/-- Whether a contour is closed by a straight segment: no control points are behind its last node
on the curve, nor before its first one. -/
def closesStraight (c : Contour) : Bool :=
  c.closed && c.nodes.head?.any (·.onCurve) && c.nodes.getLast?.any (·.onCurve)

/-- The segments of a contour: the pieces that it draws, and the straight closing segment, of
whatever length. -/
def segments (c : Contour) : List Piece :=
  match c.drawing? with
  | none => []
  | some d => if c.closesStraight then d.pieces ++ [.line d.finish d.start] else d.pieces

section Segments

variable {first p : Node} {rest before after middle : List Node}

theorem closesStraight_of_closed (hfirst : first.onCurve = true) (rest : List Node) :
    closesStraight ⟨first :: rest, true⟩ = (first :: rest).getLast?.any (·.onCurve) := by
  simp [closesStraight, hfirst]

theorem closesStraight_of_open {c : Contour} (h : c.closed = false) :
    c.closesStraight = false := by
  simp [closesStraight, h]

theorem drawing?_closed (hfirst : first.onCurve = true) (rest : List Node) :
    drawing? ⟨first :: rest, true⟩ = some (Drawing.ofNodes first.pos rest true) := by
  simp [drawing?, drawingAs?, List.span_eq_takeWhile_dropWhile, hfirst]

theorem drawing?_open (hbefore : AllOff before) (hfirst : first.onCurve = true)
    (rest : List Node) : drawing? ⟨before ++ first :: rest, false⟩ =
      some (Drawing.ofNodes first.pos rest false) := by
  simp [drawing?, drawingAs?, List.span_eq_takeWhile_dropWhile, takeWhile_off hbefore hfirst,
    dropWhile_off hbefore hfirst]

theorem drawing?_of_off {c : Contour} (h : AllOff c.nodes) : c.drawing? = none := by
  have hdrop : c.nodes.dropWhile (!·.onCurve) = [] := by
    simpa [List.dropWhile_eq_nil_iff, AllOff] using h
  simp [drawing?, drawingAs?, List.span_eq_takeWhile_dropWhile, hdrop]

theorem segments_of_off {c : Contour} (h : AllOff c.nodes) : c.segments = [] := by
  rw [segments, drawing?_of_off h]

/-- The last segment of a closed contour goes back to the first node, whether it is drawn with
the control points that are left or as the straight one that closes the contour. -/
theorem segments_of_pieces {ps : List Piece} {l : Point} {cs : List Point}
    (hfirst : first.onCurve = true) (hpieces : piecesFrom first.pos [] rest = (ps, l, cs))
    (hfinish : (ps.getLast?.map Piece.last).getD first.pos = l)
    (hend : (first :: rest).getLast?.any (·.onCurve) = cs.isEmpty) :
    segments ⟨first :: rest, true⟩ = ps ++ [Piece.through l cs first.pos] := by
  rw [segments, drawing?_closed hfirst]
  dsimp only
  rw [closesStraight_of_closed hfirst, hend, Drawing.ofNodes, hpieces]
  cases cs with
  | nil => simp [Drawing.finish, hfinish, Piece.through]
  | cons c cs => simp

/-- The segments of a closed contour go from its first node around to the same node. -/
theorem segments_of_closed (hfirst : first.onCurve = true) (rest : List Node) :
    segments ⟨first :: rest, true⟩ = piecesAlong first.pos rest first.pos := by
  rcases allOff_or_exists_last rest with hoff | ⟨xs, p, zs, rfl, hzs, hp⟩
  · rw [piecesAlong_off hoff]
    exact segments_of_pieces hfirst (piecesFrom_off hoff first.pos []) rfl
      (getLast?_onCurve hfirst hoff [])
  · have hpieces : piecesFrom first.pos [] (xs ++ p :: zs) =
        (piecesAlong first.pos xs p.pos, p.pos, zs.map (·.pos)) := by
      rw [piecesFrom_append_cons hp, piecesFrom_off hzs]
      simp
    have hfinish : ((piecesAlong first.pos xs p.pos).getLast?.map Piece.last).getD first.pos =
        p.pos := by
      rw [getLast?_piecesAlong]
      rfl
    rw [piecesAlong_append_cons hp, piecesAlong_off hzs]
    exact segments_of_pieces hfirst hpieces hfinish (getLast?_onCurve hp hzs (first :: xs))

/-- The segments of an open contour go from its first node on the curve to the last one. -/
theorem segments_of_open (hbefore : AllOff before) (hfirst : first.onCurve = true)
    (hp : p.onCurve = true) (hafter : AllOff after) :
    segments ⟨before ++ first :: (middle ++ p :: after), false⟩ =
      piecesAlong first.pos middle p.pos := by
  rw [segments, drawing?_open hbefore hfirst, closesStraight_of_open rfl, Drawing.ofNodes,
    piecesFrom_append_cons hp, piecesFrom_off hafter]
  simp

/-- One node on the curve draws nothing in an open contour. -/
theorem segments_of_lone (hbefore : AllOff before) (hfirst : first.onCurve = true)
    (hafter : AllOff after) : segments ⟨before ++ first :: after, false⟩ = [] := by
  rw [segments, drawing?_open hbefore hfirst, Drawing.ofNodes, piecesFrom_off hafter]
  rfl

end Segments

section Reversed

variable {c : Contour}

theorem segments_reversed_of_closed {first : Node} (hfirst : first.onCurve = true)
    (rest : List Node) :
    segments ⟨first :: rest.reverse, true⟩ =
      (segments ⟨first :: rest, true⟩).reverse.map Piece.reversed := by
  rw [segments_of_closed hfirst, segments_of_closed hfirst, piecesAlong_reverse]

theorem segments_reversed_of_open (nodes : List Node) :
    segments ⟨nodes.reverse, false⟩ = (segments ⟨nodes, false⟩).reverse.map Piece.reversed := by
  rcases allOff_or_exists_first nodes with hoff | ⟨before, first, rest, rfl, hbefore, hfirst⟩
  · rw [segments_of_off (allOff_reverse hoff), segments_of_off hoff]
    rfl
  · rcases allOff_or_exists_last rest with hafter | ⟨middle, p, after, rfl, hafter, hp⟩
    · have hsplit : (before ++ first :: rest).reverse =
          rest.reverse ++ first :: before.reverse := by simp
      rw [hsplit, segments_of_lone hbefore hfirst hafter,
        segments_of_lone (allOff_reverse hafter) hfirst (allOff_reverse hbefore)]
      rfl
    · have hsplit : (before ++ first :: (middle ++ p :: after)).reverse =
          after.reverse ++ p :: (middle.reverse ++ first :: before.reverse) := by simp
      rw [hsplit, segments_of_open hbefore hfirst hp hafter,
        segments_of_open (allOff_reverse hafter) hp hfirst (allOff_reverse hbefore),
        piecesAlong_reverse]

theorem startsOnCurve_reversed
    (hfirst : c.closed = true → ∀ n ∈ c.nodes.head?, n.onCurve = true) :
    c.reversed.closed = true → ∀ n ∈ c.reversed.nodes.head?, n.onCurve = true := by
  obtain ⟨nodes, closed⟩ := c
  cases closed with
  | false =>
      intro hclosed
      cases hclosed
  | true =>
      cases nodes with
      | nil => exact hfirst
      | cons first rest => exact hfirst

theorem segments_reversed (hfirst : c.closed = true → ∀ n ∈ c.nodes.head?, n.onCurve = true) :
    c.reversed.segments = c.segments.reverse.map Piece.reversed := by
  obtain ⟨nodes, closed⟩ := c
  cases closed with
  | false => exact segments_reversed_of_open nodes
  | true =>
      cases nodes with
      | nil => rfl
      | cons first rest => exact segments_reversed_of_closed (hfirst rfl first rfl) rest

end Reversed

/-! ## closing segments without length -/

/-- The pieces of the whole loop that a contour draws.  A straight closing segment between equal
places is left out. -/
def loop (c : Contour) : List Piece := (c.drawing?.map Drawing.loop).getD []

section Loop

variable {c : Contour}

theorem loop_of_open (h : c.closed = false) : c.loop = c.segments := by
  rw [loop, segments, closesStraight_of_open h, drawing?, drawingAs?, h]
  split <;> rfl

/-- Before it is closed, a contour has come to its last node, or back to its start with the control
points that were left. -/
theorem finish_ofNodes (a : Point) (ns : List Node) (n : Node) :
    (Drawing.ofNodes a (ns ++ [n]) true).finish = if n.onCurve then n.pos else a := by
  rw [Drawing.ofNodes, piecesFrom_append]
  cases hn : n.onCurve <;> simp [piecesFrom, hn, Drawing.finish]

/-- A loop and the segments differ in nothing but a closing piece without length. -/
theorem filter_loop_of_closed {first : Node} (hfirst : first.onCurve = true) (rest : List Node) :
    (loop ⟨first :: rest, true⟩).filter (!·.isEmpty) =
      (segments ⟨first :: rest, true⟩).filter (!·.isEmpty) := by
  let d := Drawing.ofNodes first.pos rest true
  have hloop : (d.loop).filter (!·.isEmpty) =
      (d.pieces ++ [Piece.line d.finish d.start]).filter (!·.isEmpty) := by
    cases hsame : d.finish.same d.start with
    | true => simp [Drawing.loop, hsame, Piece.isEmpty]
    | false =>
        have hclosed : d.closed = true := rfl
        simp [Drawing.loop, hsame, hclosed]
  have hoff : (first :: rest).getLast?.any (·.onCurve) = false → d.finish = d.start := by
    intro hlast
    rcases List.eq_nil_or_concat rest with rfl | ⟨ns, n, hns⟩
    · rfl
    · rw [List.concat_eq_append] at hns
      subst hns
      rw [← List.cons_append, List.getLast?_concat, Option.any_some] at hlast
      exact (finish_ofNodes first.pos ns n).trans (if_neg (by simp [hlast]))
  rw [loop, segments, closesStraight_of_closed hfirst, drawing?_closed hfirst]
  show (d.loop).filter _ = _
  rw [hloop]
  cases hlast : (first :: rest).getLast?.any (·.onCurve) with
  | true => simp [d]
  | false => simp [hoff hlast, Piece.isEmpty, d]

theorem filter_loop (hfirst : c.closed = true → ∀ n ∈ c.nodes.head?, n.onCurve = true) :
    c.loop.filter (!·.isEmpty) = c.segments.filter (!·.isEmpty) := by
  obtain ⟨nodes, closed⟩ := c
  cases closed with
  | false => rw [loop_of_open rfl]
  | true =>
      cases nodes with
      | nil => rfl
      | cons first rest => exact filter_loop_of_closed (hfirst rfl first rfl) rest

end Loop

end Contour

/-- Every contour; a closed one starts on the curve. -/
theorem segments_reversed_backwards (c : Contour)
    (hfirst : c.closed = true → ∀ n ∈ c.nodes.head?, n.onCurve = true) :
    c.reversed.segments = c.segments.reverse.map Piece.reversed ∧
    c.reversed.reversed = c ∧
    c.reversed.loop.filter (!·.isEmpty) =
      (c.loop.filter (!·.isEmpty)).reverse.map Piece.reversed := by
  have hsegments := Contour.segments_reversed hfirst
  refine ⟨hsegments, Contour.reversed_reversed c, ?_⟩
  rw [Contour.filter_loop (Contour.startsOnCurve_reversed hfirst), Contour.filter_loop hfirst,
    hsegments, Piece.filter_map_reversed, List.filter_reverse]

/-- A contour of a quadratic segment, a cubic one with three control points, and a closing one
without length, as it has come back to its start before: backwards that one is the first. -/
theorem segments_reversed_backwards_of_returning :
    let c : Contour := ⟨[.on ⟨0, 0⟩, .off ⟨5, 9⟩, .on ⟨10, 0⟩, .off ⟨10, 3⟩, .off ⟨7, 7⟩,
      .off ⟨3, 10⟩, .on ⟨0, 0⟩], true⟩
    c.segments = [.quad ⟨0, 0⟩ ⟨5, 9⟩ ⟨10, 0⟩, .cubic ⟨10, 0⟩ ⟨10, 3⟩ ⟨3, 10⟩ ⟨0, 0⟩,
      .line ⟨0, 0⟩ ⟨0, 0⟩] ∧
    c.reversed.segments = [.line ⟨0, 0⟩ ⟨0, 0⟩, .cubic ⟨0, 0⟩ ⟨3, 10⟩ ⟨10, 3⟩ ⟨10, 0⟩,
      .quad ⟨10, 0⟩ ⟨5, 9⟩ ⟨0, 0⟩] ∧
    c.reversed.loop.filter (!·.isEmpty) =
      (c.loop.filter (!·.isEmpty)).reverse.map Piece.reversed := by
  intro c
  obtain ⟨hsegments, -, hloop⟩ := segments_reversed_backwards c fun _ n hn => by
    obtain rfl := Option.some.inj hn
    rfl
  exact ⟨rfl, hsegments.trans rfl, hloop⟩

end FontTrace
