import FontTrace.Proofs.Geometry.Drawing
import Mathlib.Data.List.Rotate

/-!
# FontTrace.Proofs.Geometry.Spans

Contours as rows of spans.  A span is what a contour has between a node on the curve and the next
one, with both of these nodes: two nodes for a straight segment, four for a cubic one.  A closed
contour has one more span than an open one of the same nodes, which leads back to its start.

* `spansFrom_append_cons` — a node on the curve splits the spans of nodes;
* `isSpan_of_mem_spansFrom`, `leads_spansFrom` — what a span looks like, and that the next one
  begins where it ends;
* `flatMap_dropLast_spansFrom`, `flatMap_tail_spansFrom` — spans hold each node once, but for the
  ends at which they meet;
* `spans_closed`, `spans_open`, `spans_isRotated` — the spans of a contour from any of its nodes
  on the curve on;
* `IsPlain` — contours of lines and cubics, and how many spans they have (`length_spans`).
-/

namespace FontTrace

/-! ## spans of nodes -/

/-- The spans of nodes behind a span that has begun.  The next node on the curve ends it and
begins another one; nodes behind the last one on the curve make no span. -/
def spansFrom (begun : List Node) : List Node → List (List Node)
  | [] => []
  | n :: ns => if n.onCurve then (begun ++ [n]) :: spansFrom [n] ns else spansFrom (begun ++ [n]) ns

/-- Control points between two nodes on the curve. -/
inductive IsSpan : List Node → Prop
  | between {a b : Node} {l : List Node} (ha : a.onCurve = true) (hl : AllOff l)
      (hb : b.onCurve = true) : IsSpan (a :: (l ++ [b]))

/-- Spans one behind the other that lead from one node to another. -/
inductive Leads : Node → List (List Node) → Node → Prop
  | last (a : Node) (l : List Node) (b : Node) : Leads a [a :: (l ++ [b])] b
  | cons (a : Node) (l : List Node) {m b : Node} {ss : List (List Node)} (h : Leads m ss b) :
      Leads a ((a :: (l ++ [m])) :: ss) b

/-- What is rotated is cut in two, and its parts are exchanged. -/
theorem exists_append_of_isRotated {α : Type} {xs ys : List α} (h : xs ~r ys) :
    ∃ us vs, xs = us ++ vs ∧ ys = vs ++ us := by
  obtain ⟨k, hk, rfl⟩ := List.isRotated_iff_mod.mp h
  exact ⟨xs.take k, xs.drop k, (List.take_append_drop k xs).symm,
    List.rotate_eq_drop_append_take hk⟩

theorem isRotated_filter {α : Type} {xs ys : List α} (h : xs ~r ys) (f : α → Bool) :
    xs.filter f ~r ys.filter f := by
  obtain ⟨us, vs, rfl, rfl⟩ := exists_append_of_isRotated h
  rw [List.filter_append, List.filter_append]
  exact List.isRotated_append

theorem IsSpan.ends {a b : Node} {l : List Node} (h : IsSpan (a :: (l ++ [b]))) :
    a.onCurve = true ∧ AllOff l ∧ b.onCurve = true := by
  generalize hs : a :: (l ++ [b]) = s at h
  obtain ⟨ha, hl, hb⟩ := h
  obtain ⟨rfl, hrest⟩ := List.cons_eq_cons.mp hs
  obtain ⟨rfl, hlast⟩ := List.append_inj' hrest rfl
  obtain rfl : b = _ := by simpa using hlast
  exact ⟨ha, hl, hb⟩

/-- A straight span has no control points, and a cubic one has two of them. -/
theorem length_controls {a b : Node} {l : List Node}
    (h : (a :: (l ++ [b])).length = 2 ∨ (a :: (l ++ [b])).length = 4) :
    l.length = 0 ∨ l.length = 2 := by
  simp only [List.length_cons, List.length_append, List.length_nil] at h
  omega

section Nodes

variable {a b p : Node} {begun l ns xs ys : List Node}

theorem allOff_append : AllOff (xs ++ ys) ↔ AllOff xs ∧ AllOff ys := by
  simp [AllOff, or_imp, forall_and]

theorem filter_onCurve_of_allOff (hl : AllOff l) : l.filter (·.onCurve) = [] :=
  List.filter_eq_nil_iff.mpr fun n hn => by simp [hl n hn]

theorem eq_nil_of_head? (hl : AllOff l) (h : ∀ n ∈ (l ++ ns).head?, n.onCurve = true) : l = [] := by
  cases l with
  | nil => rfl
  | cons n l => exact absurd (h n rfl) (by simp [(allOff_cons.mp hl).1])

theorem eq_nil_of_getLast? (hl : AllOff l) (h : ∀ n ∈ (ns ++ l).getLast?, n.onCurve = true) :
    l = [] := by
  rcases List.eq_nil_or_concat l with rfl | ⟨l, n, rfl⟩
  · rfl
  · have hn : n.onCurve = false := hl n (by simp)
    exact absurd (h n (by simp [← List.append_assoc])) (by simp [hn])

theorem spansFrom_off (hl : AllOff l) (begun ns : List Node) :
    spansFrom begun (l ++ ns) = spansFrom (begun ++ l) ns := by
  induction l generalizing begun with
  | nil => simp
  | cons n l ih =>
      obtain ⟨hn, hl⟩ := allOff_cons.mp hl
      simp [spansFrom, hn, ih hl]

@[simp] theorem spansFrom_cons_on (hp : p.onCurve = true) (begun ns : List Node) :
    spansFrom begun (p :: ns) = (begun ++ [p]) :: spansFrom [p] ns := by
  simp [spansFrom, hp]

/-- The next node on the curve ends a span. -/
theorem spansFrom_next (hl : AllOff l) (hp : p.onCurve = true) (begun ns : List Node) :
    spansFrom begun (l ++ p :: ns) = (begun ++ l ++ [p]) :: spansFrom [p] ns := by
  rw [spansFrom_off hl, spansFrom_cons_on hp]

/-- A node on the curve splits the spans. -/
theorem spansFrom_append_cons (hp : p.onCurve = true) (begun xs ys : List Node) :
    spansFrom begun (xs ++ p :: ys) = spansFrom begun (xs ++ [p]) ++ spansFrom [p] ys := by
  induction xs generalizing begun with
  | nil => simp [hp, spansFrom]
  | cons n xs ih => cases hn : n.onCurve <;> simp [spansFrom, hn, ih]

/-- Behind the last node on the curve the next one ends one more span. -/
theorem spansFrom_append_next (ha : a.onCurve = true) (hlast : (b :: xs).getLast? = some a)
    (hl : AllOff l) (hp : p.onCurve = true) (ns : List Node) :
    spansFrom [b] (xs ++ l ++ p :: ns) =
      spansFrom [b] xs ++ (a :: (l ++ [p])) :: spansFrom [p] ns := by
  rcases List.eq_nil_or_concat xs with rfl | ⟨ys, n, rfl⟩
  · obtain rfl := Option.some.inj hlast
    simpa [spansFrom] using spansFrom_next hl hp [b] ns
  · rw [List.concat_eq_append] at hlast ⊢
    rw [← List.cons_append, List.getLast?_concat] at hlast
    obtain rfl := Option.some.inj hlast
    have hsplit : ys ++ [n] ++ l ++ p :: ns = ys ++ n :: (l ++ p :: ns) := by simp
    rw [hsplit, spansFrom_append_cons ha, spansFrom_next hl hp]
    rfl

theorem length_spansFrom (begun ns : List Node) :
    (spansFrom begun ns).length = ns.countP (·.onCurve) := by
  induction ns generalizing begun with
  | nil => rfl
  | cons n ns ih => cases hn : n.onCurve <;> simp [spansFrom, hn, ih]

theorem isSpan_of_mem_spansFrom {s : List Node} (ha : a.onCurve = true) (hl : AllOff l)
    (hs : s ∈ spansFrom (a :: l) ns) : IsSpan s := by
  induction ns generalizing a l with
  | nil => cases hs
  | cons n ns ih =>
      cases hn : n.onCurve with
      | true =>
          rw [spansFrom_cons_on hn] at hs
          rcases List.mem_cons.mp hs with rfl | hs
          · exact .between ha hl hn
          · exact ih hn allOff_nil hs
      | false =>
          have hnext : spansFrom (a :: l) (n :: ns) = spansFrom (a :: (l ++ [n])) ns := by
            simp [spansFrom, hn]
          rw [hnext] at hs
          exact ih ha (allOff_append.mpr ⟨hl, allOff_cons.mpr ⟨hn, allOff_nil⟩⟩) hs

/-- Each span begins where the one before it ends. -/
theorem leads_spansFrom (hp : p.onCurve = true) (a : Node) (l xs : List Node) :
    Leads a (spansFrom (a :: l) (xs ++ [p])) p := by
  induction xs generalizing a l with
  | nil =>
      rw [List.nil_append, spansFrom_cons_on hp]
      exact .last a l p
  | cons n xs ih =>
      cases hn : n.onCurve with
      | true =>
          rw [List.cons_append, spansFrom_cons_on hn]
          exact .cons a l (ih n [])
      | false =>
          have hnext : spansFrom (a :: l) (n :: xs ++ [p]) =
              spansFrom (a :: (l ++ [n])) (xs ++ [p]) := by simp [spansFrom, hn]
          rw [hnext]
          exact ih a (l ++ [n])

/-- Without their ends, spans up to a node on the curve hold each node before it once. -/
theorem flatMap_dropLast_spansFrom (hp : p.onCurve = true) (begun xs : List Node) :
    (spansFrom begun (xs ++ [p])).flatMap List.dropLast = begun ++ xs := by
  induction xs generalizing begun with
  | nil => simp [spansFrom, hp]
  | cons n xs ih => cases hn : n.onCurve <;> simp [spansFrom, hn, ih]

/-- Without their first nodes, they hold each node behind the first one once. -/
theorem flatMap_tail_spansFrom (hp : p.onCurve = true) (a : Node) (l xs : List Node) :
    (spansFrom (a :: l) (xs ++ [p])).flatMap List.tail = l ++ xs ++ [p] := by
  induction xs generalizing a l with
  | nil => simp [spansFrom, hp]
  | cons n xs ih =>
      cases hn : n.onCurve with
      | true => simp [hn, ih]
      | false => simpa [spansFrom, hn] using ih a (l ++ [n])

end Nodes

/-! ## spans of a contour -/

namespace Contour

/-- The spans of a contour from its first node on the curve on.  In a closed one the last of them
leads back to that node, and holds the control points in front of it. -/
def spans (c : Contour) : List (List Node) :=
  match c.nodes.span fun n => !n.onCurve with
  | (_, []) => []
  | (before, first :: rest) =>
    spansFrom [first] (if c.closed then rest ++ before ++ [first] else rest)

/-- A contour of lines and cubics: there are no control points or two of them between nodes on the
curve that follow one another, around the contour if it is closed.  An open one begins and ends on
the curve. -/
structure IsPlain (c : Contour) : Prop where
  lengths : ∀ s ∈ c.spans, s.length = 2 ∨ s.length = 4
  first : c.closed = false → ∀ n ∈ c.nodes.head?, n.onCurve = true
  last : c.closed = false → ∀ n ∈ c.nodes.getLast?, n.onCurve = true

section Spans

variable {c : Contour} {a first p : Node} {before rest front back : List Node}

theorem firstOnCurve?_eq (hbefore : AllOff before) (hfirst : first.onCurve = true)
    (hnodes : c.nodes = before ++ first :: rest) : c.firstOnCurve? = some before.length := by
  rw [firstOnCurve?, hnodes, List.findIdx?_append, List.findIdx?_cons, if_pos hfirst,
    List.findIdx?_eq_none_iff.mpr fun n hn => hbefore n hn]
  simp

theorem firstOnCurve?_of_allOff (h : AllOff c.nodes) : c.firstOnCurve? = none :=
  List.findIdx?_eq_none_iff.mpr fun n hn => h n hn

theorem find?_onCurve (hbefore : AllOff before) (hfirst : first.onCurve = true) :
    (before ++ first :: rest).find? (·.onCurve) = some first := by
  rw [List.find?_append, List.find?_eq_none.mpr fun n hn => by simp [hbefore n hn],
    List.find?_cons_of_pos hfirst]
  rfl

theorem onCurveCount_of_allOff {nodes : List Node} (h : AllOff nodes) (closed : Bool) :
    onCurveCount ⟨nodes, closed⟩ = 0 :=
  List.countP_eq_zero.mpr fun n hn => by simp [h n hn]

theorem spans_of_allOff (h : AllOff c.nodes) : c.spans = [] := by
  have hdrop : c.nodes.dropWhile (!·.onCurve) = [] := by
    simpa [List.dropWhile_eq_nil_iff, AllOff] using h
  simp [spans, List.span_eq_takeWhile_dropWhile, hdrop]

theorem spans_closed (hbefore : AllOff before) (hfirst : first.onCurve = true) (rest : List Node) :
    spans ⟨before ++ first :: rest, true⟩ = spansFrom [first] (rest ++ before ++ [first]) := by
  simp [spans, List.span_eq_takeWhile_dropWhile, takeWhile_off hbefore hfirst,
    dropWhile_off hbefore hfirst]

theorem spans_open (hbefore : AllOff before) (hfirst : first.onCurve = true) (rest : List Node) :
    spans ⟨before ++ first :: rest, false⟩ = spansFrom [first] rest := by
  simp [spans, List.span_eq_takeWhile_dropWhile, takeWhile_off hbefore hfirst,
    dropWhile_off hbefore hfirst]

/-- Round a closed contour the spans lead from its first node on the curve back to it. -/
theorem leads_spans_closed (hbefore : AllOff before) (hfirst : first.onCurve = true)
    (rest : List Node) : Leads first (spans ⟨before ++ first :: rest, true⟩) first := by
  rw [spans_closed hbefore hfirst]
  exact leads_spansFrom hfirst first [] (rest ++ before)

/-- Along an open one they lead from its first node to its last one. -/
theorem leads_spans_open (hfirst : first.onCurve = true) (hp : p.onCurve = true)
    (rest : List Node) : Leads first (spans ⟨first :: (rest ++ [p]), false⟩) p := by
  have hspans : spans ⟨first :: (rest ++ [p]), false⟩ = spansFrom [first] (rest ++ [p]) :=
    spans_open allOff_nil hfirst (rest ++ [p])
  rw [hspans]
  exact leads_spansFrom hp first [] rest

theorem isSpan_of_mem_spans {s : List Node} (hs : s ∈ c.spans) : IsSpan s := by
  obtain ⟨nodes, closed⟩ := c
  rcases allOff_or_exists_first nodes with hoff | ⟨before, first, rest, rfl, hbefore, hfirst⟩
  · rw [spans_of_allOff hoff] at hs
    cases hs
  · cases closed with
    | true =>
        rw [spans_closed hbefore hfirst] at hs
        exact isSpan_of_mem_spansFrom hfirst allOff_nil hs
    | false =>
        rw [spans_open hbefore hfirst] at hs
        exact isSpan_of_mem_spansFrom hfirst allOff_nil hs

/-- As many spans as nodes on the curve, and one less without the one that leads back. -/
theorem length_spans (c : Contour) :
    c.spans.length = if c.closed then c.onCurveCount else c.onCurveCount - 1 := by
  obtain ⟨nodes, closed⟩ := c
  rcases allOff_or_exists_first nodes with hoff | ⟨before, first, rest, rfl, hbefore, hfirst⟩
  · rw [spans_of_allOff hoff, onCurveCount_of_allOff hoff]
    simp
  · have hcount : before.countP (·.onCurve) = 0 :=
      List.countP_eq_zero.mpr fun n hn => by simp [hbefore n hn]
    cases closed with
    | true =>
        rw [spans_closed hbefore hfirst, length_spansFrom]
        simp [onCurveCount, hcount, hfirst]
    | false =>
        rw [spans_open hbefore hfirst, length_spansFrom]
        simp [onCurveCount, hcount, hfirst]

/-- The spans of a closed contour from any of its nodes on the curve on. -/
theorem spans_isRotated (ha : a.onCurve = true) (front back : List Node) :
    spans ⟨front ++ a :: back, true⟩ ~r spansFrom [a] (back ++ front ++ [a]) := by
  rcases allOff_or_exists_first front with hoff | ⟨before, first, middle, rfl, hbefore, hfirst⟩
  · rw [spans_closed hoff ha]
  · have hsplit : before ++ first :: middle ++ a :: back =
        before ++ first :: (middle ++ a :: back) := by simp
    have haround : middle ++ a :: back ++ before ++ [first] =
        middle ++ a :: (back ++ before ++ [first]) := by simp
    have hround : back ++ (before ++ first :: middle) ++ [a] =
        back ++ before ++ first :: (middle ++ [a]) := by simp
    rw [hsplit, spans_closed hbefore hfirst, haround, hround, spansFrom_append_cons ha,
      spansFrom_append_cons hfirst [a] (back ++ before) (middle ++ [a])]
    exact List.isRotated_append

theorem spans_of_isRotated {nodes xs : List Node} (ha : a.onCurve = true)
    (h : nodes ~r a :: xs) : spans ⟨nodes, true⟩ ~r spansFrom [a] (xs ++ [a]) := by
  obtain ⟨us, vs, rfl, hround⟩ := exists_append_of_isRotated h
  cases vs with
  | nil =>
      obtain rfl : a :: xs = us := hround
      simpa using spans_isRotated ha [] xs
  | cons v vs =>
      obtain ⟨rfl, rfl⟩ := List.cons_eq_cons.mp hround
      exact spans_isRotated ha us vs

end Spans

end Contour

end FontTrace
