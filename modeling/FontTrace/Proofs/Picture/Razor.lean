import FontTrace.Proofs.Geometry.Places
import FontTrace.Proofs.Geometry.Spans
import FontTrace.Proofs.Picture.Strokes

/-!
# FontTrace.Proofs.Picture.Razor

A razor along a contour.  Before overlaps are removed it leaves one band for every span, in order;
of a closed contour, the span that leads back to the start is one of them.

* `isBand_band` — what a band is;
* `segmentEnd?_eq` — a segment is the span from its first node on;
* `bands_eq` — the bands of a contour are those of its spans;
* `strokeRazor_sweeps_spans` — every engine and every outline, contour by contour.
-/

namespace FontTrace

variable {σ : Type}

/-! ## one band -/

/-- Along nodes moved right, and back along them moved left. -/
def loopAround (half : Float) (s : List Node) : Contour :=
  ⟨s.map (·.map (Affine.translation half 0).apply) ++
    s.reverse.map (·.map (Affine.translation (-half) 0).apply), true⟩

/-- A band around nodes, in one direction or in the other. -/
structure IsBand (half : Float) (s : List Node) (b : Contour) : Prop where
  closed : b.closed = true
  size : b.size = 2 * s.length
  around : b = loopAround half s ∨ b = (loopAround half s).reversed
  first : b.nodes.head? = s.head?.map (·.map (Affine.translation half 0).apply)

theorem isBand_band (half : Float) (n : Node) (s : List Node) :
    IsBand half (n :: s) (band half (n :: s)) := by
  have hband : band half (n :: s) =
      if (loopAround half (n :: s)).isClockwise then loopAround half (n :: s)
      else (loopAround half (n :: s)).reversed := rfl
  have hsize : (loopAround half (n :: s)).size = 2 * (n :: s).length := by
    simp only [loopAround, Contour.size, List.length_append, List.length_map, List.length_reverse]
    omega
  rw [hband]
  split
  · exact ⟨rfl, hsize, .inl rfl, rfl⟩
  · exact ⟨rfl, (Contour.size_reversed _).trans hsize, .inr rfl, rfl⟩

/-! ## where segments end -/

section Bands

variable {c : Contour} {a b first : Node} {front back before l rest closing : List Node}
  {half : Float}

/-- Round the contour, a segment ends at the next node on the curve. -/
theorem segmentEnd?_eq (hnodes : c.nodes = front ++ a :: back)
    (hround : back ++ front = l ++ b :: rest) (hl : AllOff l)
    (hlength : l.length = 0 ∨ l.length = 2) (hb : b.onCurve = true) :
    ∃ j, segmentEnd? c front.length = some j ∧
      cyclicSlice c.nodes front.length j = a :: (l ++ [b]) := by
  rw [segmentEnd?, Contour.size, hnodes]
  obtain ⟨j, hj, -, hend, hslice⟩ := exists_place (a := a) hround
  refine ⟨j, ?_, hslice⟩
  rcases hlength with hnone | htwo
  · obtain rfl := List.eq_nil_of_length_eq_zero hnone
    rw [List.length_nil, Nat.add_zero] at hj
    simp only [List.map_cons, List.find?_cons, hj, hend, Option.any_some, hb]
  · obtain ⟨u, v, rfl⟩ := List.length_eq_two.mp htwo
    obtain ⟨hu, hv⟩ := allOff_cons.mp hl
    obtain ⟨hv, -⟩ := allOff_cons.mp hv
    -- the two places behind the first node are those of its control points
    have hround₁ : back ++ front = [] ++ u :: v :: b :: rest := hround
    have hround₂ : back ++ front = [u] ++ v :: b :: rest := hround
    obtain ⟨j₁, hj₁, -, hu?, -⟩ := exists_place (a := a) hround₁
    obtain ⟨j₂, hj₂, -, hv?, -⟩ := exists_place (a := a) hround₂
    rw [List.length_nil, Nat.add_zero] at hj₁
    rw [List.length_singleton, Nat.add_assoc] at hj₂
    have hj₃ : (front.length + 3) % (front ++ a :: back).length = j := hj
    simp only [List.map_cons, List.find?_cons, hj₁, hj₂, hj₃, hu?, hv?, hend, Option.any_some, hu,
      hv, hb]

/-! ## bands of nodes with their places -/

/-- The bands of the segments that start with one of several nodes, given with their places. -/
def bandsAt (half : Float) (c : Contour) (xs : List (Node × Nat)) : Outline :=
  ((xs.filterMap fun (n, i) => if n.onCurve then some i else none).filter fun i =>
    c.closed || i + 1 < c.size).filterMap fun i =>
      (segmentEnd? c i).map fun j => band half (cyclicSlice c.nodes i j)

theorem bandsAt_append (half : Float) (c : Contour) (xs ys : List (Node × Nat)) :
    bandsAt half c (xs ++ ys) = bandsAt half c xs ++ bandsAt half c ys := by
  simp [bandsAt]

theorem bandsAt_off (hl : AllOff l) (half : Float) (c : Contour) (k : Nat) :
    bandsAt half c (l.zipIdx k) = [] := by
  have hnone : (l.zipIdx k).filterMap (fun (n, i) => if n.onCurve then some i else none) = [] := by
    refine List.filterMap_eq_nil_iff.mpr fun x hx => ?_
    simp [hl x.1 (List.fst_mem_of_mem_zipIdx hx)]
  rw [bandsAt, hnone]
  rfl

theorem bandsAt_one (ha : a.onCurve = true) (hnodes : c.nodes = front ++ a :: back)
    (hkept : (c.closed || front.length + 1 < c.size) = true)
    (hround : back ++ front = l ++ b :: rest) (hl : AllOff l)
    (hlength : l.length = 0 ∨ l.length = 2) (hb : b.onCurve = true) :
    bandsAt half c [(a, front.length)] = [band half (a :: (l ++ [b]))] := by
  obtain ⟨j, hj, hslice⟩ := segmentEnd?_eq hnodes hround hl hlength hb
  simp [bandsAt, ha, hkept, hj, hslice]

/-- From a node on the curve on, the bands are those of the spans that begin there, if that holds
behind the last node on the curve. -/
theorem bandsAt_eq (hplain : ∀ s ∈ spansFrom [a] (back ++ closing), s.length = 2 ∨ s.length = 4)
    (hend : ∀ front a back, c.nodes = front ++ a :: back → a.onCurve = true → AllOff back →
      (∀ s ∈ spansFrom [a] (back ++ closing), s.length = 2 ∨ s.length = 4) →
      bandsAt half c [(a, front.length)] = (spansFrom [a] (back ++ closing)).map (band half))
    (ha : a.onCurve = true) (hnodes : c.nodes = front ++ a :: back) :
    bandsAt half c ((a :: back).zipIdx front.length) =
      (spansFrom [a] (back ++ closing)).map (band half) := by
  -- by the nodes behind, from one node on the curve to the next one
  induction hn : back.length using Nat.strong_induction_on generalizing front a back with
  | _ n ih =>
      have hcons (xs : List (Node × Nat)) : bandsAt half c ((a, front.length) :: xs) =
          bandsAt half c [(a, front.length)] ++ bandsAt half c xs := bandsAt_append half c [_] xs
      rw [List.zipIdx_cons, hcons]
      rcases allOff_or_exists_first back with hoff | ⟨l, b, back', rfl, hl, hb⟩
      · rw [bandsAt_off hoff, List.append_nil]
        exact hend front a back hnodes ha hoff hplain
      · have hspans : spansFrom [a] (l ++ b :: back' ++ closing) =
            (a :: (l ++ [b])) :: spansFrom [b] (back' ++ closing) := by
          rw [List.append_assoc]
          exact spansFrom_next hl hb [a] (back' ++ closing)
        rw [hspans] at hplain ⊢
        obtain ⟨hlength, hrest⟩ := List.forall_mem_cons.mp hplain
        have hround : l ++ b :: back' ++ front = l ++ b :: (back' ++ front) := by simp
        have hkept : (c.closed || front.length + 1 < c.size) = true := by
          have hlt : front.length + 1 < c.size := by
            simp only [Contour.size, hnodes, List.length_append, List.length_cons]
            omega
          simp [hlt]
        have hnext : c.nodes = front ++ a :: l ++ b :: back' := by simp [hnodes]
        have hsize : back'.length < n := by
          simp only [← hn, List.length_append, List.length_cons]
          omega
        have hplace : front.length + 1 + l.length = (front ++ a :: l).length := by
          simp only [List.length_append, List.length_cons]
          omega
        rw [bandsAt_one ha hnodes hkept hround hl (length_controls hlength) hb,
          List.zipIdx_append, bandsAt_append, bandsAt_off hl, hplace,
          ih back'.length hsize hrest hb hnext rfl]
        rfl

/-! ## bands of a contour -/

theorem bands_eq_bandsAt (half : Float) (c : Contour) :
    bands half c = bandsAt half c c.nodes.zipIdx := rfl

theorem bands_closed (hbefore : AllOff before) (hfirst : first.onCurve = true)
    (hc : Contour.IsPlain ⟨before ++ first :: rest, true⟩)
    (hcount : 2 ≤ Contour.onCurveCount ⟨before ++ first :: rest, true⟩) :
    bands half ⟨before ++ first :: rest, true⟩ =
      (Contour.spans ⟨before ++ first :: rest, true⟩).map (band half) := by
  have hplain := hc.lengths
  rw [Contour.spans_closed hbefore hfirst, List.append_assoc] at hplain ⊢
  rw [bands_eq_bandsAt, List.zipIdx_append, bandsAt_append, bandsAt_off hbefore, Nat.zero_add]
  refine bandsAt_eq hplain (fun front a back hnodes ha hback hlengths => ?_) hfirst rfl
  -- another node on the curve is in front of the last one, and the first of them ends its span
  have hfront : ∃ middle, front = before ++ first :: middle := by
    have hnodes : before ++ first :: rest = front ++ a :: back := hnodes
    rcases allOff_or_exists_first front with hoff | ⟨before', first', middle, rfl, hoff, hon⟩
    · simp [Contour.onCurveCount, hnodes, List.countP_eq_length_filter, ha,
        filter_onCurve_of_allOff hoff, filter_onCurve_of_allOff hback] at hcount
    · rw [List.append_assoc] at hnodes
      obtain ⟨rfl, rfl, -⟩ := first_onCurve_unique hnodes hbefore hfirst hoff hon
      exact ⟨middle, rfl⟩
  obtain ⟨middle, rfl⟩ := hfront
  have hspans : spansFrom [a] (back ++ (before ++ [first])) =
      [a :: (back ++ before ++ [first])] := by
    rw [← List.append_assoc]
    exact spansFrom_next (allOff_append.mpr ⟨hback, hbefore⟩) hfirst [a] []
  rw [hspans] at hlengths ⊢
  have hcontrols : (back ++ before).length = 0 ∨ (back ++ before).length = 2 :=
    length_controls (hlengths _ List.mem_cons_self)
  have hround : back ++ (before ++ first :: middle) = back ++ before ++ first :: middle := by simp
  exact bandsAt_one ha hnodes rfl hround (allOff_append.mpr ⟨hback, hbefore⟩) hcontrols hfirst

theorem bands_open (hfirst : first.onCurve = true) (hc : Contour.IsPlain ⟨first :: rest, false⟩) :
    bands half ⟨first :: rest, false⟩ =
      (Contour.spans ⟨first :: rest, false⟩).map (band half) := by
  have hspans : Contour.spans ⟨first :: rest, false⟩ = spansFrom [first] (rest ++ []) := by
    rw [List.append_nil]
    exact Contour.spans_open allOff_nil hfirst rest
  have hplain := hc.lengths
  rw [hspans] at hplain ⊢
  show bandsAt half _ ((first :: rest).zipIdx ([] : List Node).length) = _
  refine bandsAt_eq hplain (fun front a back hnodes ha hback hlengths => ?_) hfirst rfl
  -- nothing is behind the last node on the curve
  obtain rfl : back = [] := by
    have hnodes : first :: rest = front ++ a :: back := hnodes
    have hlast := hc.last rfl
    rw [hnodes, List.append_cons] at hlast
    exact eq_nil_of_getLast? hback hlast
  have hsize : ¬front.length + 1 < Contour.size ⟨first :: rest, false⟩ := by
    have hnodes : first :: rest = front ++ [a] := hnodes
    simp [Contour.size, hnodes]
  simp [bandsAt, ha, hsize, spansFrom]

/-- A contour of lines and cubics has a band for every span, in order. -/
theorem bands_eq (hc : c.IsPlain) (hcount : 2 ≤ c.onCurveCount) (half : Float) :
    bands half c = c.spans.map (band half) := by
  obtain ⟨nodes, closed⟩ := c
  rcases allOff_or_exists_first nodes with hoff | ⟨before, first, rest, rfl, hbefore, hfirst⟩
  · simp [Contour.onCurveCount_of_allOff hoff] at hcount
  · cases closed with
    | true => exact bands_closed hbefore hfirst hc hcount
    | false =>
        obtain rfl : before = [] := eq_nil_of_head? hbefore (hc.first rfl)
        exact bands_open hfirst hc

end Bands

/-! ## the run -/

/-- The razor along one contour after the other: each is turned and gets its extremes, and the
union of its bands comes behind what is there.  Listed are the contours that are swept. -/
inductive Sweeps (e : Engine σ) (cfg : Settings) (width angle : Float) :
    Outline → σ → Outline → Outline → σ → Prop
  | nil (t : σ) : Sweeps e cfg width angle [] t [] [] t
  | cons {c d : Contour} {o swept union ink : Outline} {t t₁ t₂ t' : σ}
      (hd : e.addExtrema (c.transform (Affine.rotation (-angle))) t = (d, t₁))
      (hunion : (removeOverlapScaled e cfg.geometry.removeOverlapScale false
        (bands (width / 2) d) t₁).value = (union, t₂))
      (h : Sweeps e cfg width angle o t₂ swept ink t') :
      Sweeps e cfg width angle (c :: o) t (d :: swept) (union ++ ink) t'

/-- One contour after the other, the ink of what is swept is put behind the ink before it. -/
theorem exists_sweeps (e : Engine σ) (cfg : Settings) (width angle : Float) (o before : Outline)
    (t : σ) : ∃ swept ink t', Sweeps e cfg width angle o t swept ink t' ∧
      (o.foldlM (fun (ink : Outline) (c : Contour) => do
        return ink ++ (← razorInk e cfg width (c.transform (Affine.rotation (-angle)))))
          before t).value = (before ++ ink, t') := by
  induction o generalizing before t with
  | nil => exact ⟨[], [], t, .nil t, by simp; rfl⟩
  | cons c o ih =>
      let d := e.addExtrema (c.transform (Affine.rotation (-angle))) t
      let union := (removeOverlapScaled e cfg.geometry.removeOverlapScale false
        (bands (width / 2) d.1) d.2).value
      obtain ⟨swept, ink, t', hsweeps, hvalue⟩ := ih (before ++ union.1) union.2
      refine ⟨d.1 :: swept, union.1 ++ ink, t', .cons rfl rfl hsweeps, ?_⟩
      rw [List.foldlM_cons, ← List.append_assoc]
      exact hvalue

/-- All spans of a contour are swept, each once: from the first node on the curve, those of a
closed contour lead back to it, and those of an open one to its last node. -/
structure SweptOnce (half : Float) (d : Contour) : Prop where
  each : List.Forall₂ (IsBand half) d.spans (bands half d)
  count : (bands half d).length = if d.closed then d.onCurveCount else d.onCurveCount - 1
  around : d.closed = true → ∃ a ∈ d.nodes.find? (·.onCurve), Leads a d.spans a
  along : d.closed = false → ∃ a ∈ d.nodes.head?, ∃ b ∈ d.nodes.getLast?, Leads a d.spans b

theorem sweptOnce_of_plain {c : Contour} (hc : c.IsPlain) (hcount : 2 ≤ c.onCurveCount)
    (half : Float) : SweptOnce half c := by
  have hbands := bands_eq hc hcount half
  obtain ⟨nodes, closed⟩ := c
  obtain ⟨before, first, rest, rfl, hbefore, hfirst⟩ : ∃ before first rest,
      nodes = before ++ first :: rest ∧ AllOff before ∧ first.onCurve = true := by
    refine (allOff_or_exists_first nodes).resolve_left fun hoff => ?_
    simp [Contour.onCurveCount_of_allOff hoff] at hcount
  refine ⟨?_, ?_, fun hclosed => ?_, fun hopen => ?_⟩
  · rw [hbands, List.forall₂_map_right_iff, List.forall₂_same]
    intro s hs
    cases Contour.isSpan_of_mem_spans hs with
    | @between a b l ha hl hb => exact isBand_band half a (l ++ [b])
  · rw [hbands, List.length_map, Contour.length_spans]
  · obtain rfl : closed = true := hclosed
    exact ⟨first, Contour.find?_onCurve hbefore hfirst,
      Contour.leads_spans_closed hbefore hfirst rest⟩
  · obtain rfl : closed = false := hopen
    obtain rfl : before = [] := eq_nil_of_head? hbefore (hc.first rfl)
    rcases List.eq_nil_or_concat rest with rfl | ⟨ms, n, rfl⟩
    · simp [Contour.onCurveCount, hfirst] at hcount
    · have hend : [] ++ first :: ms.concat n = first :: ms ++ [n] := by simp
      rw [hend] at hc ⊢
      have hlast : (first :: ms ++ [n]).getLast? = some n := List.getLast?_concat
      exact ⟨first, rfl, n, hlast, Contour.leads_spans_open hfirst (hc.last rfl n hlast) ms⟩

/-- Whatever the engine, a razor sweeps every span of the contours that it gets from the engine. -/
theorem strokeRazor_sweeps_spans (e : Engine σ) (cfg : Settings) (width angle : Float) (o : Outline)
    (t : σ) : ∃ swept ink t', Sweeps e cfg width angle o t swept ink t' ∧
      (strokeRazor e cfg width angle o t).value = (ink.transform (Affine.rotation angle), t') ∧
      ∀ d ∈ swept, d.IsPlain → 2 ≤ d.onCurveCount → SweptOnce (width / 2) d := by
  obtain ⟨swept, ink, t', hsweeps, hvalue⟩ := exists_sweeps e cfg width angle o [] t
  refine ⟨swept, ink, t', hsweeps, ?_, fun d _ hd hcount => sweptOnce_of_plain hd hcount _⟩
  exact congrArg (fun x : Outline × σ => (x.1.transform (Affine.rotation angle), x.2)) hvalue

/-- A triangle with two straight sides; the third one is a curve back to the start. -/
def bentTriangle : Contour :=
  ⟨[.on ⟨0, 0⟩, .on ⟨10, 0⟩, .on ⟨5, 10⟩, .off ⟨0, 10⟩, .off ⟨-5, 5⟩], true⟩

/-- All of its sides are swept, with an engine that adds no extremes to them. -/
theorem strokeRazor_of_bentTriangle :
    let e : Engine Unit := { Engine.basic with addExtrema := pure }
    ∃ d ink t', Sweeps e {} 4 0.5 [bentTriangle] () [d] ink t' ∧
      (strokeRazor e {} 4 0.5 [bentTriangle] ()).value =
        (ink.transform (Affine.rotation 0.5), t') ∧
      d.IsPlain ∧ d.onCurveCount = 3 ∧ SweptOnce (4 / 2) d := by
  intro e
  obtain ⟨swept, ink, t', hsweeps, hvalue, hall⟩ :=
    strokeRazor_sweeps_spans e {} 4 0.5 [bentTriangle] ()
  obtain rfl : swept = [bentTriangle.transform (Affine.rotation (-0.5))] := by
    obtain _ | ⟨hd, -, hrest⟩ := hsweeps
    cases hrest
    exact congrArg (fun d => [d]) (Prod.ext_iff.mp hd).1.symm
  have hplain : (bentTriangle.transform (Affine.rotation (-0.5))).IsPlain :=
    ⟨by decide, by decide, by decide⟩
  have hcount : (bentTriangle.transform (Affine.rotation (-0.5))).onCurveCount = 3 := by decide
  refine ⟨_, ink, t', hsweeps, hvalue, hplain, hcount, ?_⟩
  exact hall _ List.mem_cons_self hplain (by rw [hcount]; decide)

end FontTrace
