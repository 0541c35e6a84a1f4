import FontTrace.Engine.Basic
import FontTrace.Proofs.Geometry.Spans
import FontTrace.Proofs.Geometry.Turning

/-!
# FontTrace.Proofs.Geometry.Subdivision

Nodes at the extremes of curves.  A cubic span gives way to the spans of its parts, the last of
which ends where the span did if cutting keeps the end; what counts as the same place is left open.

* `extremaFrom_eq` — the nodes that are added, span by span;
* `exists_cut` — one span, and the spans that stand for it;
* `exists_cuts` — spans that lead to some node, whatever node is put there in its place;
* `addExtrema_subdivides` — every contour of lines and cubics.
-/

namespace FontTrace

/-! ## parts of a curve -/

namespace Piece

/-- The parts of a piece between its extremes. -/
def parts (p : Piece) : List Piece := p.cutAt 0 (cutParameters p)

theorem cutAt_ne_nil (p : Piece) (t : Float) (ts : List Float) : p.cutAt t ts ≠ [] := by
  cases ts <;> simp [cutAt]

theorem cubic_of_mem_cutAt {a c d b : Point} {q : Piece} {t : Float} {ts : List Float}
    (hq : q ∈ (cubic a c d b).cutAt t ts) : ∃ a' c' d' b', q = cubic a' c' d' b' := by
  induction ts generalizing t with
  | nil => exact ⟨_, _, _, _, List.mem_singleton.mp hq⟩
  | cons s ts ih =>
      rcases List.mem_cons.mp hq with rfl | hq
      · exact ⟨_, _, _, _, rfl⟩
      · exact ih hq

end Piece

/-- The nodes of a span behind its first one, a cubic one cut at its extremes. -/
def cutNodes : List Node → List Node
  | [a, u, v, b] => cubicNodes (Piece.cubic a.pos u.pos v.pos b.pos).parts
  | s => s.tail

/-- Nodes at the same place, both on the curve or both off it. -/
def Alike (R : Point → Point → Prop) (n m : Node) : Prop := m.onCurve = n.onCurve ∧ R n.pos m.pos

/-- A cubic span with the control points of a piece, that ends where the piece does. -/
inductive DrawsPart (R : Point → Point → Prop) : Piece → List Node → Prop
  | cubic {a u v b : Point} {x y : Node} (hx : x.onCurve = true) (hy : Alike R y (.on b)) :
      DrawsPart R (.cubic a u v b) [x, .off u, .off v, y]

/-- What becomes of a span: a straight one is kept, and a cubic one gives way to the spans of its
parts. -/
inductive Subdivides (R : Point → Point → Prop) : List Node → List (List Node) → Prop
  | line {a b a' b' : Node} (ha : Alike R a a') (hb : Alike R b b') :
      Subdivides R [a, b] [[a', b']]
  | curve {a u v b a' b' : Node} {ss : List (List Node)} (ha : Alike R a a') (hb : Alike R b b')
      (hss : Leads a' ss b')
      (hparts : List.Forall₂ (DrawsPart R) (Piece.cubic a.pos u.pos v.pos b.pos).parts ss) :
      Subdivides R [a, u, v, b] ss

/-- Cutting a cubic span keeps its end. -/
def KeepsEnd (R : Point → Point → Prop) (s : List Node) : Prop :=
  ∀ a u v b, s = [a, u, v, b] →
    ∀ q ∈ (Piece.cubic a.pos u.pos v.pos b.pos).parts.getLast?, R b.pos q.last

section Cutting

variable {R : Point → Point → Prop} {a b n a' b' : Node} {l ms s : List Node}
  {ss : List (List Node)}

theorem Alike.refl (hrefl : ∀ p, R p p) (n : Node) : Alike R n n := ⟨rfl, hrefl n.pos⟩

theorem Alike.onCurve (h : Alike R n a) (hn : n.onCurve = true) : a.onCurve = true := h.1.trans hn

/-! ## nodes span by span -/

theorem map_off_pos (hl : AllOff l) : (l.map (·.pos)).map Node.off = l := by
  induction l with
  | nil => rfl
  | cons n l ih =>
      obtain ⟨hn, hrest⟩ := allOff_cons.mp hl
      have hnode : Node.off n.pos = n := by
        obtain ⟨pos, onCurve⟩ := n
        exact congrArg (Node.mk pos) hn.symm
      rw [List.map_cons, List.map_cons, hnode, ih hrest]

theorem extremaFrom_on (hl : AllOff l) (hn : n.onCurve = true) (a : Node) (ns : List Node) :
    extremaFrom a.pos (l.map (·.pos)) (n :: ns) =
      (cutNodes (a :: (l ++ [n])) ++ (extremaFrom n.pos [] ns).1,
        (extremaFrom n.pos [] ns).2) := by
  rw [extremaFrom, if_pos hn]
  have hcontrols := map_off_pos hl
  match l with
  | [] => rfl
  | [x] => simpa [cutNodes] using hcontrols
  | [x, y] => rfl
  | x :: y :: z :: l => simpa [cutNodes] using hcontrols

/-- Up to a node on the curve, the nodes are those of one span after the other. -/
theorem extremaFrom_eq (hl : AllOff l) (hb : b.onCurve = true) (a : Node) (ms : List Node) :
    extremaFrom a.pos (l.map (·.pos)) (ms ++ [b]) =
      ((spansFrom (a :: l) (ms ++ [b])).flatMap cutNodes, []) := by
  induction ms generalizing a l with
  | nil =>
      rw [List.nil_append, extremaFrom_on hl hb, spansFrom_cons_on hb]
      simp [extremaFrom, spansFrom]
  | cons n ms ih =>
      cases hn : n.onCurve with
      | true =>
          have hnext := ih allOff_nil n
          rw [List.map_nil] at hnext
          rw [List.cons_append, extremaFrom_on hl hn, spansFrom_cons_on hn, hnext]
          rfl
      | false =>
          have hmore : AllOff (l ++ [n]) :=
            allOff_append.mpr ⟨hl, allOff_cons.mpr ⟨hn, allOff_nil⟩⟩
          have hnext := ih hmore a
          rw [List.map_append] at hnext
          rw [List.cons_append, extremaFrom, if_neg (by simp [hn])]
          simpa [spansFrom, hn] using hnext

/-! ## one span -/

/-- The nodes of cubic pieces make one span for each of them. -/
theorem drawsPart_cubicNodes {ps : List Piece} {q : Piece}
    (hcubic : ∀ p ∈ ps ++ [q], ∃ a u v b, p = .cubic a u v b) (hrefl : ∀ p, R p p)
    (ha' : a'.onCurve = true) (hb' : Alike R b' (.on q.last)) :
    List.Forall₂ (DrawsPart R) (ps ++ [q])
      (spansFrom [a'] (cubicNodes ps ++ q.controls.map .off ++ [b'])) := by
  induction ps generalizing a' with
  | nil =>
      obtain ⟨a, u, v, b, rfl⟩ := hcubic q (by simp)
      have hon : b'.onCurve = true := hb'.1.symm
      have hspans : spansFrom [a'] (cubicNodes [] ++ [.off u, .off v] ++ [b']) =
          [[a', .off u, .off v, b']] := by simp [cubicNodes, spansFrom, Node.off, hon]
      exact hspans ▸ .cons (.cubic ha' hb') .nil
  | cons p ps ih =>
      obtain ⟨a, u, v, b, rfl⟩ := hcubic p (by simp)
      have hspans (ns : List Node) : spansFrom [a'] (.off u :: .off v :: .on b :: ns) =
          [a', .off u, .off v, .on b] :: spansFrom [.on b] ns := by
        simp [spansFrom, Node.off, Node.on]
      have hon : (Node.on b).onCurve = true := rfl
      have hrest := ih (fun p hp => hcubic p (List.mem_cons_of_mem _ hp)) hon
      have hfirst : DrawsPart R (.cubic a u v b) [a', .off u, .off v, .on b] :=
        .cubic ha' (.refl hrefl _)
      exact (hspans _).symm ▸ .cons hfirst hrest

/-- What is put in the place of a span leads from any node alike to its end, or to the node that
the last part ends with. -/
theorem exists_cut (hrefl : ∀ p, R p p) (hspan : IsSpan (a :: (l ++ [b])))
    (hlength : (a :: (l ++ [b])).length = 2 ∨ (a :: (l ++ [b])).length = 4)
    (hend : KeepsEnd R (a :: (l ++ [b]))) :
    ∃ body w, cutNodes (a :: (l ++ [b])) = body ++ [w] ∧ Alike R b w ∧
      ∀ a' b', Alike R a a' → b' = b ∨ b' = w →
        Subdivides R (a :: (l ++ [b])) (spansFrom [a'] (body ++ [b'])) := by
  obtain ⟨ha, -, hb⟩ := hspan.ends
  rcases length_controls hlength with hnone | htwo
  · obtain rfl := List.eq_nil_of_length_eq_zero hnone
    refine ⟨[], b, rfl, .refl hrefl b, ?_⟩
    rintro a' b' ha' (rfl | rfl) <;>
      simpa [spansFrom, hb] using Subdivides.line ha' (.refl hrefl _)
  · obtain ⟨u, v, rfl⟩ := List.length_eq_two.mp htwo
    set p := Piece.cubic a.pos u.pos v.pos b.pos with hp
    obtain ⟨ps, q, hparts⟩ : ∃ ps q, p.parts = ps ++ [q] := by
      rcases List.eq_nil_or_concat p.parts with hnil | ⟨ps, q, hconcat⟩
      · exact absurd hnil (p.cutAt_ne_nil 0 _)
      · exact ⟨ps, q, hconcat.trans (List.concat_eq_append ..)⟩
    have hq : R b.pos q.last := hend a u v b rfl q (by rw [← hp, hparts]; simp)
    have hcubic : ∀ p ∈ ps ++ [q], ∃ a u v b, p = .cubic a u v b := by
      rw [← hparts]
      exact fun r hr => Piece.cubic_of_mem_cutAt hr
    refine ⟨cubicNodes ps ++ q.controls.map .off, .on q.last, ?_, ⟨hb.symm, hq⟩, ?_⟩
    · change cubicNodes p.parts = _
      rw [hparts]
      simp [cubicNodes]
    · rintro a' b' ha' hb'
      have hends : Alike R b b' ∧ Alike R b' (.on q.last) := by
        rcases hb' with rfl | rfl
        · exact ⟨.refl hrefl _, hb.symm, hq⟩
        · exact ⟨⟨hb.symm, hq⟩, .refl hrefl _⟩
      refine .curve ha' hends.1 (leads_spansFrom (hends.1.onCurve hb) a' [] _) ?_
      rw [← hp, hparts]
      exact drawsPart_cubicNodes hcubic hrefl (ha'.onCurve ha) hends.2

/-- The same for spans one behind the other. -/
theorem exists_cuts (hrefl : ∀ p, R p p) (hleads : Leads a ss b) (hspans : ∀ s ∈ ss, IsSpan s)
    (hlengths : ∀ s ∈ ss, s.length = 2 ∨ s.length = 4) (hends : ∀ s ∈ ss, KeepsEnd R s)
    (ha' : Alike R a a') :
    ∃ body w, ss.flatMap cutNodes = body ++ [w] ∧ Alike R b w ∧
      ∀ b', b' = b ∨ b' = w → ∃ parts, List.Forall₂ (Subdivides R) ss parts ∧
        spansFrom [a'] (body ++ [b']) = parts.flatten := by
  induction hleads generalizing a' with
  | last a l b =>
      rw [List.forall_mem_singleton] at hspans hlengths hends
      obtain ⟨body, w, hbody, hw, hcut⟩ := exists_cut hrefl hspans hlengths hends
      refine ⟨body, w, by simpa using hbody, hw, fun b' hb' => ?_⟩
      exact ⟨[_], .cons (hcut a' b' ha' hb') .nil, by simp⟩
  | @cons a l m b ss h ih =>
      obtain ⟨hspan, hspans⟩ := List.forall_mem_cons.mp hspans
      obtain ⟨hlength, hlengths⟩ := List.forall_mem_cons.mp hlengths
      obtain ⟨hend, hends⟩ := List.forall_mem_cons.mp hends
      obtain ⟨body₁, m', hbody₁, hm', hcut⟩ := exists_cut hrefl hspan hlength hend
      obtain ⟨body₂, w, hbody₂, hw, hcuts⟩ := ih hspans hlengths hends hm'
      refine ⟨body₁ ++ m' :: body₂, w, ?_, hw, fun b' hb' => ?_⟩
      · rw [List.flatMap_cons, hbody₁, hbody₂]
        simp
      · obtain ⟨parts, hparts, hflatten⟩ := hcuts b' hb'
        refine ⟨_ :: parts, .cons (hcut a' m' ha' (.inr rfl)) hparts, ?_⟩
        have hon : m'.onCurve = true := hm'.onCurve hspan.ends.2.2
        have hsplit : body₁ ++ m' :: body₂ ++ [b'] = body₁ ++ m' :: (body₂ ++ [b']) := by simp
        rw [hsplit, spansFrom_append_cons hon, hflatten, List.flatten_cons]

/-! ## what stands for a span -/

theorem DrawsPart.length {p : Piece} (h : DrawsPart R p s) : s.length = 4 := by
  cases h
  rfl

theorem length_of_drawsPart {ps : List Piece} (h : List.Forall₂ (DrawsPart R) ps ss) :
    ∀ s ∈ ss, s.length = 4 := by
  induction h with
  | nil => exact List.forall_mem_nil _
  | cons hdraws hrest ih => exact List.forall_mem_cons.mpr ⟨hdraws.length, ih⟩

theorem Subdivides.lengths (h : Subdivides R s ss) : ∀ t ∈ ss, t.length = 2 ∨ t.length = 4 := by
  cases h with
  | line => exact List.forall_mem_singleton.mpr (.inl rfl)
  | curve ha hb hss hparts => exact fun t ht => .inr (length_of_drawsPart hparts t ht)

theorem Subdivides.leads (h : Subdivides R s ss) :
    ∃ a l b a' b', s = a :: (l ++ [b]) ∧ Alike R a a' ∧ Leads a' ss b' := by
  cases h with
  | @line a b a' b' ha hb => exact ⟨a, [], b, a', b', rfl, ha, .last a' [] b'⟩
  | @curve a u v b a' b' ss ha hb hss hparts => exact ⟨a, [u, v], b, a', b', rfl, ha, hss⟩

theorem dropLast_span (a : Node) (l : List Node) (b : Node) :
    (a :: (l ++ [b])).dropLast = a :: l := by
  rw [← List.cons_append, List.dropLast_concat]

theorem Leads.exists_cons (h : Leads a ss b) : ∃ ns, ss.flatMap List.dropLast = a :: ns := by
  cases h with
  | last a l b => exact ⟨_, by rw [List.flatMap_cons, dropLast_span, List.cons_append]⟩
  | cons a l h => exact ⟨_, by rw [List.flatMap_cons, dropLast_span, List.cons_append]⟩

theorem sublistForall₂_append {α β : Type} {r : α → β → Prop} {xs xs' : List α} {ys ys' : List β}
    (h : List.SublistForall₂ r xs ys) (h' : List.SublistForall₂ r xs' ys') :
    List.SublistForall₂ r (xs ++ xs') (ys ++ ys') := by
  induction h with
  | @nil ys =>
      induction ys with
      | nil => exact h'
      | cons y ys ih => exact .cons_right ih
  | cons hr _ ih => exact .cons hr ih
  | cons_right _ ih => exact .cons_right ih

/-- The nodes on the curve of spans occur among those of the spans that stand for them. -/
theorem points_of_subdivides {parts : List (List (List Node))}
    (h : List.Forall₂ (Subdivides R) ss parts) (hspans : ∀ s ∈ ss, IsSpan s) :
    List.SublistForall₂ (Alike R) ((ss.flatMap List.dropLast).filter (·.onCurve))
      ((parts.flatten.flatMap List.dropLast).filter (·.onCurve)) := by
  induction h with
  | nil => exact .nil
  | @cons s part ss parts hsub hrest ih =>
      obtain ⟨hspan, hothers⟩ := List.forall_mem_cons.mp hspans
      obtain ⟨a, l, b, a', b', rfl, ha', hleads⟩ := hsub.leads
      obtain ⟨ns, hns⟩ := hleads.exists_cons
      obtain ⟨ha, hl, -⟩ := hspan.ends
      have hold : (a :: (l ++ [b])).dropLast.filter (·.onCurve) = [a] := by
        rw [dropLast_span, List.filter_cons_of_pos ha, filter_onCurve_of_allOff hl]
      have hnew : (part.flatMap List.dropLast).filter (·.onCurve) =
          a' :: ns.filter (·.onCurve) := by
        rw [hns, List.filter_cons_of_pos (ha'.onCurve ha)]
      rw [List.flatMap_cons, List.flatten_cons, List.flatMap_append, List.filter_append,
        List.filter_append, hold, hnew]
      exact sublistForall₂_append (.cons ha' .nil) (ih hothers)

end Cutting

/-! ## contours -/

namespace Contour

/-- The contour `d` is `c` with spans subdivided; a closed one starts with its first node on the
curve, and is what its spans are without their ends. -/
structure Subdivided (R : Point → Point → Prop) (c d : Contour) : Prop where
  closed_eq : d.closed = c.closed
  plain : d.IsPlain
  spans : ∃ parts, List.Forall₂ (Subdivides R) c.spans parts ∧ d.spans = parts.flatten
  points : List.SublistForall₂ (Alike R) (c.nodes.filter (·.onCurve)) (d.nodes.filter (·.onCurve))
  starts : c.closed = true → ∀ f, c.nodes.find? (·.onCurve) = some f →
    d.nodes.head? = some f ∧ d.nodes = d.spans.flatMap List.dropLast
  straight : (∀ s ∈ c.spans, s.length = 2) → d = c.startingAt (c.firstOnCurve?.getD 0)

section Contours

variable {R : Point → Point → Prop} {c : Contour} {first e : Node} {before rest ms : List Node}
  {ss : List (List Node)}

theorem flatMap_cutNodes (h : ∀ s ∈ ss, s.length = 2) :
    ss.flatMap cutNodes = ss.flatMap List.tail := by
  refine List.flatMap_congr fun s hs => ?_
  obtain ⟨a, b, rfl⟩ := List.length_eq_two.mp (h s hs)
  rfl

theorem startingAt_first (before : List Node) (first : Node) (rest : List Node) :
    startingAt ⟨before ++ first :: rest, true⟩ before.length =
      ⟨first :: (rest ++ before), true⟩ := by
  simp [startingAt, rotatedTo]

theorem addExtremaTo_closed (hbefore : AllOff before) (hfirst : first.onCurve = true)
    (rest : List Node) :
    addExtremaTo ⟨before ++ first :: rest, true⟩ =
      ⟨(first :: (spans ⟨before ++ first :: rest, true⟩).flatMap cutNodes).dropLast, true⟩ := by
  have hplace : firstOnCurve? ⟨before ++ first :: rest, true⟩ = some before.length :=
    firstOnCurve?_eq hbefore hfirst rfl
  have hnodes := startingAt_first before first rest
  have hall := extremaFrom_eq allOff_nil hfirst first (rest ++ before)
  rw [List.map_nil] at hall
  simp only [addExtremaTo, hplace, hnodes, hall, spans_closed hbefore hfirst, if_true,
    List.map_nil, List.append_nil]

theorem addExtremaTo_open (hfirst : first.onCurve = true)
    (hrest : ∀ n ∈ (first :: rest).getLast?, n.onCurve = true) :
    addExtremaTo ⟨first :: rest, false⟩ =
      ⟨first :: (spans ⟨first :: rest, false⟩).flatMap cutNodes, false⟩ := by
  have hplace : firstOnCurve? ⟨first :: rest, false⟩ = some 0 :=
    firstOnCurve?_eq allOff_nil hfirst rfl
  have hspans : spans ⟨first :: rest, false⟩ = spansFrom [first] rest :=
    spans_open allOff_nil hfirst rest
  have hall : (extremaFrom first.pos [] rest).1 = (spansFrom [first] rest).flatMap cutNodes := by
    rcases List.eq_nil_or_concat rest with rfl | ⟨ms, e, rfl⟩
    · rfl
    · rw [List.concat_eq_append] at hrest ⊢
      rw [← List.cons_append, List.getLast?_concat] at hrest
      have hend := extremaFrom_eq allOff_nil (hrest e rfl) first ms
      rw [List.map_nil] at hend
      rw [hend]
  simp only [addExtremaTo, hplace, startingAt_zero, hall, hspans, Bool.false_eq_true, if_false,
    if_true]

theorem plain_of_subdivides {parts : List (List (List Node))}
    (h : List.Forall₂ (Subdivides R) ss parts) :
    ∀ t ∈ parts.flatten, t.length = 2 ∨ t.length = 4 := by
  induction h with
  | nil => exact List.forall_mem_nil _
  | cons hsub hrest ih =>
      rw [List.flatten_cons]
      exact List.forall_mem_append.mpr ⟨hsub.lengths, ih⟩

theorem subdivided_closed (hrefl : ∀ p, R p p) (hbefore : AllOff before)
    (hfirst : first.onCurve = true) (hc : IsPlain ⟨before ++ first :: rest, true⟩)
    (hends : ∀ s ∈ spans ⟨before ++ first :: rest, true⟩, KeepsEnd R s) :
    Subdivided R ⟨before ++ first :: rest, true⟩
      (addExtremaTo ⟨before ++ first :: rest, true⟩) := by
  have hspans := spans_closed hbefore hfirst rest
  obtain ⟨body, w, hbody, -, hcuts⟩ := exists_cuts hrefl (leads_spans_closed hbefore hfirst rest)
    (fun s hs => isSpan_of_mem_spans hs) hc.lengths hends (.refl hrefl first)
  obtain ⟨parts, hparts, hflatten⟩ := hcuts first (.inl rfl)
  have hnodes : addExtremaTo ⟨before ++ first :: rest, true⟩ = ⟨first :: body, true⟩ := by
    rw [addExtremaTo_closed hbefore hfirst, hbody, ← List.cons_append, List.dropLast_concat]
  have hnew : spans ⟨first :: body, true⟩ = parts.flatten := by
    rw [← hflatten]
    simpa using spans_closed allOff_nil hfirst body
  have hold : (spans ⟨before ++ first :: rest, true⟩).flatMap List.dropLast =
      first :: (rest ++ before) := by
    rw [hspans]
    exact flatMap_dropLast_spansFrom hfirst [first] (rest ++ before)
  have hdrop : first :: body = parts.flatten.flatMap List.dropLast := by
    rw [← hflatten]
    exact (flatMap_dropLast_spansFrom hfirst [first] body).symm
  rw [hnodes]
  refine ⟨rfl, ⟨?_, nofun, nofun⟩, ⟨parts, hparts, hnew⟩, ?_, fun _ f hf => ⟨?_, ?_⟩,
    fun hstraight => ?_⟩
  · rw [hnew]
    exact plain_of_subdivides hparts
  · have hpoints := points_of_subdivides hparts fun s hs => isSpan_of_mem_spans hs
    rw [hold, ← hdrop] at hpoints
    simpa [filter_onCurve_of_allOff hbefore, List.filter_cons] using hpoints
  · exact (find?_onCurve hbefore hfirst).symm.trans hf
  · rw [hnew]
    exact hdrop
  · have htail := flatMap_tail_spansFrom hfirst first [] (rest ++ before)
    rw [← hspans, ← flatMap_cutNodes hstraight, hbody, List.nil_append] at htail
    rw [firstOnCurve?_eq hbefore hfirst rfl, Option.getD_some, startingAt_first,
      (List.append_inj' htail rfl).1]

theorem subdivided_open (hrefl : ∀ p, R p p) (hfirst : first.onCurve = true)
    (hlast : e.onCurve = true) (hc : IsPlain ⟨first :: (ms ++ [e]), false⟩)
    (hends : ∀ s ∈ spans ⟨first :: (ms ++ [e]), false⟩, KeepsEnd R s) :
    Subdivided R ⟨first :: (ms ++ [e]), false⟩ (addExtremaTo ⟨first :: (ms ++ [e]), false⟩) := by
  have hspans : spans ⟨first :: (ms ++ [e]), false⟩ = spansFrom [first] (ms ++ [e]) :=
    spans_open allOff_nil hfirst (ms ++ [e])
  obtain ⟨body, w, hbody, hw, hcuts⟩ := exists_cuts hrefl (leads_spans_open hfirst hlast ms)
    (fun s hs => isSpan_of_mem_spans hs) hc.lengths hends (.refl hrefl first)
  obtain ⟨parts, hparts, hflatten⟩ := hcuts w (.inr rfl)
  have hon : w.onCurve = true := hw.onCurve hlast
  have hnodes : addExtremaTo ⟨first :: (ms ++ [e]), false⟩ = ⟨first :: (body ++ [w]), false⟩ := by
    rw [addExtremaTo_open hfirst (hc.last rfl), hbody]
  have hnew : spans ⟨first :: (body ++ [w]), false⟩ = parts.flatten := by
    rw [← hflatten]
    exact spans_open allOff_nil hfirst (body ++ [w])
  have hold : (spans ⟨first :: (ms ++ [e]), false⟩).flatMap List.dropLast = first :: ms := by
    rw [hspans]
    exact flatMap_dropLast_spansFrom hlast [first] ms
  have hdrop : parts.flatten.flatMap List.dropLast = first :: body := by
    rw [← hflatten]
    exact flatMap_dropLast_spansFrom hon [first] body
  rw [hnodes]
  refine ⟨rfl, ⟨?_, fun _ => ?_, fun _ => ?_⟩, ⟨parts, hparts, hnew⟩, ?_, nofun,
    fun hstraight => ?_⟩
  · rw [hnew]
    exact plain_of_subdivides hparts
  · simpa using hfirst
  · rw [← List.cons_append, List.getLast?_concat]
    simpa using hon
  · have hpoints := points_of_subdivides hparts fun s hs => isSpan_of_mem_spans hs
    rw [hold, hdrop] at hpoints
    have hend : List.SublistForall₂ (Alike R) [e] [w] := .cons hw .nil
    have hall := sublistForall₂_append hpoints hend
    simpa [List.filter_cons, hfirst, hlast, hon] using hall
  · have htail := flatMap_tail_spansFrom hlast first [] ms
    rw [← hspans, ← flatMap_cutNodes hstraight, hbody, List.nil_append] at htail
    rw [(turned_startingAt ..).eq_of_open rfl, htail]

/-- Without spans nothing is cut. -/
theorem subdivided_self (hrefl : ∀ p, R p p) (hc : c.IsPlain) (hnone : c.spans = [])
    (hoff : c.closed = true → AllOff c.nodes) : Subdivided R c c := by
  refine ⟨rfl, hc, ⟨[], ?_, ?_⟩, ?_, fun hclosed f hf => ?_, fun _ => ?_⟩
  · rw [hnone]
    exact .nil
  · rw [hnone]
    rfl
  · generalize c.nodes.filter (·.onCurve) = ns
    induction ns with
    | nil => exact .nil
    | cons n ns ih => exact .cons (.refl hrefl n) ih
  · have hfind : c.nodes.find? (·.onCurve) = none :=
      List.find?_eq_none.mpr fun n hn => by simp [hoff hclosed n hn]
    cases hfind.symm.trans hf
  · cases hclosed : c.closed with
    | true => rw [firstOnCurve?_of_allOff (hoff hclosed), Option.getD_none, startingAt_zero]
    | false => exact ((turned_startingAt ..).eq_of_open hclosed).symm

/-- Adding the extremes of its curves subdivides a contour and does nothing else. -/
theorem addExtrema_subdivides (hrefl : ∀ p, R p p) (hc : c.IsPlain)
    (hends : ∀ s ∈ c.spans, KeepsEnd R s) :
    ∃ d, Engine.basic.addExtrema c = pure d ∧ Subdivided R c d := by
  refine ⟨addExtremaTo c, rfl, ?_⟩
  obtain ⟨nodes, closed⟩ := c
  rcases allOff_or_exists_first nodes with hoff | ⟨before, first, rest, rfl, hbefore, hfirst⟩
  · have hsame : addExtremaTo ⟨nodes, closed⟩ = ⟨nodes, closed⟩ := by
      simp [addExtremaTo, firstOnCurve?_of_allOff (c := ⟨nodes, closed⟩) hoff]
    rw [hsame]
    exact subdivided_self hrefl hc (spans_of_allOff hoff) fun _ => hoff
  · cases closed with
    | true => exact subdivided_closed hrefl hbefore hfirst hc hends
    | false =>
        -- an open contour begins with its first node on the curve
        obtain rfl : before = [] := eq_nil_of_head? hbefore (hc.first rfl)
        rw [List.nil_append] at hc hends ⊢
        rcases List.eq_nil_or_concat rest with rfl | ⟨ms, e, rfl⟩
        · have hnone : spans ⟨[first], false⟩ = [] := spans_open allOff_nil hfirst []
          rw [addExtremaTo_open hfirst (hc.last rfl), hnone]
          exact subdivided_self hrefl hc hnone nofun
        · rw [List.concat_eq_append] at hc hends ⊢
          have hlast : e.onCurve = true := by
            have hend := hc.last rfl
            rw [← List.cons_append, List.getLast?_concat] at hend
            exact hend e rfl
          exact subdivided_open hrefl hfirst hlast hc hends

/-- A closed contour that begins with control points: two curves, one of them back to the start,
and a straight span between them. -/
def purse : Contour :=
  ⟨[.off ⟨20, -5⟩, .off ⟨0, -5⟩, .on ⟨0, 0⟩, .off ⟨0, 5⟩, .off ⟨10, 5⟩, .on ⟨10, 0⟩, .on ⟨20, 0⟩],
    true⟩

/-- Its curves are cut, and no node is moved. -/
theorem addExtrema_of_purse :
    purse.IsPlain ∧ (∀ s ∈ purse.spans, KeepsEnd Eq s) ∧
      ∃ d, Engine.basic.addExtrema purse = pure d ∧ Subdivided Eq purse d := by
  have hspans : purse.spans =
      [[.on ⟨0, 0⟩, .off ⟨0, 5⟩, .off ⟨10, 5⟩, .on ⟨10, 0⟩], [.on ⟨10, 0⟩, .on ⟨20, 0⟩],
        [.on ⟨20, 0⟩, .off ⟨20, -5⟩, .off ⟨0, -5⟩, .on ⟨0, 0⟩]] := rfl
  have hplain : purse.IsPlain := ⟨by rw [hspans]; simp, nofun, nofun⟩
  have hends : ∀ s ∈ purse.spans, KeepsEnd Eq s := by
    rw [hspans]
    simp only [List.forall_mem_cons]
    refine ⟨fun a u v b h => ?_, nofun, fun a u v b h => ?_, List.forall_mem_nil _⟩
    · cases h
      decide +kernel
    · cases h
      decide +kernel
  exact ⟨hplain, hends, addExtrema_subdivides (fun _ => rfl) hplain hends⟩

end Contours

end Contour

end FontTrace
