import FontTrace.Geometry.Collinear

/-!
# FontTrace.Geometry.Pruning

Passes over a picture right before it becomes a glyph: closing contours whose
ends meet, dropping nodes that stand on a straight run, and cutting out loops
that enclose nothing.

The passes are stated for an arbitrary test `straight` on node lists, since
nothing but their results depends on what the test measures.  Both go over one
contour at a time, and a closed contour that is straight as a whole is dropped.
-/

namespace FontTrace

/-! ## closing -/

/-- Whether the two ends of a contour are at the same position. -/
def Contour.endsMeet (c : Contour) : Bool :=
  match c.nodes with
  | first :: second :: rest => first.pos.same ((second :: rest).getLastD second).pos
  | _ => false

/-- Open contours whose ends meet, as closed ones. -/
def closeMeeting (o : Outline) : Outline :=
  o.map fun c => if !c.closed && c.endsMeet then c.close else c

/-! ## straight runs -/

section

variable (straight : List Node → Bool)

/-- The lengths of the runs from the first node of a cyclic list to a later
one on the curve, with at least one node in between. -/
def runLengths (cycle : List Node) : List Nat :=
  (cycle.zipIdx.drop 2).filterMap fun (n, i) => if n.onCurve then some (i + 1) else none

/-- The length of the longest straight run from the first node of a cyclic
list, where every shorter run is straight as well. -/
def longestRun? (cycle : List Node) : Option Nat :=
  ((runLengths cycle).takeWhile fun k => straight (cycle.take k)).getLast?

/-- Whether a node strictly between the ends of a run lies on the curve. -/
def hasInnerNode (run : List Node) : Bool := (run.drop 1).dropLast.any (·.onCurve)

/-- The nodes of a closed contour without those strictly inside the longest
straight run from the `i`-th node on.  The run may go on at the front. -/
def shortenRunAt (nodes : List Node) (i : Nat) : List Node :=
  let cycle := rotatedTo nodes i
  match longestRun? straight cycle with
  | none => nodes
  | some k =>
    if hasInnerNode (cycle.take k) then
      let j := (i + k - 1) % nodes.length
      if i < j then nodes.take (i + 1) ++ nodes.drop j
      else (nodes.take (i + 1)).drop j
    else nodes

/-- `shortenRunAt` for the nodes on the curve, one after the other from the
`i`-th on; `fuel` bounds the number of steps. -/
def shortenRunsFrom : Nat → List Node → Nat → List Node
  | 0, nodes, _ => nodes
  | fuel + 1, nodes, i =>
    match nodes[i]? with
    | none => nodes
    | some n =>
      shortenRunsFrom fuel (if n.onCurve then shortenRunAt straight nodes i else nodes) (i + 1)

/-- The nodes of a closed contour without those inside straight runs.  No step
makes the list longer, so there are at most as many steps as nodes. -/
def shortenRuns (nodes : List Node) : List Node :=
  shortenRunsFrom straight (nodes.length + 1) nodes 0

/-- Closed contours without nodes inside straight runs.  Open contours stay as
they are. -/
def removeCollinear (o : Outline) : Outline :=
  o.filterMap fun c =>
    if !c.closed then some c
    else if straight c.nodes then none
    else some { c with nodes := shortenRuns straight c.nodes }

/-! ## loops -/

/-- The nodes on the curve with their places. -/
def curvePoints (nodes : List Node) : List (Point × Nat) :=
  nodes.zipIdx.filterMap fun (n, i) => if n.onCurve then some (n.pos, i) else none

/-- The nodes from the `a`-th up to, but without, the `b`-th, going on at the
front if `b` stands before `a`. -/
def stretch (nodes : List Node) (a b : Nat) : List Node :=
  if a < b then (nodes.drop a).take (b - a) else nodes.drop a ++ nodes.take b

/-- Whether two nodes on the curve bound a loop: neither neighbours nor the
same, closer than `reach` on both axes, and all straight in between. -/
def isLoop (reach : Float) (nodes : List Node) (p q : Point × Nat) : Bool :=
  let gap := (p.2 - q.2) + (q.2 - p.2)
  !((q.1.x - p.1.x).abs ≥ reach) && !((q.1.y - p.1.y).abs ≥ reach) &&
    1 < gap && gap + 1 < nodes.length && straight (stretch nodes p.2 q.2)

/-- The first loop, in the order of its first and then of its second end. -/
def findLoop? (reach : Float) (nodes : List Node) : Option (Nat × Nat) :=
  let points := curvePoints nodes
  points.findSome? fun p =>
    (points.find? (isLoop straight reach nodes p)).map fun q => (p.2, q.2)

/-- The nodes without the loop from `a` to `b`, of whose ends one stays. -/
def cutLoop (nodes : List Node) (a b : Nat) : List Node :=
  if a < b then nodes.take (a + 1) ++ nodes.drop (b + 1) else (nodes.take a).drop b

theorem lt_length_of_mem_curvePoints {nodes : List Node} {p : Point × Nat}
    (h : p ∈ curvePoints nodes) : p.2 < nodes.length := by
  simp only [curvePoints, List.mem_filterMap, Prod.exists] at h
  obtain ⟨n, i, hm, h⟩ := h
  have := List.snd_lt_of_mem_zipIdx hm
  split at h
  · simp only [Option.some.injEq] at h
    subst h
    omega
  · simp at h

theorem findLoop_bounds {reach : Float} {nodes : List Node} {a b : Nat}
    (h : findLoop? straight reach nodes = some (a, b)) :
    a < nodes.length ∧ b < nodes.length ∧ a ≠ b := by
  obtain ⟨p, hp, h⟩ := List.exists_of_findSome?_eq_some h
  simp only [Option.map_eq_some_iff, Prod.mk.injEq] at h
  obtain ⟨q, hq, rfl, rfl⟩ := h
  refine ⟨lt_length_of_mem_curvePoints hp,
    lt_length_of_mem_curvePoints (List.mem_of_find?_eq_some hq), ?_⟩
  have hl := List.find?_some hq
  intro he
  simp only [isLoop, he, Bool.and_eq_true, decide_eq_true_eq] at hl
  omega

theorem length_cutLoop_lt {nodes : List Node} {a b : Nat} (ha : a < nodes.length)
    (hb : b < nodes.length) : (cutLoop nodes a b).length < nodes.length := by
  unfold cutLoop
  split
  · simp only [List.length_append, List.length_take, List.length_drop]; omega
  · simp only [List.length_take, List.length_drop]; omega

/-- The nodes of a closed contour without loops. -/
def cutLoops (reach : Float) (nodes : List Node) : List Node :=
  match _h : findLoop? straight reach nodes with
  | none => nodes
  | some (a, b) => cutLoops reach (cutLoop nodes a b)
termination_by nodes.length
decreasing_by
  have bounds := findLoop_bounds straight _h
  exact length_cutLoop_lt bounds.1 bounds.2.1

/-- Closed contours without loops.  Open contours stay as they are. -/
def removeArtifacts (reach : Float) (o : Outline) : Outline :=
  o.filterMap fun c =>
    if !c.closed then some c
    else if straight c.nodes then none
    else some { c with nodes := cutLoops straight reach c.nodes }

end

end FontTrace
