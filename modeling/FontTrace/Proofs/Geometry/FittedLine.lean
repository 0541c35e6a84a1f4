import FontTrace.Proofs.Number.Ranking
import FontTrace.Proofs.Number.Sums

/-!
# FontTrace.Proofs.Geometry.FittedLine

Which points pass for collinear.  It is not asked whether there is a line that no point is too far
from: one line is fitted to the points by least squares, and the distances that count are those
from that line.  A band around another line can be narrower than the one around the fitted line.

* `isCollinear_iff` — the test is about one line, however large the threshold;
* `Level.not_le_distance` — points that are level are not away from the line fitted to them;
* `collinear_band_iff` — which points in a band are taken for collinear.
-/

namespace FontTrace

variable {t c x y first : Float}

/-! ## the line -/

/-- A straight line, as one coordinate of its points in terms of the other one. -/
structure Line where
  lead : Node → Float
  other : Node → Float
  slope : Float
  offset : Float

/-- How far a point is from a line. -/
def Line.distance (l : Line) (n : Node) : Float :=
  (-l.slope * l.lead n + l.other n - l.offset).abs / Float.sqrt (l.slope * l.slope + 1)

/-- The mean of a coordinate. -/
def mean (f : Node → Float) (nodes : List Node) : Float :=
  total (nodes.map f) / Float.ofNat nodes.length

/-- The line for which the squares of the distances along the second coordinate are least. -/
def leastSquares (lead other : Node → Float) (nodes : List Node) : Line :=
  let slope :=
    total (nodes.map fun n => (lead n - mean lead nodes) * (other n - mean other nodes)) /
      total (nodes.map fun n => (lead n - mean lead nodes) * (lead n - mean lead nodes))
  ⟨lead, other, slope, mean other nodes - slope * mean lead nodes⟩

/-- How much the points spread in a coordinate. -/
def spreadOf (f : Node → Float) (nodes : List Node) : Float :=
  spread (nodes.map f) (mean f nodes)

/-- The least-squares line along the axis on which the points spread more. -/
def fittedLine (nodes : List Node) : Line :=
  if spreadOf (·.pos.x) nodes < spreadOf (·.pos.y) nodes then
    leastSquares (·.pos.y) (·.pos.x) nodes
  else
    leastSquares (·.pos.x) (·.pos.y) nodes

/-- Points that count as a single one. -/
def HardlySpread (nodes : List Node) : Prop :=
  spreadOf (·.pos.x) nodes < 0.01 ∧ spreadOf (·.pos.y) nodes < 0.01

/-! ## the test -/

theorem largestStray_eq (lead other : Node → Float) (nodes : List Node) :
    largestStray (nodes.map lead) (nodes.map other) (mean lead nodes) (mean other nodes) =
      (nodes.map (leastSquares lead other nodes).distance).foldl upper 0 := by
  simp only [largestStray, List.zipWith_map, List.zipWith_self, List.map_map]
  rfl

theorem upper_lt_iff (hx : x.isNaN = false) : upper x y < t ↔ x < t ∧ ¬t ≤ y := by
  rw [upper, if_neg (Bool.eq_false_iff.mp hx)]
  split
  · next hlt =>
      have hy := (isNaN_eq_false_of_lt hlt).2
      constructor
      · exact fun h => ⟨lt_of_lt_of_not_lt (isNaN_eq_false_of_lt h).2 hlt (lt_asymm h),
          fun hle => (le_iff.mp hle).2.2 h⟩
      · rintro ⟨h, hle⟩
        have ht := (isNaN_eq_false_of_lt h).2
        exact Decidable.byContradiction fun hnot => hle (le_iff.mpr ⟨ht, hy, hnot⟩)
  · next hlt =>
      refine (and_iff_left_of_imp fun h hle => ?_).symm
      obtain ⟨-, hy, hnot⟩ := le_iff.mp hle
      exact hlt (lt_of_lt_of_not_lt hy h hnot)

theorem isNaN_upper (hx : x.isNaN = false) : (upper x y).isNaN = false := by
  rw [upper, if_neg (Bool.eq_false_iff.mp hx)]
  split
  · next hlt => exact (isNaN_eq_false_of_lt hlt).2
  · exact hx

/-- The largest of some doubles is below another one if none of them is not; what is not a number
is passed over. -/
theorem foldl_upper_lt_iff {xs : List Float} (hfirst : first.isNaN = false) :
    xs.foldl upper first < t ↔ first < t ∧ ∀ x ∈ xs, ¬t ≤ x := by
  induction xs generalizing first with
  | nil => simp
  | cons x xs ih =>
      rw [List.foldl_cons, ih (isNaN_upper hfirst), upper_lt_iff hfirst, List.forall_mem_cons,
        and_assoc]

/-- Points that spread are taken for collinear if none of them is as far as the threshold from the
line that is fitted to them. -/
theorem isCollinear_iff (ht : 0 < t) (nodes : List Node) :
    isCollinear t nodes = true ↔
      HardlySpread nodes ∨ ∀ n ∈ nodes, ¬t ≤ (fittedLine nodes).distance n := by
  have hstray (lead other : Node → Float) :
      largestStray (nodes.map lead) (nodes.map other) (mean lead nodes) (mean other nodes) < t ↔
        ∀ n ∈ nodes, ¬t ≤ (leastSquares lead other nodes).distance n := by
    rw [largestStray_eq, foldl_upper_lt_iff rfl, and_iff_right ht, List.forall_mem_map]
  rw [isCollinear]
  split
  · next hempty =>
      rw [List.isEmpty_iff.mp hempty]
      exact iff_of_true rfl (.inr nofun)
  · show (if spreadOf (·.pos.x) nodes < 0.01 && spreadOf (·.pos.y) nodes < 0.01 then true
      else if spreadOf (·.pos.x) nodes < spreadOf (·.pos.y) nodes then
        decide (largestStray (nodes.map (·.pos.y)) (nodes.map (·.pos.x)) (mean (·.pos.y) nodes)
          (mean (·.pos.x) nodes) < t)
      else
        decide (largestStray (nodes.map (·.pos.x)) (nodes.map (·.pos.y)) (mean (·.pos.x) nodes)
          (mean (·.pos.y) nodes) < t)) = true ↔ _
    split
    · next hclose =>
        rw [Bool.and_eq_true, decide_eq_true_iff, decide_eq_true_iff] at hclose
        exact iff_of_true rfl (.inl hclose)
    · next hclose =>
        rw [Bool.and_eq_true, decide_eq_true_iff, decide_eq_true_iff] at hclose
        rw [HardlySpread, or_iff_right hclose, fittedLine]
        split
        · rw [decide_eq_true_iff, hstray]
        · rw [decide_eq_true_iff, hstray]

/-! ## level points -/

/-- Each point has the mean of a coordinate, or there is no mean. -/
def Level (f : Node → Float) (nodes : List Node) : Prop :=
  ∀ n ∈ nodes, ¬f n < mean f nodes ∧ ¬mean f nodes < f n

section Level

variable {lead other : Node → Float} {nodes : List Node}

theorem Level.vanishes_sub (h : Level other nodes) {n : Node} (hn : n ∈ nodes) :
    Vanishes (other n - mean other nodes).toModel.unpack :=
  vanishes_float_sub (h n hn).1 (h n hn).2

theorem Level.vanishes_slope (h : Level other nodes) :
    Vanishes (leastSquares lead other nodes).slope.toModel.unpack := by
  refine vanishes_float_div (vanishes_total ?_) _
  exact List.forall_mem_map.mpr fun n hn => vanishes_float_mul (.inr (h.vanishes_sub hn))

/-- Points that are level do not stray from the line that is fitted along the other coordinate. -/
theorem Level.vanishes_distance (h : Level other nodes) {n : Node} (hn : n ∈ nodes) :
    Vanishes ((leastSquares lead other nodes).distance n).toModel.unpack := by
  have hslope : Vanishes (leastSquares lead other nodes).slope.toModel.unpack := h.vanishes_slope
  refine vanishes_float_div (vanishes_abs ?_) _
  exact vanishes_sub_of_vanishes (vanishes_float_mul (.inl (vanishes_neg hslope)))
    (vanishes_float_mul (.inl hslope)) (h n hn).1 (h n hn).2

/-- There is no slope along the coordinate in which the points are level. -/
theorem Level.isNaN_distance (h : Level lead nodes) (n : Node) :
    ((leastSquares lead other nodes).distance n).isNaN = true := by
  have hslope : (leastSquares lead other nodes).slope.isNaN = true := by
    refine isNaN_div_of_vanishes (vanishes_total ?_) (vanishes_total ?_) <;>
      exact List.forall_mem_map.mpr fun n hn => vanishes_float_mul (.inl (h.vanishes_sub hn))
  have hneg : (-(leastSquares lead other nodes).slope).isNaN = true := by
    rw [isNaN_neg, hslope]
  exact isNaN_quotient (isNaN_abs (isNaN_sub (isNaN_add (isNaN_mul hneg _) _) _)) _

theorem Level.not_le_distance (h : Level (·.pos.y) nodes) (ht : 0 < t) {n : Node}
    (hn : n ∈ nodes) : ¬t ≤ (fittedLine nodes).distance n := by
  intro hle
  obtain ⟨-, hnumber, hnot⟩ := le_iff.mp hle
  rw [fittedLine] at hle hnumber hnot
  split at hnumber
  · rw [h.isNaN_distance n] at hnumber
    cases hnumber
  · next hsteep =>
      rw [if_neg hsteep] at hnot
      exact not_pos_of_vanishes (h.vanishes_distance hn) (lt_of_lt_of_not_lt hnumber ht hnot)

end Level

/-- Points on one horizontal line are collinear, as far as sums of their ordinate are doubles. -/
theorem isCollinear_of_level {nodes : List Node} (h : ∀ n ∈ nodes, n.pos.y = c)
    (hroom : HasRoom nodes.length c) (ht : 0 < t) : isCollinear t nodes = true := by
  have hordinates : ∀ y ∈ nodes.map (·.pos.y), y = c := List.forall_mem_map.mpr h
  have hmean := level_mean hordinates (by rwa [List.length_map])
  rw [List.length_map] at hmean
  have hlevel : Level (·.pos.y) nodes := fun n hn => by
    show ¬n.pos.y < _ ∧ ¬_ < n.pos.y
    rw [h n hn]
    exact hmean
  exact (isCollinear_iff ht nodes).mpr (.inr fun n hn => hlevel.not_le_distance ht hn)

/-- Whatever their abscissas, points at the ordinate 3 are collinear. -/
example (x₁ x₂ x₃ : Float) (ht : 0 < t) :
    isCollinear t [.on ⟨x₁, 3⟩, .on ⟨x₂, 3⟩, .on ⟨x₃, 3⟩] = true := by
  have hroom : HasRoom 3 (Float.ofNat 3) := hasRoom_ofNat (by decide) (by decide) (by decide)
  exact isCollinear_of_level (by simp only [List.forall_mem_cons]; exact ⟨rfl, rfl, rfl, nofun⟩)
    hroom ht

/-! ## bands -/

theorem pos_of_abs_lt (h : x.abs < y) : 0 < y := by
  have hnot : ¬x.abs < 0 := by
    rw [lt_iff_compare, unpack_abs, unpack_zero]
    cases x.toModel.unpack <;> exact nofun
  obtain ⟨hx, hy⟩ := isNaN_eq_false_of_lt h
  rw [lt_iff_place hx rfl] at hnot
  rw [lt_iff_place hx hy] at h
  rw [lt_iff_place rfl hy]
  omega

/-- Which points are taken for collinear, and when all are that lie in a band around a horizontal
line.  At one threshold it is those that are nowhere as far as it from the line fitted to them.  At
every threshold it takes that the fitted line is nowhere further away than the horizontal one is
from the point furthest from it.  It is so for points on the horizontal line itself, as far as sums
of their ordinate are doubles. -/
theorem collinear_band_iff (nodes : List Node) (c : Float) :
    (∀ t, 0 < t → (isCollinear t nodes = true ↔
      HardlySpread nodes ∨ ∀ n ∈ nodes, ¬t ≤ (fittedLine nodes).distance n)) ∧
    ((∀ t, 0 < t → (∀ n ∈ nodes, (n.pos.y - c).abs < t) → isCollinear t nodes = true) ↔
      HardlySpread nodes ∨ ∀ n ∈ nodes, ∃ m ∈ nodes,
        ¬(m.pos.y - c).abs < (fittedLine nodes).distance n) ∧
    ((∀ n ∈ nodes, n.pos.y = c) → HasRoom nodes.length c →
      ∀ t, 0 < t → isCollinear t nodes = true) := by
  refine ⟨fun t ht => isCollinear_iff ht nodes, ⟨fun h => ?_, fun h t ht hband => ?_⟩,
    fun h hroom t ht => isCollinear_of_level h hroom ht⟩
  · refine or_iff_not_imp_left.mpr fun hspread n hn => Decidable.byContradiction fun hfar => ?_
    -- the band that ends where the point is
    have hband : ∀ m ∈ nodes, (m.pos.y - c).abs < (fittedLine nodes).distance n :=
      fun m hm => Decidable.byContradiction fun hnot => hfar ⟨m, hm, hnot⟩
    have hpos := pos_of_abs_lt (hband n hn)
    have hnumber := (isNaN_eq_false_of_lt hpos).2
    rcases (isCollinear_iff hpos nodes).mp (h _ hpos hband) with hclose | hnear
    · exact hspread hclose
    · exact hnear n hn (le_iff.mpr ⟨hnumber, hnumber, lt_irrefl _⟩)
  · refine (isCollinear_iff ht nodes).mpr (h.imp_right fun hnear n hn hle => ?_)
    obtain ⟨m, hm, hnot⟩ := hnear n hn
    obtain ⟨-, hnumber, hle⟩ := le_iff.mp hle
    exact hnot (lt_of_lt_of_not_lt hnumber (hband m hm) hle)

/-- Three points less than 0.875 away from the x axis, one of which is 1 away from the line fitted
to them. -/
theorem not_collinear_in_band :
    let nodes := [Node.on ⟨0, -0.75⟩, .on ⟨100, 0.75⟩, .on ⟨200, -0.75⟩]
    0 < (0.875 : Float) ∧ (∀ n ∈ nodes, (n.pos.y - 0).abs < 0.875) ∧
      isCollinear 0.875 nodes = false := by
  decide +kernel

/-- Points on a line, whose mean is not on it. -/
example : isCollinear 1e-18 [.on ⟨0, 0.1⟩, .on ⟨50, 0.1⟩, .on ⟨100, 0.1⟩] = false := by
  decide +kernel

end FontTrace
