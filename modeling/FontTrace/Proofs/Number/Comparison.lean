import FontTrace.Number.Order

/-!
# FontTrace.Proofs.Number.Comparison

Comparing doubles.  Less-than is strict, and two doubles in neither order have no
difference to speak of: it is a zero or not a number, and so is every product with it.

* `compare_swap` — a comparison the other way round;
* `beq_comm`, `beq_self` — equality is symmetric, and a number equals itself;
* `compare_congr` — equal doubles are in the same order to every other one;
* `lt_irrefl`, `lt_asymm`, `isNaN_eq_false_of_lt` — less-than is strict, and between
  numbers only;
* `le_iff` — at most is not above, between numbers;
* `lower_cases`, `upper_cases` — which of two doubles is the smaller, and which the larger;
* `lt_of_area_pos` — sides that are in order and make a positive area are apart.
-/

namespace FontTrace

open Float.Model (Format UnpackedFloat)
open Float.Model.UnpackedFloat (Sign)

/-! ## unpacked doubles -/

theorem swap_sign (s t : Sign) : compare t s = (compare s t).swap := by
  cases s <;> cases t <;> rfl

theorem swap_magnitude (e e' : Int) (m m' : Nat) :
    (compare e' e).then (compare m' m) = ((compare e e').then (compare m m')).swap := by
  rw [Ordering.swap_then, ← Std.OrientedCmp.eq_swap, ← Std.OrientedCmp.eq_swap]

theorem compare_swap (a b : UnpackedFloat) : b.compare a = (a.compare b).map Ordering.swap := by
  cases a with
  | notANumber => cases b <;> rfl
  | infinity s =>
      cases b with
      | infinity t => exact congrArg some (swap_sign s t)
      | notANumber => cases s <;> rfl
      | zero t => cases s <;> rfl
      | finite t m e h => cases s <;> rfl
  | zero s =>
      cases b with
      | infinity t => cases t <;> rfl
      | notANumber => rfl
      | zero t => rfl
      | finite t m e h => cases t <;> rfl
  | finite s m e h =>
      cases b with
      | infinity t => cases t <;> rfl
      | notANumber => rfl
      | zero t => cases s <;> rfl
      | finite t m' e' h' =>
          cases s <;> cases t
          · exact congrArg (some ·.swap) (swap_magnitude e e' m m')
          · rfl
          · rfl
          · exact congrArg some (swap_magnitude e e' m m')

theorem compare_self {a : UnpackedFloat} (h : a.isNaN = false) : a.compare a = some .eq := by
  have hself (e : Int) (m : Nat) : (compare e e).then (compare m m) = .eq := by
    have hexponent : compare e e = .eq := Std.ReflCmp.compare_self
    have hmantissa : compare m m = .eq := Std.ReflCmp.compare_self
    rw [hexponent, hmantissa]
    rfl
  cases a with
  | notANumber => cases h
  | infinity s => cases s <;> rfl
  | zero s => rfl
  | finite s m e hpos =>
      cases s with
      | positive => exact congrArg some (hself e m)
      | negative => exact congrArg (some ·.swap) (hself e m)

/-- Only what is not a number is in no order. -/
theorem compare_eq_none_iff {a b : UnpackedFloat} :
    a.compare b = none ↔ a.isNaN = true ∨ b.isNaN = true := by
  have hsome {a b : UnpackedFloat} {o : Ordering} (h : a.compare b = some o)
      (ha : a.isNaN = false) (hb : b.isNaN = false) :
      a.compare b = none ↔ a.isNaN = true ∨ b.isNaN = true := by
    rw [h, ha, hb]
    exact iff_of_false (Option.some_ne_none o) (by decide)
  cases a with
  | notANumber => exact iff_of_true rfl (.inl rfl)
  | infinity s | zero s | finite s =>
      cases b with
      | notANumber => cases s <;> exact iff_of_true rfl (.inr rfl)
      | infinity t | zero t | finite t => cases s <;> cases t <;> exact hsome rfl rfl rfl

/-- Equal doubles are in the same order to every other one. -/
theorem compare_congr {a b : UnpackedFloat} (h : a.compare b = some .eq) (c : UnpackedFloat) :
    c.compare a = c.compare b := by
  have hsign : ∀ s t : Sign, compare s t = .eq → s = t := by
    rintro (_ | _) (_ | _) <;> simp [compare]
  cases a with
  | notANumber => cases h
  | infinity s =>
      cases b with
      | infinity t => rw [hsign s t (Option.some.inj h)]
      | notANumber => cases s <;> cases h
      | _ => cases s <;> cases h
  | zero s =>
      cases b with
      | zero t =>
          cases c with
          | infinity u | finite u => cases u <;> rfl
          | _ => rfl
      | notANumber => cases h
      | infinity t | finite t => cases t <;> cases h
  | finite s m e hm =>
      cases b with
      | finite t m' e' hm' =>
          have hparts (h : (compare e e').then (compare m m') = .eq) : e = e' ∧ m = m' := by
            obtain ⟨he, hm⟩ := Ordering.then_eq_eq.mp h
            exact ⟨Std.LawfulEqCmp.eq_of_compare he, Std.LawfulEqCmp.eq_of_compare hm⟩
          cases s <;> cases t
          · obtain ⟨rfl, rfl⟩ := hparts (Ordering.swap_eq_eq.mp (Option.some.inj h))
            rfl
          · cases h
          · cases h
          · obtain ⟨rfl, rfl⟩ := hparts (Option.some.inj h)
            rfl
      | infinity t | zero t => cases s <;> cases t <;> cases h
      | notANumber => cases s <;> cases h

/-- A zero, or not a number. -/
def Vanishes (a : UnpackedFloat) : Prop := a = .notANumber ∨ ∃ s, a = .zero s

theorem vanishes_sub_self (spec : Format) (a : UnpackedFloat) :
    Vanishes (UnpackedFloat.sub spec a a) := by
  cases a with
  | notANumber => exact .inl rfl
  | infinity s => cases s <;> exact .inl rfl
  | zero s => cases s <;> exact .inr ⟨.positive, rfl⟩
  | finite s m e h =>
      refine .inr ⟨.positive, ?_⟩
      show UnpackedFloat.normalize spec (_ - _) _ _ = _
      rw [Int.sub_self]
      rfl

theorem vanishes_sub_of_magnitude (spec : Format) (s : Sign) {m m' : Nat} {e e' : Int}
    (h : 0 < m) (h' : 0 < m') (heq : (compare e e').then (compare m m') = .eq) :
    Vanishes (UnpackedFloat.sub spec (.finite s m e h) (.finite s m' e' h')) := by
  obtain ⟨hexponent, hmantissa⟩ := Ordering.then_eq_eq.mp heq
  obtain rfl := Std.LawfulEqCmp.eq_of_compare hexponent
  obtain rfl := Std.LawfulEqCmp.eq_of_compare hmantissa
  exact vanishes_sub_self spec _

/-- Doubles in neither order are the same, two zeros, or not both numbers. -/
theorem vanishes_sub (spec : Format) {a b : UnpackedFloat} (hlt : a.compare b ≠ some .lt)
    (hgt : a.compare b ≠ some .gt) : Vanishes (UnpackedFloat.sub spec a b) := by
  cases a with
  | notANumber => exact .inl rfl
  | infinity s =>
      cases b with
      | infinity t =>
          cases s <;> cases t
          · exact vanishes_sub_self spec _
          · exact absurd rfl hlt
          · exact absurd rfl hgt
          · exact vanishes_sub_self spec _
      | notANumber => exact .inl rfl
      | zero t => cases s <;> first | exact absurd rfl hlt | exact absurd rfl hgt
      | finite t m e h => cases s <;> first | exact absurd rfl hlt | exact absurd rfl hgt
  | zero s =>
      cases b with
      | infinity t => cases t <;> first | exact absurd rfl hlt | exact absurd rfl hgt
      | notANumber => exact .inl rfl
      | zero t => cases s <;> cases t <;> exact .inr ⟨_, rfl⟩
      | finite t m e h => cases t <;> first | exact absurd rfl hlt | exact absurd rfl hgt
  | finite s m e h =>
      cases b with
      | infinity t => cases t <;> first | exact absurd rfl hlt | exact absurd rfl hgt
      | notANumber => exact .inl rfl
      | zero t => cases s <;> first | exact absurd rfl hlt | exact absurd rfl hgt
      | finite t m' e' h' =>
          have heq : ∀ o : Ordering, some o ≠ some .lt → some o ≠ some .gt → o = .eq := by
            decide
          cases s <;> cases t
          · have hswap := heq _ hlt hgt
            exact vanishes_sub_of_magnitude spec .negative h h' (Ordering.swap_eq_eq.mp hswap)
          · exact absurd rfl hlt
          · exact absurd rfl hgt
          · exact vanishes_sub_of_magnitude spec .positive h h' (heq _ hlt hgt)

theorem vanishes_mul (spec : Format) {a b : UnpackedFloat} (h : Vanishes a ∨ Vanishes b) :
    Vanishes (UnpackedFloat.mul spec a b) := by
  rcases h with (rfl | ⟨s, rfl⟩) | (rfl | ⟨s, rfl⟩)
  · exact .inl rfl
  · cases b <;> first | exact .inl rfl | exact .inr ⟨_, rfl⟩
  · cases a <;> exact .inl rfl
  · cases a <;> first | exact .inl rfl | exact .inr ⟨_, rfl⟩

theorem vanishes_unpack_pack {a : UnpackedFloat} (h : Vanishes a) :
    Vanishes (Float.Model.pack a).unpack := by
  rcases h with rfl | ⟨s, rfl⟩
  · exact .inl rfl
  · cases s
    · exact .inr ⟨.negative, rfl⟩
    · exact .inr ⟨.positive, rfl⟩

/-! ## equality -/

variable {x y : Float}

theorem beq_eq_compare (x y : Float) :
    (x == y) = (x.toModel.unpack.compare y.toModel.unpack == some .eq) := rfl

theorem beq_comm (x y : Float) : (x == y) = (y == x) := by
  rw [beq_eq_compare, beq_eq_compare, compare_swap x.toModel.unpack]
  cases x.toModel.unpack.compare y.toModel.unpack with
  | none => rfl
  | some o => cases o <;> rfl

theorem beq_self (h : x.isNaN = false) : (x == x) = true := by
  rw [beq_eq_compare, compare_self h]
  rfl

theorem isNaN_eq_false_of_beq (h : (x == y) = true) : y.isNaN = false := by
  show y.toModel.unpack.isNaN = false
  rw [beq_eq_compare] at h
  cases hy : y.toModel.unpack with
  | notANumber =>
      rw [hy] at h
      cases hx : x.toModel.unpack <;> rw [hx] at h <;> cases h
  | _ => rfl

theorem isNaN_eq_false_of_isFinite (h : x.isFinite = true) : x.isNaN = false := by
  have hfinite : x.toModel.unpack.isFinite = true := h
  show x.toModel.unpack.isNaN = false
  cases hx : x.toModel.unpack with
  | notANumber => rw [hx] at hfinite; cases hfinite
  | _ => rfl

/-! ## less-than -/

theorem lt_iff_compare : x < y ↔ x.toModel.unpack.compare y.toModel.unpack = some .lt := by
  show Float.lt x y = true ↔ _
  rw [Float.lt, decide_eq_true_iff]
  show Float.Model.lt _ _ = true ↔ _
  rw [Float.Model.lt, UnpackedFloat.lt, beq_iff_eq]

theorem gt_iff_compare : y < x ↔ x.toModel.unpack.compare y.toModel.unpack = some .gt := by
  rw [lt_iff_compare, compare_swap x.toModel.unpack]
  cases x.toModel.unpack.compare y.toModel.unpack with
  | none => simp
  | some o => cases o <;> simp

theorem lt_asymm (h : x < y) : ¬ y < x := by
  rw [gt_iff_compare, lt_iff_compare.mp h]
  decide

theorem lt_irrefl (x : Float) : ¬ x < x := fun h => lt_asymm h h

theorem isNaN_eq_false_of_lt (h : x < y) : x.isNaN = false ∧ y.isNaN = false := by
  have hlt := lt_iff_compare.mp h
  constructor
  · show x.toModel.unpack.isNaN = false
    cases hx : x.toModel.unpack with
    | notANumber => rw [hx] at hlt; cases hlt
    | _ => rfl
  · show y.toModel.unpack.isNaN = false
    cases hy : y.toModel.unpack with
    | notANumber => rw [hy, compare_swap] at hlt; cases hlt
    | _ => rfl

/-- At most is not above, between numbers. -/
theorem le_iff : x ≤ y ↔ x.isNaN = false ∧ y.isNaN = false ∧ ¬y < x := by
  have hle : x ≤ y ↔ (x.toModel.unpack.compare y.toModel.unpack).any (·.isLE) = true := by
    show Float.le x y = true ↔ _
    rw [Float.le, decide_eq_true_iff]
    rfl
  have hnone : _ ↔ x.isNaN = true ∨ y.isNaN = true := compare_eq_none_iff
  rw [hle, gt_iff_compare]
  cases hc : x.toModel.unpack.compare y.toModel.unpack with
  | none =>
      refine iff_of_false Bool.false_ne_true fun h => ?_
      rcases hnone.mp hc with hx | hy
      · exact Bool.false_ne_true (h.1.symm.trans hx)
      · exact Bool.false_ne_true (h.2.1.symm.trans hy)
  | some o =>
      rw [hc] at hnone
      have hnumbers : x.isNaN = false ∧ y.isNaN = false := by
        simpa only [reduceCtorEq, false_iff, not_or, Bool.not_eq_true] using hnone
      rw [and_iff_right hnumbers.1, and_iff_right hnumbers.2]
      cases o <;> decide

theorem lt_of_lt_of_beq {z : Float} (h : z < y) (hbeq : (x == y) = true) : z < x := by
  rw [beq_eq_compare, beq_iff_eq] at hbeq
  rwa [lt_iff_compare, compare_congr hbeq, ← lt_iff_compare]

theorem lower_cases (x y : Float) : lower x y = y ∨ lower x y = x ∧ ¬ y < x := by
  unfold lower
  split
  · exact .inl rfl
  · split
    · exact .inl rfl
    · next h => exact .inr ⟨rfl, h⟩

theorem upper_cases (x y : Float) : upper x y = y ∨ upper x y = x ∧ ¬ x < y := by
  unfold upper
  split
  · exact .inl rfl
  · split
    · exact .inl rfl
    · next h => exact .inr ⟨rfl, h⟩

@[simp] theorem lower_self (x : Float) : lower x x = x := (lower_cases x x).elim id And.left

@[simp] theorem upper_self (x : Float) : upper x x = x := (upper_cases x x).elim id And.left

theorem lower_of_lt (h : x < y) : lower x y = x := by
  rw [lower, if_neg (Bool.eq_false_iff.mp (isNaN_eq_false_of_lt h).1), if_neg (lt_asymm h)]

theorem upper_of_lt (h : x < y) : upper x y = y :=
  (upper_cases x y).elim id fun hx => absurd h hx.2

theorem upper_of_gt (h : y < x) : upper x y = x := by
  rw [upper, if_neg (Bool.eq_false_iff.mp (isNaN_eq_false_of_lt h).2), if_neg (lt_asymm h)]

theorem unpack_zero : (0 : Float).toModel.unpack = .zero .positive := rfl

theorem not_pos_of_vanishes (h : Vanishes x.toModel.unpack) : ¬ 0 < x := by
  rw [lt_iff_compare, unpack_zero]
  rcases h with h | ⟨s, h⟩
  · rw [h]
    decide
  · rw [h]
    cases s <;> decide

theorem vanishes_float_sub (hlt : ¬ x < y) (hgt : ¬ y < x) :
    Vanishes (x - y).toModel.unpack := by
  have hsub := vanishes_sub Format.binary64 (mt lt_iff_compare.mpr hlt) (mt gt_iff_compare.mpr hgt)
  exact vanishes_unpack_pack hsub

theorem vanishes_float_mul (h : Vanishes x.toModel.unpack ∨ Vanishes y.toModel.unpack) :
    Vanishes (x * y).toModel.unpack :=
  vanishes_unpack_pack (vanishes_mul Format.binary64 h)

/-- Sides that are in order and make a positive area are apart. -/
theorem lt_of_area_pos {x' y' : Float} (hx : ¬ y < x) (hy : ¬ y' < x')
    (hpos : 0 < (y - x) * (y' - x')) : x < y ∧ x' < y' := by
  constructor
  · refine Decidable.byContradiction fun hlt => ?_
    exact not_pos_of_vanishes (vanishes_float_mul (.inl (vanishes_float_sub hx hlt))) hpos
  · refine Decidable.byContradiction fun hlt => ?_
    exact not_pos_of_vanishes (vanishes_float_mul (.inr (vanishes_float_sub hy hlt))) hpos

end FontTrace
