import FontTrace.Proofs.Number.Quotient

/-!
# FontTrace.Proofs.Number.Negation

A double and its negative.  Both have the same parts but for the sign, and unless a double is close
to zero, or not a number, one of the two is below zero and the other is not.

* `unpack_neg`, `unpack_abs` — the parts of a negative and of an absolute value;
* `neg_lt_zero_iff` — the sign of a double that is away from zero, and of its negative.
-/

namespace FontTrace

open Float.Model (Format UnpackedFloat)
open Float.Model.UnpackedFloat (Sign)

variable {x y : Float}

/-- Parts with another sign can be packed as well. -/
theorem unpack_pack_of_unpack {b : BitVec 64} {s : Sign} {m : Nat} {e : Int} {hpos : 0 < m}
    (h : UnpackedFloat.unpack Format.binary64 b = .finite s m e hpos) (t : Sign) :
    (Float.Model.pack (.finite t m e hpos)).unpack = .finite t m e hpos := by
  obtain ⟨hcanonical, he⟩ := canonical_of_unpack h
  exact unpack_pack_of_le t hcanonical he hpos

theorem unpack_neg (x : Float) : (-x).toModel.unpack = x.toModel.unpack.neg := by
  show (Float.Model.pack x.toModel.unpack.neg).unpack = _
  cases hx : x.toModel.unpack with
  | notANumber => rfl
  | infinity s => exact unpack_pack_infinity (-s)
  | zero s => exact unpack_pack_zero (-s)
  | finite s m e hpos => exact unpack_pack_of_unpack hx (-s)

theorem unpack_abs (x : Float) : x.abs.toModel.unpack = x.toModel.unpack.abs := by
  show (Float.Model.pack x.toModel.unpack.abs).unpack = _
  cases hx : x.toModel.unpack with
  | notANumber => rfl
  | infinity s => exact unpack_pack_infinity .positive
  | zero s => exact unpack_pack_zero .positive
  | finite s m e hpos => exact unpack_pack_of_unpack hx .positive

theorem isNaN_neg (x : Float) : (-x).isNaN = x.isNaN := by
  show (-x).toModel.unpack.isNaN = x.toModel.unpack.isNaN
  rw [unpack_neg]
  cases x.toModel.unpack <;> rfl

/-- Equal doubles are on the same side of every other one. -/
theorem lt_iff_of_beq (h : (x == y) = true) (z : Float) : x < z ↔ y < z := by
  rw [beq_eq_compare, beq_iff_eq] at h
  rw [gt_iff_compare, gt_iff_compare, compare_congr h]

/-- Away from zero, a number is below zero if and only if its negative is not. -/
theorem neg_lt_zero_iff {r : Float} (hr : 0 < r) (hx : x.isNaN = false) (hfar : ¬x.abs < r) :
    -x < 0 ↔ ¬x < 0 := by
  rw [lt_iff_compare, lt_iff_compare, unpack_neg, unpack_zero]
  cases hparts : x.toModel.unpack with
  | notANumber =>
      have hnan : x.toModel.unpack.isNaN = false := hx
      rw [hparts] at hnan
      cases hnan
  | infinity s => cases s <;> decide
  | finite s m e hpos =>
      cases s with
      | positive => exact iff_of_true rfl nofun
      | negative => exact iff_of_false nofun (not_not_intro rfl)
  | zero s =>
      refine absurd ?_ hfar
      rw [lt_iff_compare, unpack_abs, hparts]
      exact lt_iff_compare.mp hr

end FontTrace
