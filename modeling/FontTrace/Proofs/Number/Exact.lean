import FontTrace.Number.Binary
import Mathlib.Algebra.Order.Field.Rat
import Mathlib.Tactic.NormNum

/-!
# FontTrace.Proofs.Number.Exact

The exact value of a double.  `ofFloat?` reads a sign, a mantissa and an exponent off
the 64 bits; they are those that the format says, so a double that is finite has a value.

* `ofFloat?_eq` — the parts of a double, by its kind;
* `ofFloat?_isSome_iff` — the doubles with a value are the finite ones;
* `exactValue` — the value, as a rational number.
-/

namespace FontTrace

open Float.Model (Format UnpackedFloat)
open Float.Model.UnpackedFloat (Sign unpackExponent unpackMantissa unpackSign)

/-! ## the fields of 64 bits -/

theorem toNat_unpackExponent (b : BitVec 64) :
    (@unpackExponent Format.binary64 b).toNat = b.toNat / 2 ^ 52 % 2048 := by
  simp [unpackExponent, Nat.shiftRight_eq_div_pow]

theorem toNat_unpackMantissa (b : BitVec 64) :
    (@unpackMantissa Format.binary64 b).toNat = b.toNat % 2 ^ 52 := by
  simp [unpackMantissa]

theorem toNat_unpackSign (b : BitVec 64) :
    (@unpackSign Format.binary64 b).toNat = b.toNat / 2 ^ 63 := by
  have hlt : b.toNat < 2 ^ 64 := b.isLt
  have hsign : @unpackSign Format.binary64 b = b.extractLsb 63 63 := rfl
  simp [hsign, Nat.shiftRight_eq_div_pow]
  omega

/-! ## the parts of a double -/

/-- Whether a sign is that of negative numbers. -/
def isNegative : Sign → Bool
  | .negative => true
  | .positive => false

/-- The parts of a double of each kind.  A zero has the smallest exponent. -/
def BinaryFraction.ofUnpacked? : UnpackedFloat → Option BinaryFraction
  | .infinity _ | .notANumber => none
  | .zero s => some ⟨isNegative s, 0, -1074⟩
  | .finite s mantissa exponent _ => some ⟨isNegative s, mantissa, exponent⟩

theorem isNegative_ofBitVec (b : BitVec 1) : isNegative (Sign.ofBitVec b) = (b.toNat == 1) := by
  rcases Nat.lt_or_ge b.toNat 1 with h | h
  · have hb : b = 0#1 := BitVec.eq_of_toNat_eq (by simp; omega)
    simp [hb, Sign.ofBitVec, isNegative]
  · have hb : b = 1#1 := BitVec.eq_of_toNat_eq (by have := b.isLt; simp; omega)
    simp [hb, Sign.ofBitVec, isNegative]

theorem toNat_implicit_append (m : BitVec 52) : (1#1 ++ m).toNat = m.toNat + 2 ^ 52 := by
  have hor : (1#1 ++ m).toNat = 2 ^ 52 ||| m.toNat := rfl
  rw [hor, Nat.or_comm, Nat.or_two_pow_eq_add_of_lt m.isLt]

/-- The parts of the double with the given bits, by its exponent field. -/
theorem ofUnpacked?_unpack (b : BitVec 64) :
    BinaryFraction.ofUnpacked? (UnpackedFloat.unpack Format.binary64 b) =
      if @unpackExponent Format.binary64 b = -1#11 then none
      else if @unpackExponent Format.binary64 b = 0#11 then
        some ⟨isNegative (Sign.ofBitVec (@unpackSign Format.binary64 b)),
          (@unpackMantissa Format.binary64 b).toNat, -1074⟩
      else
        some ⟨isNegative (Sign.ofBitVec (@unpackSign Format.binary64 b)),
          (@unpackMantissa Format.binary64 b).toNat + 2 ^ 52,
          (@unpackExponent Format.binary64 b).toNat - 1075⟩ := by
  unfold UnpackedFloat.unpack
  dsimp only
  by_cases hmax : @unpackExponent Format.binary64 b = -1#11
  · rw [if_pos hmax, if_pos hmax]
    split <;> rfl
  · rw [if_neg hmax, if_neg hmax]
    by_cases hzero : @unpackExponent Format.binary64 b = 0#11
    · rw [if_pos hzero, if_pos hzero]
      by_cases hmantissa : @unpackMantissa Format.binary64 b = 0#52
      · rw [dif_pos hmantissa, hmantissa]
        rfl
      · rw [dif_neg hmantissa, hzero]
        rfl
    · rw [if_neg hzero, if_neg hzero, ← toNat_implicit_append]
      rfl

/-- The parts that are read off the bits are those of the format. -/
theorem ofFloat?_eq (x : Float) :
    BinaryFraction.ofFloat? x = BinaryFraction.ofUnpacked? x.toModel.unpack := by
  let b : BitVec 64 := x.toModel.toBits.toBitVec
  have hbits : x.toBits.toNat = b.toNat := rfl
  have hunpack := ofUnpacked?_unpack b
  have hmax : @unpackExponent Format.binary64 b = -1#11 ↔ b.toNat / 2 ^ 52 % 2048 = 2047 := by
    rw [← toNat_unpackExponent, ← BitVec.toNat_inj]
    rfl
  have hzero : @unpackExponent Format.binary64 b = 0#11 ↔ b.toNat / 2 ^ 52 % 2048 = 0 := by
    rw [← toNat_unpackExponent, ← BitVec.toNat_inj]
    rfl
  simp only [hmax, hzero, isNegative_ofBitVec, toNat_unpackSign, toNat_unpackMantissa,
    toNat_unpackExponent] at hunpack
  exact hunpack.symm

/-- A double has parts if and only if it is finite. -/
theorem ofFloat?_isSome_iff (x : Float) :
    (BinaryFraction.ofFloat? x).isSome = true ↔ x.isFinite = true := by
  have hfinite : x.isFinite = x.toModel.unpack.isFinite := rfl
  rw [ofFloat?_eq, hfinite]
  cases x.toModel.unpack <;> exact Iff.rfl

/-! ## values -/

/-- The number that is meant. -/
def BinaryFraction.value (b : BinaryFraction) : ℚ :=
  (if b.negative then -1 else 1) * b.mantissa * 2 ^ b.exponent

/-- The value of a double, and zero for one that is not finite. -/
def exactValue (x : Float) : ℚ := ((BinaryFraction.ofFloat? x).map (·.value)).getD 0

end FontTrace
