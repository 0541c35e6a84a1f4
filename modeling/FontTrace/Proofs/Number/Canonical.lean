import FontTrace.Proofs.Number.Comparison
import FontTrace.Proofs.Number.Exact
import Mathlib

/-!
# FontTrace.Proofs.Number.Canonical

Mantissas and exponents of doubles.  Each positive number of the format has one mantissa and one
exponent, and they are in the order of the numbers.

* `Canonical` — mantissas and exponents of the format, but for the largest exponent;
* `compare_magnitude` — the order of the numbers, by exponents and then by mantissas;
* `Canonical.succ_le_of_lt` — the number with the next mantissa is the next one;
* `canonical_of_unpack` — the parts of a double are canonical;
* `eq_of_ofUnpacked?` — and they are all there is to it, if it is not a zero;
* `unpack_pack_of_le`, `unpack_pack_of_gt` — packed parts are found again, or are an infinity if
  the exponent is too large.
-/

namespace FontTrace

open Float.Model (Format UnpackedFloat)
open Float.Model.UnpackedFloat (Sign packComponents unpackExponent unpackExponent_packComponents
  unpackMantissa unpackMantissa_packComponents unpackSign_packComponents)

/-! ## mantissas and exponents -/

/-- The number with a mantissa and an exponent. -/
def magnitude (m : Nat) (e : Int) : ℚ := m * 2 ^ e

/-- A mantissa of 53 bits, or of fewer with the smallest exponent. -/
structure Canonical (m : Nat) (e : Int) : Prop where
  lt : m < 2 ^ 53
  le : -1074 ≤ e
  full : 2 ^ 52 ≤ m ∨ e = -1074

section Magnitude

variable {m m' : Nat} {e e' : Int}

theorem strictMono_magnitude (e : Int) : StrictMono (magnitude · e) := by
  intro m m' h
  have hpos : (0 : ℚ) < 2 ^ e := by positivity
  exact mul_lt_mul_of_pos_right (Nat.cast_lt.mpr h) hpos

theorem magnitude_pos_iff : 0 < magnitude m e ↔ 0 < m := by
  have hpos : (0 : ℚ) < 2 ^ e := by positivity
  rw [magnitude, mul_pos_iff_of_pos_right hpos, Nat.cast_pos]

/-- A larger exponent for the same number takes a shorter mantissa. -/
theorem magnitude_add (m : Nat) (e : Int) (n : Nat) :
    magnitude m (e + n) = magnitude (m * 2 ^ n) e := by
  have hpow : (2 : ℚ) ^ (e + n) = 2 ^ n * 2 ^ e := by
    rw [zpow_add₀ two_ne_zero, zpow_natCast, mul_comm]
  rw [magnitude, magnitude, hpow]
  push_cast
  ring

/-- The larger exponent makes the larger number. -/
theorem Canonical.magnitude_lt_of_exponent (h : Canonical m e) (h' : Canonical m' e')
    (he : e < e') : magnitude m e < magnitude m' e' := by
  obtain ⟨n, rfl⟩ : ∃ n : Nat, e' = e + (n + 1 : Nat) := ⟨(e' - e - 1).toNat, by omega⟩
  have hm : 2 ^ 52 ≤ m' := h'.full.resolve_right (by have := h.le; omega)
  have hlt : m < m' * 2 ^ (n + 1) := by
    calc m < 2 ^ 52 * 2 ^ 1 := h.lt
      _ ≤ m' * 2 ^ (n + 1) := Nat.mul_le_mul hm (Nat.pow_le_pow_right (by omega) (by omega))
  rw [magnitude_add]
  exact strictMono_magnitude e hlt

/-- Numbers are in the order of their exponents, and of their mantissas if these agree. -/
theorem compare_magnitude (h : Canonical m e) (h' : Canonical m' e') :
    compare (magnitude m e) (magnitude m' e') = (compare e e').then (compare m m') := by
  rcases lt_trichotomy e e' with he | rfl | he
  · rw [compare_lt_iff_lt.mpr (h.magnitude_lt_of_exponent h' he), compare_lt_iff_lt.mpr he]
    rfl
  · have hmono := (strictMono_magnitude e).cmp_map_eq m m'
    rw [cmp_eq_compare, cmp_eq_compare] at hmono
    rw [hmono, compare_eq_iff_eq.mpr rfl, Ordering.eq_then]
  · rw [compare_gt_iff_gt.mpr (h'.magnitude_lt_of_exponent h he), compare_gt_iff_gt.mpr he]
    rfl

/-- A number has one mantissa and one exponent. -/
theorem Canonical.eq_of_magnitude (h : Canonical m e) (h' : Canonical m' e')
    (heq : magnitude m e = magnitude m' e') : m = m' ∧ e = e' := by
  have hcompare := compare_magnitude h h'
  rw [compare_eq_iff_eq.mpr heq] at hcompare
  obtain ⟨he, hm⟩ := Ordering.then_eq_eq.mp hcompare.symm
  exact ⟨compare_eq_iff_eq.mp hm, compare_eq_iff_eq.mp he⟩

/-- The next mantissa makes the next number. -/
theorem Canonical.succ_le_of_lt (h : Canonical m e) (h' : Canonical m' e')
    (hlt : magnitude m e < magnitude m' e') : magnitude (m + 1) e ≤ magnitude m' e' := by
  rcases lt_or_ge e' e with he | he
  · exact absurd hlt (h'.magnitude_lt_of_exponent h he).le.not_gt
  · obtain ⟨n, rfl⟩ : ∃ n : Nat, e' = e + n := ⟨(e' - e).toNat, by omega⟩
    rw [magnitude_add] at hlt ⊢
    exact (strictMono_magnitude e).monotone ((strictMono_magnitude e).lt_iff_lt.mp hlt)

end Magnitude

/-! ## the parts of a double -/

section Packing

variable {s : Sign} {m : Nat} {e : Int}

/-- The parts of a double are canonical, and its exponent is not too large. -/
theorem canonical_of_unpack {b : BitVec 64} {hpos : 0 < m}
    (h : UnpackedFloat.unpack Format.binary64 b = .finite s m e hpos) :
    Canonical m e ∧ e ≤ 971 := by
  have hparts : some (BinaryFraction.mk (isNegative s) m e) = _ :=
    (congrArg BinaryFraction.ofUnpacked? h).symm.trans (ofUnpacked?_unpack b)
  have hmantissa : (@unpackMantissa Format.binary64 b).toNat < 2 ^ 52 := BitVec.isLt _
  have hexponent : (@unpackExponent Format.binary64 b).toNat < 2 ^ 11 := BitVec.isLt _
  split at hparts
  · cases hparts
  · next hmax =>
    split at hparts
    · obtain ⟨-, rfl, rfl⟩ := BinaryFraction.mk.inj (Option.some.inj hparts)
      exact ⟨⟨by omega, by omega, .inr rfl⟩, by omega⟩
    · next hzero =>
      obtain ⟨-, rfl, rfl⟩ := BinaryFraction.mk.inj (Option.some.inj hparts)
      have hmax : (@unpackExponent Format.binary64 b).toNat ≠ 2047 := fun h =>
        hmax (BitVec.eq_of_toNat_eq h)
      have hzero : (@unpackExponent Format.binary64 b).toNat ≠ 0 := fun h =>
        hzero (BitVec.eq_of_toNat_eq h)
      exact ⟨⟨by omega, by omega, .inl (by omega)⟩, by omega⟩

/-- A double that is not a zero is known by its parts. -/
theorem eq_of_ofUnpacked? {u : UnpackedFloat} (hpos : 0 < m)
    (h : BinaryFraction.ofUnpacked? u = some ⟨isNegative s, m, e⟩) : u = .finite s m e hpos := by
  cases u with
  | infinity | notANumber => cases h
  | zero t =>
      obtain ⟨-, rfl, -⟩ := BinaryFraction.mk.inj (Option.some.inj h)
      exact absurd hpos (Nat.lt_irrefl 0)
  | finite t m' e' hpos' =>
      obtain ⟨hsign, rfl, rfl⟩ := BinaryFraction.mk.inj (Option.some.inj h)
      cases s <;> cases t <;> first | rfl | cases hsign

theorem unpack_normal (s : Sign) {exponent : BitVec 11} (mantissa : BitVec 52)
    (hmax : exponent ≠ -1#11) (hzero : exponent ≠ 0#11) :
    UnpackedFloat.unpack Format.binary64 (packComponents Format.binary64 s exponent mantissa) =
      .finite s (mantissa.toNat + 2 ^ 52) (exponent.toNat - 1075) (by omega) := by
  refine eq_of_ofUnpacked? _ ?_
  rw [ofUnpacked?_unpack, unpackMantissa_packComponents, unpackExponent_packComponents,
    unpackSign_packComponents, Sign.ofBitVec_toBitVec, if_neg hmax, if_neg hzero]

theorem unpack_subnormal (s : Sign) {mantissa : BitVec 52} (h : 0 < mantissa.toNat) :
    UnpackedFloat.unpack Format.binary64 (packComponents Format.binary64 s 0#11 mantissa) =
      .finite s mantissa.toNat (-1074) h := by
  refine eq_of_ofUnpacked? h ?_
  rw [ofUnpacked?_unpack, unpackMantissa_packComponents, unpackExponent_packComponents,
    unpackSign_packComponents, Sign.ofBitVec_toBitVec, if_neg (by decide), if_pos rfl]

theorem pack_finite (s : Sign) (e : Int) (hpos : 0 < m) :
    UnpackedFloat.pack Format.binary64 (.finite s m e hpos) =
      if 2048 ≤ (e + 1023 + 52).toNat + 1 then UnpackedFloat.packedInfinity Format.binary64 s
      else if m.log2 + 1 = 53 then
        packComponents Format.binary64 s (BitVec.ofNat 11 (e + 1023 + 52).toNat) (BitVec.ofNat 52 m)
      else packComponents Format.binary64 s 0#11 (BitVec.ofNat 52 m) := rfl

/-- An exponent that is too large makes an infinity. -/
theorem unpack_pack_of_gt (s : Sign) (he : 971 < e) (hpos : 0 < m) :
    UnpackedFloat.unpack Format.binary64 (UnpackedFloat.pack Format.binary64 (.finite s m e hpos)) =
      .infinity s := by
  rw [pack_finite, if_pos (by omega)]
  cases s <;> rfl

/-- Packed parts are found again, if the exponent is one of those that there are. -/
theorem unpack_pack_of_le (s : Sign) (h : Canonical m e) (he : e ≤ 971) (hpos : 0 < m) :
    UnpackedFloat.unpack Format.binary64 (UnpackedFloat.pack Format.binary64 (.finite s m e hpos)) =
      .finite s m e hpos := by
  obtain ⟨hlt, hle, hfull⟩ := h
  have hlog : m.log2 + 1 = 53 ↔ 2 ^ 52 ≤ m := by
    rw [← Nat.le_log2 hpos.ne']
    have := (Nat.log2_lt hpos.ne').mpr hlt
    omega
  rw [pack_finite, if_neg (by omega)]
  by_cases hnormal : 2 ^ 52 ≤ m
  · have hexponent : (BitVec.ofNat 11 (e + 1023 + 52).toNat).toNat = (e + 1023 + 52).toNat := by
      rw [BitVec.toNat_ofNat, Nat.mod_eq_of_lt (by omega)]
    have hmax : BitVec.ofNat 11 (e + 1023 + 52).toNat ≠ -1#11 :=
      ne_of_apply_ne BitVec.toNat (by rw [hexponent]; simp; omega)
    have hzero : BitVec.ofNat 11 (e + 1023 + 52).toNat ≠ 0#11 :=
      ne_of_apply_ne BitVec.toNat (by rw [hexponent]; simp; omega)
    rw [if_pos (hlog.mpr hnormal), unpack_normal s _ hmax hzero, UnpackedFloat.finite.injEq,
      hexponent, BitVec.toNat_ofNat]
    exact ⟨rfl, by omega, by omega⟩
  · have hmantissa : (BitVec.ofNat 52 m).toNat = m := by
      rw [BitVec.toNat_ofNat, Nat.mod_eq_of_lt (by omega)]
    rw [if_neg (mt hlog.mp hnormal), unpack_subnormal s (by omega), UnpackedFloat.finite.injEq]
    exact ⟨rfl, hmantissa, (hfull.resolve_left hnormal).symm⟩

end Packing

end FontTrace
