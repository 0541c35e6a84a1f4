import FontTrace.Proofs.Number.Rounding

/-!
# FontTrace.Proofs.Number.Quotient

Quotients of doubles.  They are rounded, but a double on one side of the exact quotient stays
on its side or is the result.

* `div_eq`, `mul_eq` — quotients and products of finite parts are rounded faithfully;
* `not_lt_div`, `lt_div` — a double that is no smaller, or no larger, than the exact quotient;
* `isNaN_div`, `div_one_beq` — a number divided by a positive one is a number, and divided by one
  it is the same;
* `exactValue_ofNat` — counts up to 2 ^ 53 are doubles.
-/

namespace FontTrace

open Float.Model (Format UnpackedFloat totalExponent)
open Float.Model.UnpackedFloat

/-! ## parts -/

section Parts

variable {m m₁ m₂ : Nat} {e e₁ e₂ : Int}

/-- The digits of a quotient of integers tell where it is. -/
theorem brackets_of_div (m : Nat) (e : Int) (hpos : 0 < m₂) :
    Brackets (ExtendedMantissa.ofMantissaAndAccuracy (m / m₂) (accuracyOfFraction (m % m₂) m₂)) e
      (magnitude m e / m₂) := by
  have hm₂ : (0 : ℚ) < m₂ := Nat.cast_pos.mpr hpos
  have hscaled (n : Nat) : magnitude n e = magnitude (n * m₂) e / m₂ := by
    rw [eq_div_iff hm₂.ne', magnitude, magnitude]
    push_cast
    ring
  have hdigits := Nat.div_add_mod' m m₂
  have hrest := Nat.mod_lt m hpos
  unfold accuracyOfFraction
  split
  · next hzero =>
    have hexact := brackets_exact (m / m₂) e
    rwa [hscaled, show m / m₂ * m₂ = m by omega] at hexact
  · next hpart =>
    refine brackets_inexact _ ?_ ?_
    · rw [hscaled, div_lt_div_iff_of_pos_right hm₂]
      exact strictMono_magnitude e (by omega)
    · rw [hscaled (m / m₂ + 1), div_lt_div_iff_of_pos_right hm₂]
      exact strictMono_magnitude e (by rw [add_one_mul]; omega)

/-- A quotient is computed with enough digits, or down to the smallest exponent. -/
theorem divCore_eq (m₁ : Nat) (e₁ : Int) (m₂ : Nat) (e₂ : Int) :
    ∃ n : Nat, divCore Format.binary64 m₁ e₁ m₂ e₂ =
      (m₁ * 2 ^ n / m₂, e₁ - e₂ - n, accuracyOfFraction (m₁ * 2 ^ n % m₂) m₂) ∧
        (m₂.log2 + 53 ≤ m₁.log2 + n ∨ e₁ - e₂ - n ≤ -1074) := by
  let t := min (e₁ - e₂)
    (Format.binary64.targetExponent (totalExponent m₁ e₁ - totalExponent m₂ e₂))
  have ht : t = min (e₁ - e₂) (max (m₁.log2 + 1 + e₁ - (m₂.log2 + 1 + e₂) - 53) (-1074)) := rfl
  refine ⟨(e₁ - e₂ - t).toNat, ?_, by omega⟩
  have hcore : divCore Format.binary64 m₁ e₁ m₂ e₂ =
      (m₁ <<< (e₁ - e₂ - t).toNat / m₂, t,
        accuracyOfFraction (m₁ <<< (e₁ - e₂ - t).toNat % m₂) m₂) := rfl
  have hexponent : e₁ - e₂ - (e₁ - e₂ - t).toNat = t := by omega
  rw [hcore, hexponent, Nat.shiftLeft_eq]

/-- Quotients are rounded faithfully. -/
theorem div_eq (s₁ s₂ : Sign) (e₁ e₂ : Int) (h₁ : 0 < m₁) (h₂ : 0 < m₂) :
    ∃ m e, Faithful (magnitude m₁ e₁ / magnitude m₂ e₂) m e ∧
      UnpackedFloat.div Format.binary64 (.finite s₁ m₁ e₁ h₁) (.finite s₂ m₂ e₂ h₂) =
        signed (s₁ / s₂) m e := by
  obtain ⟨n, hcore, hdigits⟩ := divCore_eq m₁ e₁ m₂ e₂
  have hquotient : magnitude (m₁ * 2 ^ n) (e₁ - e₂ - n) / m₂ =
      magnitude m₁ e₁ / magnitude m₂ e₂ := by
    rw [← magnitude_add, sub_add_cancel, magnitude, magnitude, magnitude, zpow_sub₀ two_ne_zero]
    ring
  have hlong : 2 ^ 52 ≤ m₁ * 2 ^ n / m₂ ∨ e₁ - e₂ - n ≤ -1074 := by
    refine hdigits.imp_left fun hlog => (Nat.le_div_iff_mul_le h₂).mpr ?_
    calc 2 ^ 52 * m₂ ≤ 2 ^ 52 * 2 ^ (m₂.log2 + 1) :=
          Nat.mul_le_mul_left _ (Nat.lt_log2_self).le
      _ ≤ 2 ^ (m₁.log2 + n) := by
          rw [← pow_add]
          exact Nat.pow_le_pow_right (by omega) (by omega)
      _ ≤ m₁ * 2 ^ n := by
          rw [pow_add]
          exact Nat.mul_le_mul_right _ (Nat.log2_self_le h₁.ne')
  have hdiv : UnpackedFloat.div Format.binary64 (.finite s₁ m₁ e₁ h₁) (.finite s₂ m₂ e₂ h₂) =
      roundWithAccuracy Format.binary64 (s₁ / s₂) (divCore Format.binary64 m₁ e₁ m₂ e₂).1
        (divCore Format.binary64 m₁ e₁ m₂ e₂).2.1 (divCore Format.binary64 m₁ e₁ m₂ e₂).2.2 := rfl
  rw [hdiv, hcore, ← hquotient]
  exact roundWithAccuracy_eq (s₁ / s₂) hlong (brackets_of_div _ _ h₂)

theorem infinity_div_finite (s₁ s₂ : Sign) (e₂ : Int) (h₂ : 0 < m₂) :
    UnpackedFloat.div Format.binary64 (.infinity s₁) (.finite s₂ m₂ e₂ h₂) =
      .infinity (s₁ / s₂) := rfl

theorem zero_div_finite (s₁ s₂ : Sign) (e₂ : Int) (h₂ : 0 < m₂) :
    UnpackedFloat.div Format.binary64 (.zero s₁) (.finite s₂ m₂ e₂ h₂) = .zero (s₁ / s₂) := rfl

/-- Products are rounded faithfully. -/
theorem mul_eq (s₁ s₂ : Sign) (hc₁ : Canonical m₁ e₁) (hc₂ : Canonical m₂ e₂) (h₁ : 0 < m₁)
    (h₂ : 0 < m₂) :
    ∃ m e, Faithful (magnitude m₁ e₁ * magnitude m₂ e₂) m e ∧
      UnpackedFloat.mul Format.binary64 (.finite s₁ m₁ e₁ h₁) (.finite s₂ m₂ e₂ h₂) =
        signed (s₁ * s₂) m e := by
  have hproduct : magnitude m₁ e₁ * magnitude m₂ e₂ = magnitude (m₁ * m₂) (e₁ + e₂) := by
    rw [magnitude, magnitude, magnitude, zpow_add₀ two_ne_zero]
    push_cast
    ring
  have hlong : 2 ^ 52 ≤ m₁ * m₂ ∨ e₁ + e₂ ≤ -1074 := by
    rcases hc₁.full with hfull | hmin
    · exact .inl (hfull.trans (Nat.le_mul_of_pos_right m₁ h₂))
    · rcases hc₂.full with hfull | hmin₂
      · exact .inl (hfull.trans (Nat.le_mul_of_pos_left m₂ h₁))
      · omega
  rw [hproduct]
  exact roundWithAccuracy_eq (s₁ * s₂) hlong (brackets_exact (m₁ * m₂) (e₁ + e₂))

end Parts

/-! ## packed results -/

theorem unpack_pack_infinity (s : Sign) : (Float.Model.pack (.infinity s)).unpack = .infinity s := by
  cases s <;> rfl

theorem unpack_pack_zero (s : Sign) : (Float.Model.pack (.zero s)).unpack = .zero s := by
  cases s <;> rfl

theorem unpack_pack_signed (s : Sign) {m : Nat} {e : Int} (h : Canonical m e) :
    (Float.Model.pack (signed s m e)).unpack = if 971 < e then .infinity s else signed s m e := by
  rcases Nat.eq_zero_or_pos m with rfl | hpos
  · have he : e = -1074 := h.full.resolve_left (by omega)
    rw [signed_zero, if_neg (by omega), unpack_pack_zero]
  · rw [signed_of_pos s e hpos]
    by_cases he : 971 < e
    · rw [if_pos he]
      exact unpack_pack_of_gt s he hpos
    · rw [if_neg he]
      exact unpack_pack_of_le s h (by omega) hpos

/-! ## positive doubles -/

/-- A double above zero that is finite. -/
def IsPositive (x : Float) : Prop := 0 < x ∧ x.isFinite = true

instance : DecidablePred IsPositive := fun _ => inferInstanceAs (Decidable (_ ∧ _))

section Positive

variable {v w x y : Float}

theorem isPositive_of_unpack {m : Nat} {e : Int} {hm : 0 < m}
    (h : x.toModel.unpack = .finite .positive m e hm) : IsPositive x := by
  constructor
  · rw [lt_iff_compare, unpack_zero, h]
    rfl
  · show x.toModel.unpack.isFinite = true
    rw [h]
    rfl

/-- The parts of a positive double, which make its exact value. -/
theorem IsPositive.exists_parts (h : IsPositive x) :
    ∃ m e hpos, x.toModel.unpack = .finite .positive m e hpos ∧ Canonical m e ∧ e ≤ 971 ∧
      exactValue x = magnitude m e := by
  obtain ⟨hpos, hfinite⟩ := h
  have hfinite : x.toModel.unpack.isFinite = true := hfinite
  rw [lt_iff_compare, unpack_zero] at hpos
  cases hx : x.toModel.unpack with
  | infinity s => rw [hx] at hfinite; cases hfinite
  | notANumber => rw [hx] at hfinite; cases hfinite
  | zero s => rw [hx] at hpos; cases hpos
  | finite s m e hm =>
      cases s with
      | negative => rw [hx] at hpos; cases hpos
      | positive =>
          obtain ⟨hc, he⟩ := canonical_of_unpack hx
          refine ⟨m, e, hm, rfl, hc, he, ?_⟩
          rw [exactValue, ofFloat?_eq, hx]
          show 1 * (m : ℚ) * 2 ^ e = _
          rw [one_mul, magnitude]

theorem IsPositive.exactValue_pos (h : IsPositive x) : 0 < exactValue x := by
  obtain ⟨m, e, hm, -, -, -, hvalue⟩ := h.exists_parts
  rw [hvalue]
  exact magnitude_pos_iff.mpr hm

/-- Positive doubles are in the order of their exact values. -/
theorem IsPositive.lt_iff (hx : IsPositive x) (hy : IsPositive y) :
    x < y ↔ exactValue x < exactValue y := by
  obtain ⟨m, e, hm, hx, hc, -, hvalue⟩ := hx.exists_parts
  obtain ⟨m', e', hm', hy, hc', -, hvalue'⟩ := hy.exists_parts
  rw [lt_iff_compare, hx, hy, hvalue, hvalue', ← compare_lt_iff_lt, compare_magnitude hc hc']
  exact Option.some_inj

theorem unpack_div (x y : Float) : (x / y).toModel.unpack =
    (Float.Model.pack (UnpackedFloat.div Format.binary64 x.toModel.unpack
      y.toModel.unpack)).unpack := rfl

/-- A positive double is below a packed number if its value is, also where that is packed as an
infinity. -/
theorem IsPositive.compare_packed (hw : IsPositive w) {m : Nat} {e : Int} (h : Canonical m e) :
    w.toModel.unpack.compare (Float.Model.pack (signed .positive m e)).unpack = some .lt ↔
      exactValue w < magnitude m e := by
  obtain ⟨m', e', hm', hw, hc', he', hvalue⟩ := hw.exists_parts
  rw [unpack_pack_signed _ h, hw, hvalue]
  by_cases he : 971 < e
  · rw [if_pos he]
    exact iff_of_true rfl (hc'.magnitude_lt_of_exponent h (he'.trans_lt he))
  · rw [if_neg he]
    rcases Nat.eq_zero_or_pos m with rfl | hm
    · have hzero : magnitude 0 e = 0 := by rw [magnitude, Nat.cast_zero, zero_mul]
      rw [signed_zero, hzero]
      refine iff_of_false (fun h => ?_) (magnitude_pos_iff.mpr hm').not_gt
      cases h
    · rw [signed_of_pos _ e hm, ← compare_lt_iff_lt, compare_magnitude hc' h]
      exact Option.some_inj

/-- Which doubles are below the quotient of two positive ones. -/
theorem exists_lt_div_iff (hx : IsPositive x) (hy : IsPositive y) :
    ∃ m e, Faithful (exactValue x / exactValue y) m e ∧
      ∀ w, IsPositive w → (w < x / y ↔ exactValue w < magnitude m e) := by
  obtain ⟨m, e, hm, hx, -, -, hvalue⟩ := hx.exists_parts
  obtain ⟨m', e', hm', hy, -, -, hvalue'⟩ := hy.exists_parts
  obtain ⟨q, r, hfaithful, hdiv⟩ := div_eq .positive .positive e e' hm hm'
  refine ⟨q, r, by rwa [hvalue, hvalue'], fun w hw => ?_⟩
  rw [lt_iff_compare, unpack_div, hx, hy, hdiv]
  exact hw.compare_packed hfaithful.toCanonical

/-- A double that is no smaller than the exact quotient is not below the rounded one. -/
theorem not_lt_div (hx : IsPositive x) (hy : IsPositive y) (hv : IsPositive v)
    (h : exactValue x ≤ exactValue v * exactValue y) : ¬v < x / y := by
  obtain ⟨m, e, hfaithful, hlt⟩ := exists_lt_div_iff hx hy
  obtain ⟨_, _, -, -, hc, -, hvalue⟩ := hv.exists_parts
  rw [hlt v hv, hvalue, not_lt]
  refine hfaithful.upper hc ?_
  rwa [← hvalue, div_le_iff₀ hy.exactValue_pos]

/-- A double that is below one no larger than the exact quotient is below the rounded one. -/
theorem lt_div (hx : IsPositive x) (hy : IsPositive y) (hv : IsPositive v) (hw : IsPositive w)
    (hlt : w < v) (h : exactValue v * exactValue y ≤ exactValue x) : w < x / y := by
  obtain ⟨m, e, hfaithful, hdiv⟩ := exists_lt_div_iff hx hy
  obtain ⟨_, _, -, -, hc, -, hvalue⟩ := hv.exists_parts
  rw [hdiv w hw]
  refine ((hw.lt_iff hv).mp hlt).trans_le ?_
  rw [hvalue]
  refine hfaithful.lower hc ?_
  rwa [← hvalue, le_div_iff₀ hy.exactValue_pos]

/-! ## quotients that are numbers -/

/-- A number divided by a positive one is a number. -/
theorem isNaN_div (hx : x.isNaN = false) (hy : IsPositive y) : (x / y).isNaN = false := by
  obtain ⟨m', e', hm', hy, -⟩ := hy.exists_parts
  have hx : x.toModel.unpack.isNaN = false := hx
  show (x / y).toModel.unpack.isNaN = false
  rw [unpack_div, hy]
  cases hparts : x.toModel.unpack with
  | notANumber => rw [hparts] at hx; cases hx
  | infinity s => rw [infinity_div_finite, unpack_pack_infinity]; rfl
  | zero s => rw [zero_div_finite, unpack_pack_zero]; rfl
  | finite s m e hm =>
      obtain ⟨q, r, hfaithful, hdiv⟩ := div_eq s .positive e e' hm hm'
      rw [hdiv, unpack_pack_signed _ hfaithful.toCanonical]
      by_cases hr : 971 < r
      · rw [if_pos hr]
        rfl
      · rw [if_neg hr, isNaN_signed]

theorem unpack_one : (1 : Float).toModel.unpack =
    .finite .positive (2 ^ 52) (-52) (by decide) := by
  rfl

theorem canonical_one : Canonical (2 ^ 52) (-52) := ⟨by norm_num, by norm_num, .inl le_rfl⟩

theorem magnitude_one : magnitude (2 ^ 52) (-52) = 1 := by norm_num [magnitude]

theorem div_positive (s : Sign) : s / .positive = s := by cases s <;> rfl

/-- A number divided by one is the same. -/
theorem div_one_beq (hx : x.isNaN = false) : (x / 1 == x) = true := by
  have hsame : x.toModel.unpack.isNaN = false := hx
  suffices hunpack : (x / 1).toModel.unpack = x.toModel.unpack by
    rw [beq_eq_compare, hunpack, compare_self hsame]
    rfl
  rw [unpack_div, unpack_one]
  cases hparts : x.toModel.unpack with
  | notANumber => rw [hparts] at hsame; cases hsame
  | infinity s => rw [infinity_div_finite, unpack_pack_infinity, div_positive]
  | zero s => rw [zero_div_finite, unpack_pack_zero, div_positive]
  | finite s m e hm =>
      obtain ⟨hc, he⟩ := canonical_of_unpack hparts
      obtain ⟨m', e', hfaithful, hdiv⟩ := div_eq s .positive e (-52) hm (Nat.two_pow_pos 52)
      rw [magnitude_one, div_one] at hfaithful
      obtain ⟨rfl, rfl⟩ := hfaithful.eq_of_canonical hc
      rw [hdiv, unpack_pack_signed _ hc, if_neg (by omega), signed_of_pos _ _ hm, div_positive]

theorem unpack_infinity_div (hx : x.toModel.unpack = .infinity .positive) (hy : IsPositive y) :
    (x / y).toModel.unpack = .infinity .positive := by
  obtain ⟨m, e, hm, hy, -⟩ := hy.exists_parts
  rw [unpack_div, hx, hy, infinity_div_finite, unpack_pack_infinity, div_positive]

theorem lt_of_infinity (hx : x.toModel.unpack = .infinity .positive) (hw : IsPositive w) :
    w < x := by
  obtain ⟨m, e, hm, hw, -⟩ := hw.exists_parts
  rw [lt_iff_compare, hx, hw]
  rfl

/-- What is above a positive double is one or infinite. -/
theorem IsPositive.cases_of_lt (hw : IsPositive w) (h : w < x) :
    x.toModel.unpack = .infinity .positive ∨ IsPositive x := by
  obtain ⟨m, e, hm, hw, -⟩ := hw.exists_parts
  rw [lt_iff_compare, hw] at h
  cases hx : x.toModel.unpack with
  | notANumber => rw [hx] at h; cases h
  | zero s => rw [hx] at h; cases h
  | infinity s =>
      cases s with
      | negative => rw [hx] at h; cases h
      | positive => exact .inl rfl
  | finite s m' e' hm' =>
      cases s with
      | negative => rw [hx] at h; cases h
      | positive =>
          exact .inr (isPositive_of_unpack hx)

end Positive

/-! ## counts -/

/-- A double that is packed from canonical parts has the value of these. -/
theorem isPositive_of_packed {x : Float} {m : Nat} {e : Int} (hc : Canonical m e) (hm : 0 < m)
    (he : e ≤ 971) (h : x.toModel.unpack = (Float.Model.pack (signed .positive m e)).unpack) :
    IsPositive x ∧ exactValue x = magnitude m e := by
  rw [unpack_pack_signed _ hc, if_neg (by omega), signed_of_pos _ e hm] at h
  have hpos : IsPositive x := isPositive_of_unpack h
  obtain ⟨m', e', hm', hx, -, -, hvalue⟩ := hpos.exists_parts
  rw [h, UnpackedFloat.finite.injEq] at hx
  obtain ⟨-, rfl, rfl⟩ := hx
  exact ⟨hpos, hvalue⟩

theorem unpack_mul (x y : Float) : (x * y).toModel.unpack =
    (Float.Model.pack (UnpackedFloat.mul Format.binary64 x.toModel.unpack
      y.toModel.unpack)).unpack := rfl

theorem exactValue_mul_one {x : Float} (h : IsPositive x) :
    IsPositive (x * 1) ∧ exactValue (x * 1) = exactValue x := by
  obtain ⟨m, e, hm, hx, hc, he, hvalue⟩ := h.exists_parts
  obtain ⟨q, r, hfaithful, hmul⟩ :=
    mul_eq .positive .positive hc canonical_one hm (Nat.two_pow_pos 52)
  rw [magnitude_one, mul_one] at hfaithful
  obtain ⟨rfl, rfl⟩ := hfaithful.eq_of_canonical hc
  rw [hvalue]
  refine isPositive_of_packed hc hm he ?_
  rw [unpack_mul, hx, unpack_one, hmul]
  rfl

/-- A count in the format of doubles. -/
theorem canonical_of_lt {n : Nat} (hpos : 0 < n) (hn : n < 2 ^ 53) :
    Canonical (n * 2 ^ (52 - n.log2)) (-(52 - n.log2 : Nat)) ∧
      magnitude (n * 2 ^ (52 - n.log2)) (-(52 - n.log2 : Nat)) = n := by
  have hlog : n.log2 ≤ 52 := by
    have := (Nat.log2_lt hpos.ne').mpr hn
    omega
  refine ⟨⟨?_, by omega, .inl ?_⟩, ?_⟩
  · calc n * 2 ^ (52 - n.log2) < 2 ^ (n.log2 + 1) * 2 ^ (52 - n.log2) :=
          Nat.mul_lt_mul_of_pos_right Nat.lt_log2_self (by positivity)
      _ = 2 ^ 53 := by rw [← pow_add]; congr 1; omega
  · calc 2 ^ 52 = 2 ^ n.log2 * 2 ^ (52 - n.log2) := by rw [← pow_add]; congr 1; omega
      _ ≤ n * 2 ^ (52 - n.log2) := Nat.mul_le_mul_right _ (Nat.log2_self_le hpos.ne')
  · rw [← magnitude_add, neg_add_cancel, magnitude, zpow_zero, mul_one]

/-- The double that is nearest to a count is computed by way of a machine word. -/
theorem float_ofNat_of_lt {n : Nat} (hn : n < 2 ^ 53) : Float.ofNat n = n.toUInt64.toFloat * 1 := by
  have hone : (1 : Float) = Float.ofBits 0x3FF0000000000000 := by decide +kernel
  show Float.ofScientific n false 0 = _
  rw [Float.ofScientific, dif_pos ⟨hn, by omega⟩, hone]
  rfl

theorem unpack_toFloat {n : Nat} (hpos : 0 < n) (hn : n < 2 ^ 53) :
    n.toUInt64.toFloat.toModel.unpack =
      (Float.Model.pack (round Format.binary64 .positive n 0)).unpack := by
  have hword : n.toUInt64.toNat = n := UInt64.toNat_ofNat_of_lt' (by rw [UInt64.size]; omega)
  have hgt : compare (n : Int) 0 = .gt := compare_gt_iff_gt.mpr (by omega)
  show (Float.Model.pack (UnpackedFloat.ofUInt64 Format.binary64 n.toUInt64)).unpack = _
  rw [UnpackedFloat.ofUInt64, hword, UnpackedFloat.ofNat, UnpackedFloat.ofInt,
    UnpackedFloat.normalize, hgt, Int.toNat_natCast]

theorem exactValue_toFloat {n : Nat} (hpos : 0 < n) (hn : n < 2 ^ 53) :
    IsPositive n.toUInt64.toFloat ∧ exactValue n.toUInt64.toFloat = n := by
  obtain ⟨hc, hvalue⟩ := canonical_of_lt hpos hn
  obtain ⟨m, e, hfaithful, hround⟩ := round_eq .positive 0 hpos
  rw [show magnitude n 0 = n by rw [magnitude, zpow_zero, mul_one], ← hvalue] at hfaithful
  obtain ⟨rfl, rfl⟩ := hfaithful.eq_of_canonical hc
  rw [← hvalue]
  exact isPositive_of_packed hc (Nat.mul_pos hpos (Nat.two_pow_pos _)) (by omega)
    ((unpack_toFloat hpos hn).trans (by rw [hround]))

/-- Counts are doubles, as far as doubles count. -/
theorem exactValue_ofNat {n : Nat} (hpos : 0 < n) (hn : n ≤ 2 ^ 53) :
    IsPositive (Float.ofNat n) ∧ exactValue (Float.ofNat n) = n := by
  rcases hn.lt_or_eq with hlt | rfl
  · obtain ⟨hcount, hvalue⟩ := exactValue_toFloat hpos hlt
    rw [float_ofNat_of_lt hlt, ← hvalue]
    exact exactValue_mul_one hcount
  · decide +kernel

end FontTrace
