import FontTrace.Proofs.Number.Canonical

/-!
# FontTrace.Proofs.Number.Rounding

Rounding to the format of doubles.  A number in between two neighbours of the format becomes
one of them, and a number of the format stays as it is.

* `Brackets` — what a mantissa with its residual bits tells of a number; shifts keep it;
* `Faithful` — no number of the format is strictly in between a number and the rounded one;
* `roundWithAccuracy_eq` — rounding is faithful.
-/

namespace FontTrace

open Float.Model (Format UnpackedFloat totalExponent)
open Float.Model.UnpackedFloat

/-! ## residual bits -/

/-- What a mantissa with residual bits tells of a number: the number is there, or strictly in
between this mantissa and the next one. -/
structure Brackets (em : ExtendedMantissa) (e : Int) (q : ℚ) : Prop where
  lower : magnitude em.mantissa e ≤ q
  upper : q < magnitude (em.mantissa + 1) e
  exact : q = magnitude em.mantissa e ↔ em.roundBit = false ∧ em.stickyBit = false

section Brackets

variable {em : ExtendedMantissa} {m : Nat} {e : Int} {q : ℚ}

theorem brackets_exact (m : Nat) (e : Int) :
    Brackets (ExtendedMantissa.ofMantissaAndAccuracy m .exact) e (magnitude m e) where
  lower := le_rfl
  upper := strictMono_magnitude e m.lt_succ_self
  exact := iff_of_true rfl ⟨rfl, rfl⟩

theorem brackets_inexact (o : Ordering) (hlower : magnitude m e < q)
    (hupper : q < magnitude (m + 1) e) :
    Brackets (ExtendedMantissa.ofMantissaAndAccuracy m (.inexact o)) e q := by
  cases o <;> exact ⟨hlower.le, hupper, by simp [ExtendedMantissa.ofMantissaAndAccuracy, hlower.ne']⟩

theorem Brackets.shiftRightOne (h : Brackets em e q) : Brackets em.shiftRightOne (e + 1) q := by
  obtain ⟨m, round, sticky⟩ := em
  have hdouble (n : Nat) : magnitude n (e + 1) = magnitude (n * 2) e := magnitude_add n e 1
  have hmono := (strictMono_magnitude e).monotone
  constructor
  · rw [hdouble]
    exact (hmono (Nat.div_mul_le_self m 2)).trans h.lower
  · rw [hdouble]
    refine h.upper.trans_le (hmono ?_)
    show m + 1 ≤ (m / 2 + 1) * 2
    omega
  · rw [hdouble]
    show q = magnitude (m / 2 * 2) e ↔ (m % 2 != 0) = false ∧ (round || sticky) = false
    rcases Nat.mod_two_eq_zero_or_one m with heven | hodd
    · rw [Nat.div_mul_cancel (Nat.dvd_of_mod_eq_zero heven), h.exact]
      simp [heven]
    · have hlt : magnitude (m / 2 * 2) e < magnitude m e := strictMono_magnitude e (by omega)
      simp [hodd, (hlt.trans_le h.lower).ne']

theorem shiftRight_succ (em : ExtendedMantissa) (n : Nat) :
    em >>> (n + 1) = (em >>> n).shiftRightOne := rfl

theorem Brackets.shiftRight (h : Brackets em e q) (n : Nat) : Brackets (em >>> n) (e + n) q := by
  induction n with
  | zero => exact (add_zero e).symm ▸ h
  | succ n ih =>
      rw [shiftRight_succ, Nat.cast_succ, ← add_assoc]
      exact ih.shiftRightOne

theorem mantissa_shiftRight (em : ExtendedMantissa) (n : Nat) :
    (em >>> n).mantissa = em.mantissa / 2 ^ n := by
  induction n with
  | zero => exact (Nat.div_one _).symm
  | succ n ih =>
      rw [shiftRight_succ, pow_succ, ← Nat.div_div_eq_div_mul, ← ih]
      rfl

/-- The rounded mantissa is the mantissa or the next one, and the mantissa if that is exact. -/
theorem roundedMantissa_cases (em : ExtendedMantissa) :
    em.roundedMantissa = em.mantissa ∨
      em.roundedMantissa = em.mantissa + 1 ∧ (em.roundBit = true ∨ em.stickyBit = true) := by
  obtain ⟨m, round, sticky⟩ := em
  cases round <;> cases sticky <;>
    simp [ExtendedMantissa.roundedMantissa, ExtendedMantissa.accuracy,
      Accuracy.roundToNearestEven]
  omega

end Brackets

/-! ## rounded numbers -/

/-- A number of the format with no other one strictly in between it and the given number. -/
structure Faithful (q : ℚ) (m : Nat) (e : Int) : Prop extends Canonical m e where
  upper : ∀ {m' : Nat} {e' : Int}, Canonical m' e' → q ≤ magnitude m' e' →
    magnitude m e ≤ magnitude m' e'
  lower : ∀ {m' : Nat} {e' : Int}, Canonical m' e' → magnitude m' e' ≤ q →
    magnitude m' e' ≤ magnitude m e

/-- A number of the format is rounded to itself. -/
theorem Faithful.eq_of_canonical {m m' : Nat} {e e' : Int} (h : Faithful (magnitude m e) m' e')
    (hc : Canonical m e) : m' = m ∧ e' = e :=
  h.eq_of_magnitude hc ((h.upper hc le_rfl).antisymm (h.lower hc le_rfl))

section Rounded

variable {em : ExtendedMantissa} {m m' : Nat} {e e' : Int} {q : ℚ}

theorem Brackets.rounded_le (h : Brackets em e q) (hem : Canonical em.mantissa e)
    (h' : Canonical m' e') (hq : q ≤ magnitude m' e') :
    magnitude em.roundedMantissa e ≤ magnitude m' e' := by
  rcases roundedMantissa_cases em with hround | ⟨hround, hinexact⟩
  · rw [hround]
    exact h.lower.trans hq
  · rw [hround]
    have hne : q ≠ magnitude em.mantissa e := fun heq => by
      have := h.exact.mp heq
      simp_all
    exact hem.succ_le_of_lt h' ((lt_of_le_of_ne h.lower hne.symm).trans_le hq)

theorem Brackets.le_rounded (h : Brackets em e q) (hem : Canonical em.mantissa e)
    (h' : Canonical m' e') (hq : magnitude m' e' ≤ q) :
    magnitude m' e' ≤ magnitude em.roundedMantissa e := by
  have hle : magnitude m' e' ≤ magnitude em.mantissa e := le_of_not_gt fun hlt =>
    absurd (hem.succ_le_of_lt h' hlt) (hq.trans_lt h.upper).not_ge
  refine hle.trans ((strictMono_magnitude e).monotone ?_)
  rcases roundedMantissa_cases em with hround | ⟨hround, -⟩ <;> omega

end Rounded

/-! ## shifts to the exponent of the format -/

section Shifts

variable {m : Nat} {e : Int}

theorem targetExponent_eq (k : Int) :
    Format.binary64.targetExponent k = max (k - 53) (-1074) := rfl

/-- A mantissa with enough bits is cut to those of the format. -/
theorem canonical_shift (h : 2 ^ 52 ≤ m ∨ e ≤ -1074) :
    let n := (Format.binary64.targetExponent (totalExponent m e) - e).toNat
    Canonical (m / 2 ^ n) (e + n) := by
  intro n
  have hlog : 52 ≤ m.log2 ∨ e ≤ -1074 :=
    h.imp_left fun hm => (Nat.le_log2 (by omega)).mpr hm
  have hn : e + n = max (m.log2 + 1 + e - 53) (-1074) := by
    simp only [n, targetExponent_eq, totalExponent]
    omega
  refine ⟨?_, by omega, ?_⟩
  · rw [Nat.div_lt_iff_lt_mul (by positivity), ← pow_add]
    exact Nat.lt_log2_self.trans_le (Nat.pow_le_pow_right (by omega) (by omega))
  · refine or_iff_not_imp_right.mpr fun hmin => ?_
    have hbits : m.log2 = 52 + n := by omega
    have hne : m ≠ 0 := by
      rintro rfl
      rw [Nat.log2_zero] at hbits
      omega
    rw [Nat.le_div_iff_mul_le (by positivity), ← pow_add, ← hbits]
    exact Nat.log2_self_le hne

/-- A mantissa that was rounded up to 54 bits is cut to 53 with the next exponent. -/
theorem canonical_shift_of_le (hm : m ≤ 2 ^ 53) (he : -1074 ≤ e) (hfull : 2 ^ 52 ≤ m ∨ e = -1074) :
    let n := (Format.binary64.targetExponent (totalExponent m e) - e).toNat
    Canonical (m / 2 ^ n) (e + n) ∧ magnitude (m / 2 ^ n) (e + n) = magnitude m e := by
  intro n
  rcases hm.lt_or_eq with hlt | rfl
  · have hlog : m.log2 ≤ 52 := by
      rcases Nat.eq_zero_or_pos m with rfl | hpos
      · simp
      · have := (Nat.log2_lt hpos.ne').mpr hlt
        omega
    have hn : n = 0 := by
      simp only [n, targetExponent_eq, totalExponent]
      omega
    rw [hn, pow_zero, Nat.div_one, Nat.cast_zero, add_zero]
    exact ⟨⟨hlt, he, hfull⟩, rfl⟩
  · have hn : n = 1 := by
      simp only [n, targetExponent_eq, totalExponent, Nat.log2_two_pow]
      omega
    rw [hn]
    exact ⟨⟨by norm_num, by omega, .inl (by norm_num)⟩, magnitude_add (2 ^ 52) e 1⟩

end Shifts

/-! ## rounding -/

/-- A number with a sign; a zero has no exponent. -/
def signed (s : Sign) (m : Nat) (e : Int) : UnpackedFloat :=
  if h : m = 0 then .zero s else .finite s m e (Nat.pos_of_ne_zero h)

theorem signed_zero (s : Sign) (e : Int) : signed s 0 e = .zero s := rfl

theorem signed_of_pos (s : Sign) {m : Nat} (e : Int) (h : 0 < m) : signed s m e = .finite s m e h :=
  dif_neg h.ne'

theorem isNaN_signed (s : Sign) (m : Nat) (e : Int) : (signed s m e).isNaN = false := by
  rcases Nat.eq_zero_or_pos m with rfl | h
  · rfl
  · rw [signed_of_pos s e h]
    rfl

theorem mantissa_ofMantissaAndAccuracy (m : Nat) (acc : Accuracy) :
    (ExtendedMantissa.ofMantissaAndAccuracy m acc).mantissa = m := by
  cases acc with
  | exact => rfl
  | inexact o => cases o <;> rfl

/-- Rounding is faithful. -/
theorem roundWithAccuracy_eq (s : Sign) {m : Nat} {e : Int} {acc : Accuracy} {q : ℚ}
    (hlong : 2 ^ 52 ≤ m ∨ e ≤ -1074)
    (h : Brackets (ExtendedMantissa.ofMantissaAndAccuracy m acc) e q) :
    ∃ m' e', Faithful q m' e' ∧
      roundWithAccuracy Format.binary64 s m e acc = signed s m' e' := by
  let n := (Format.binary64.targetExponent (totalExponent m e) - e).toNat
  let em := ExtendedMantissa.ofMantissaAndAccuracy m acc >>> n
  have hem : Canonical em.mantissa (e + n) := by
    rw [mantissa_shiftRight, mantissa_ofMantissaAndAccuracy]
    exact canonical_shift hlong
  have hbrackets : Brackets em (e + n) q := h.shiftRight n
  have hrounded : em.roundedMantissa ≤ 2 ^ 53 ∧
      (2 ^ 52 ≤ em.roundedMantissa ∨ e + n = -1074) := by
    obtain ⟨hlt, -, hfull⟩ := hem
    rcases roundedMantissa_cases em with hround | ⟨hround, -⟩ <;> omega
  obtain ⟨hcanonical, hsame⟩ := canonical_shift_of_le hrounded.1 hem.le hrounded.2
  have hcut (m' k : Nat) :
      (ExtendedMantissa.ofMantissaAndAccuracy m' .exact >>> k).mantissa = m' / 2 ^ k := by
    rw [mantissa_shiftRight, mantissa_ofMantissaAndAccuracy]
  refine ⟨_, _, ⟨hcanonical, fun h' hq => ?_, fun h' hq => ?_⟩, ?_⟩
  · rw [hsame]
    exact hbrackets.rounded_le hem h' hq
  · rw [hsame]
    exact hbrackets.le_rounded hem h' hq
  · rw [← hcut]
    rfl

theorem shiftLeft_le_of_targetExponent {m : Nat} {e : Int} (hpos : 0 < m) :
    let n := (e - Format.binary64.targetExponent (totalExponent m e)).toNat
    2 ^ 52 ≤ m * 2 ^ n ∨ e - n ≤ -1074 := by
  intro n
  refine or_iff_not_imp_right.mpr fun hmin => ?_
  have hn : 52 ≤ m.log2 + n := by
    simp only [n, targetExponent_eq, totalExponent] at *
    omega
  calc 2 ^ 52 ≤ 2 ^ m.log2 * 2 ^ n := by
        rw [← pow_add]
        exact Nat.pow_le_pow_right (by omega) hn
    _ ≤ m * 2 ^ n := Nat.mul_le_mul_right _ (Nat.log2_self_le hpos.ne')

/-- Rounding a mantissa of any length is faithful. -/
theorem round_eq (s : Sign) {m : Nat} (e : Int) (hpos : 0 < m) :
    ∃ m' e', Faithful (magnitude m e) m' e' ∧ round Format.binary64 s m e = signed s m' e' := by
  let n := (e - Format.binary64.targetExponent (totalExponent m e)).toNat
  have hbrackets := brackets_exact (m * 2 ^ n) (e - n)
  rw [← magnitude_add, sub_add_cancel] at hbrackets
  have hround : round Format.binary64 s m e =
      roundWithAccuracy Format.binary64 s (m <<< n) (e - n) .exact := rfl
  rw [hround, Nat.shiftLeft_eq]
  exact roundWithAccuracy_eq s (shiftLeft_le_of_targetExponent hpos) hbrackets

end FontTrace
