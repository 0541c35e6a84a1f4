import FontTrace.Geometry.Collinear
import FontTrace.Proofs.Number.Negation

/-!
# FontTrace.Proofs.Number.Sums

Sums of doubles that lose nothing.  Zeros add up to a zero, and equal doubles to a multiple of
them, as long as the multiples need no more than the 53 bits that there are.

* `vanishes_total` — sums of what is zero or not a number;
* `Amounts`, `Amounts.add`, `Amounts.div` — the exact value of a sum and of a quotient that are
  doubles;
* `HasRoom` — a double whose multiples are doubles;
* `amounts_mean`, `level_mean` — the mean of doubles that are all the same one, and have room.
-/

namespace FontTrace

open Float.Model (Format UnpackedFloat)
open Float.Model.UnpackedFloat (Sign)

variable {x y v w : Float}

theorem unpack_add (x y : Float) : (x + y).toModel.unpack =
    (Float.Model.pack (UnpackedFloat.add Format.binary64 x.toModel.unpack
      y.toModel.unpack)).unpack := rfl

theorem unpack_sub (x y : Float) : (x - y).toModel.unpack =
    (Float.Model.pack (UnpackedFloat.sub Format.binary64 x.toModel.unpack
      y.toModel.unpack)).unpack := rfl

theorem isNaN_of_packed {a : UnpackedFloat} (hx : x.toModel.unpack = (Float.Model.pack a).unpack)
    (ha : a = .notANumber) : x.isNaN = true := by
  show x.toModel.unpack.isNaN = true
  rw [hx, ha]
  rfl

theorem unpack_of_isNaN (hx : x.isNaN = true) : x.toModel.unpack = .notANumber := by
  have hparts : x.toModel.unpack.isNaN = true := hx
  cases h : x.toModel.unpack with
  | notANumber => rfl
  | _ => rw [h] at hparts; cases hparts

/-- The parts of a double are found again when they are packed. -/
theorem beq_of_packed (hx : x.toModel.unpack = (Float.Model.pack y.toModel.unpack).unpack)
    (hy : y.isNaN = false) : (x == y) = true := by
  have hsame : (Float.Model.pack y.toModel.unpack).unpack = y.toModel.unpack := by
    cases hy : y.toModel.unpack with
    | notANumber => rfl
    | infinity s => exact unpack_pack_infinity s
    | zero s => exact unpack_pack_zero s
    | finite s m e hpos => exact unpack_pack_of_unpack hy s
  rw [beq_eq_compare, hx, hsame, compare_self hy]
  rfl

/-! ## what is not a number -/

theorem isNaN_mul (hx : x.isNaN = true) (y : Float) : (x * y).isNaN = true := by
  refine isNaN_of_packed (unpack_mul x y) ?_
  rw [unpack_of_isNaN hx]
  rfl

theorem isNaN_add (hx : x.isNaN = true) (y : Float) : (x + y).isNaN = true := by
  refine isNaN_of_packed (unpack_add x y) ?_
  rw [unpack_of_isNaN hx]
  rfl

theorem isNaN_sub (hx : x.isNaN = true) (y : Float) : (x - y).isNaN = true := by
  refine isNaN_of_packed (unpack_sub x y) ?_
  rw [unpack_of_isNaN hx]
  rfl

theorem isNaN_quotient (hx : x.isNaN = true) (y : Float) : (x / y).isNaN = true := by
  refine isNaN_of_packed (unpack_div x y) ?_
  rw [unpack_of_isNaN hx]
  rfl

theorem isNaN_abs (hx : x.isNaN = true) : x.abs.isNaN = true := by
  show x.abs.toModel.unpack.isNaN = true
  rw [unpack_abs, unpack_of_isNaN hx]
  rfl

/-! ## what is zero or not a number -/

theorem vanishes_neg (h : Vanishes v.toModel.unpack) : Vanishes (-v).toModel.unpack := by
  rw [unpack_neg]
  rcases h with h | ⟨s, h⟩
  · exact .inl (by rw [h]; rfl)
  · exact .inr ⟨-s, by rw [h]; rfl⟩

theorem vanishes_abs (h : Vanishes v.toModel.unpack) : Vanishes v.abs.toModel.unpack := by
  rw [unpack_abs]
  rcases h with h | ⟨s, h⟩
  · exact .inl (by rw [h]; rfl)
  · exact .inr ⟨.positive, by rw [h]; rfl⟩

theorem vanishes_float_add (hv : Vanishes v.toModel.unpack) (hw : Vanishes w.toModel.unpack) :
    Vanishes (v + w).toModel.unpack := by
  rw [unpack_add]
  refine vanishes_unpack_pack ?_
  rcases hv with hv | ⟨s, hv⟩
  · rw [hv]
    exact .inl rfl
  · rcases hw with hw | ⟨t, hw⟩
    · rw [hv, hw]
      exact .inl rfl
    · rw [hv, hw]
      cases s <;> cases t <;> exact .inr ⟨_, rfl⟩

theorem vanishes_float_div (hv : Vanishes v.toModel.unpack) (x : Float) :
    Vanishes (v / x).toModel.unpack := by
  rw [unpack_div]
  refine vanishes_unpack_pack ?_
  rcases hv with hv | ⟨s, hv⟩
  · rw [hv]
    exact .inl rfl
  · rw [hv]
    cases x.toModel.unpack with
    | notANumber | zero => exact .inl rfl
    | infinity t | finite t => exact .inr ⟨_, rfl⟩

/-- A zero divided by a zero is not a number. -/
theorem isNaN_div_of_vanishes (hv : Vanishes v.toModel.unpack) (hw : Vanishes w.toModel.unpack) :
    (v / w).isNaN = true := by
  refine isNaN_of_packed (unpack_div v w) ?_
  rcases hv with hv | ⟨s, hv⟩ <;> rw [hv]
  · rfl
  · rcases hw with hw | ⟨t, hw⟩ <;> rw [hw] <;> rfl

theorem not_lt_of_vanishes (hv : Vanishes v.toModel.unpack) (hw : Vanishes w.toModel.unpack) :
    ¬v < w := by
  rw [lt_iff_compare]
  rcases hv with hv | ⟨s, hv⟩ <;> rw [hv]
  · exact nofun
  · rcases hw with hw | ⟨t, hw⟩ <;> rw [hw] <;> exact nofun

/-- What is added to a zero stays the same, but for the sign of a zero. -/
theorem add_of_vanishes (hv : Vanishes v.toModel.unpack) (y : Float) :
    (v + y).isNaN = true ∨ (v + y == y) = true := by
  rcases hv with hv | ⟨s, hv⟩
  · exact .inl (isNaN_of_packed (unpack_add v y) (by rw [hv]; rfl))
  · have hadd := unpack_add v y
    rw [hv] at hadd
    cases hy : y.toModel.unpack with
    | notANumber => exact .inl (isNaN_of_packed hadd (by rw [hy]; rfl))
    | zero t =>
        rw [hy] at hadd
        rw [beq_eq_compare, hadd, hy]
        cases s <;> cases t <;> exact .inr rfl
    | infinity t | finite t m e hpos =>
        have hnumber : y.isNaN = false := congrArg UnpackedFloat.isNaN hy
        refine .inr (beq_of_packed ?_ hnumber)
        rw [hadd, hy]
        rfl

/-- What a zero is taken from stays the same, but for the sign of a zero. -/
theorem sub_of_vanishes (hv : Vanishes v.toModel.unpack) (x : Float) :
    (x - v).isNaN = true ∨ (x - v == x) = true := by
  rcases hv with hv | ⟨s, hv⟩
  · refine .inl (isNaN_of_packed (unpack_sub x v) ?_)
    rw [hv]
    cases x.toModel.unpack <;> rfl
  · have hsub := unpack_sub x v
    rw [hv] at hsub
    cases hx : x.toModel.unpack with
    | notANumber => exact .inl (isNaN_of_packed hsub (by rw [hx]; rfl))
    | zero t =>
        rw [hx] at hsub
        rw [beq_eq_compare, hsub, hx]
        cases s <;> cases t <;> exact .inr rfl
    | infinity t | finite t m e hpos =>
        have hnumber : x.isNaN = false := congrArg UnpackedFloat.isNaN hx
        refine .inr (beq_of_packed ?_ hnumber)
        rw [hsub, hx]
        rfl

/-- Nothing is on one side of a double and not of one that stands for it: one that is equal to it,
or not a number. -/
theorem lt_of_stands_for (h : x.isNaN = true ∨ (x == y) = true) {z : Float} :
    (x < z → y < z) ∧ (z < x → z < y) := by
  rcases h with hnan | hbeq
  · constructor
    · exact fun hlt => absurd hnan (Bool.eq_false_iff.mp (isNaN_eq_false_of_lt hlt).1)
    · exact fun hlt => absurd hnan (Bool.eq_false_iff.mp (isNaN_eq_false_of_lt hlt).2)
  · exact ⟨(lt_iff_of_beq hbeq z).mp, fun hlt => lt_of_lt_of_beq hlt (beq_comm y x ▸ hbeq)⟩

/-- A difference that vanishes still does with a zero added to one side and taken from the other. -/
theorem vanishes_sub_of_vanishes (hv : Vanishes v.toModel.unpack) (hw : Vanishes w.toModel.unpack)
    (hlt : ¬x < y) (hgt : ¬y < x) : Vanishes (v + x - (y - w)).toModel.unpack := by
  have hx {z : Float} := lt_of_stands_for (add_of_vanishes hv x) (z := z)
  have hy {z : Float} := lt_of_stands_for (sub_of_vanishes hw y) (z := z)
  exact vanishes_float_sub (fun h => hlt (hy.2 (hx.1 h))) fun h => hgt (hx.2 (hy.1 h))

theorem vanishes_foldl_add {xs : List Float} {first : Float}
    (hfirst : Vanishes first.toModel.unpack) (h : ∀ x ∈ xs, Vanishes x.toModel.unpack) :
    Vanishes (xs.foldl (· + ·) first).toModel.unpack := by
  induction xs generalizing first with
  | nil => exact hfirst
  | cons x xs ih =>
      exact ih (vanishes_float_add hfirst (h x List.mem_cons_self))
        fun x' hx' => h x' (List.mem_cons_of_mem x hx')

theorem vanishes_total {xs : List Float} (h : ∀ x ∈ xs, Vanishes x.toModel.unpack) :
    Vanishes (total xs).toModel.unpack :=
  vanishes_foldl_add (.inr ⟨.positive, rfl⟩) h

/-! ## sums and quotients that are doubles -/

/-- A finite double that is not a zero, by its sign and its absolute value. -/
def Amounts (x : Float) (s : Sign) (q : ℚ) : Prop :=
  ∃ m e, ∃ hpos : 0 < m, x.toModel.unpack = .finite s m e hpos ∧ magnitude m e = q

/-- An absolute value of a double that is not a zero. -/
def IsAmount (q : ℚ) : Prop :=
  ∃ m e, Canonical m e ∧ 0 < m ∧ e ≤ 971 ∧ magnitude m e = q

section Amounts

variable {s : Sign} {p q : ℚ}

/-- A double is known by its sign and its absolute value. -/
theorem Amounts.unpack_eq (hx : Amounts x s q) (hy : Amounts y s q) :
    x.toModel.unpack = y.toModel.unpack := by
  obtain ⟨m, e, hm, hx, hvalue⟩ := hx
  obtain ⟨m', e', hm', hy, hvalue'⟩ := hy
  obtain ⟨rfl, rfl⟩ := (canonical_of_unpack hx).1.eq_of_magnitude (canonical_of_unpack hy).1
    (hvalue.trans hvalue'.symm)
  rw [hx, hy]

theorem amounts_of_pack {m : Nat} {e : Int} (hq : IsAmount q) (h : Faithful q m e)
    (hx : x.toModel.unpack = (Float.Model.pack (signed s m e)).unpack) : Amounts x s q := by
  obtain ⟨m', e', hc, hm, he, rfl⟩ := hq
  obtain ⟨rfl, rfl⟩ := h.eq_of_canonical hc
  rw [unpack_pack_signed _ hc, if_neg (by omega), signed_of_pos s _ hm] at hx
  exact ⟨m, e, hm, hx, rfl⟩

theorem magnitude_decreased {m : Nat} {e t : Int} (h : t ≤ e) :
    magnitude (m * 2 ^ (e - t).toNat) t = magnitude m e := by
  rw [← magnitude_add]
  congr 1
  omega

/-- Numbers with the same sign are added by their mantissas, brought to the lower exponent. -/
theorem add_same_sign {m m' : Nat} (e e' : Int) (hm : 0 < m) (hm' : 0 < m') :
    UnpackedFloat.add Format.binary64 (.finite s m e hm) (.finite s m' e' hm') =
      UnpackedFloat.round Format.binary64 s
        (m * 2 ^ (e - min e e').toNat + m' * 2 ^ (e' - min e e').toNat) (min e e') := by
  have hadd : UnpackedFloat.add Format.binary64 (.finite s m e hm) (.finite s m' e' hm') =
      UnpackedFloat.normalize Format.binary64
        (s.apply (m <<< (e - min e e').toNat : Nat) + s.apply (m' <<< (e' - min e e').toNat : Nat))
        (min e e') .positive := rfl
  rw [hadd, Nat.shiftLeft_eq, Nat.shiftLeft_eq]
  have hp : 0 < m * 2 ^ (e - min e e').toNat := Nat.mul_pos hm (Nat.two_pow_pos _)
  generalize m * 2 ^ (e - min e e').toNat = p at hp ⊢
  generalize m' * 2 ^ (e' - min e e').toNat = q
  rw [UnpackedFloat.normalize]
  cases s with
  | negative =>
      have hlt : compare (-(p : Int) + -(q : Int)) 0 = .lt := compare_lt_iff_lt.mpr (by omega)
      have hnat : (-(-(p : Int) + -(q : Int))).toNat = p + q := by omega
      simp only [Sign.apply, hlt, hnat]
  | positive =>
      have hgt : compare ((p : Int) + (q : Int)) 0 = .gt := compare_gt_iff_gt.mpr (by omega)
      have hnat : ((p : Int) + (q : Int)).toNat = p + q := by omega
      simp only [Sign.apply, hgt, hnat]

/-- A sum of numbers with the same sign is exact if it is a double. -/
theorem Amounts.add (hx : Amounts x s p) (hy : Amounts y s q) (hsum : IsAmount (p + q)) :
    Amounts (x + y) s (p + q) := by
  obtain ⟨m, e, hm, hx, rfl⟩ := hx
  obtain ⟨m', e', hm', hy, rfl⟩ := hy
  have hvalue : magnitude (m * 2 ^ (e - min e e').toNat + m' * 2 ^ (e' - min e e').toNat)
      (min e e') = magnitude m e + magnitude m' e' := by
    rw [← magnitude_decreased (min_le_left e e'), ← magnitude_decreased (min_le_right e e')]
    simp only [magnitude]
    push_cast
    ring
  have hpos : 0 < m * 2 ^ (e - min e e').toNat + m' * 2 ^ (e' - min e e').toNat :=
    Nat.add_pos_left (Nat.mul_pos hm (Nat.two_pow_pos _)) _
  obtain ⟨m'', e'', hfaithful, hround⟩ := round_eq s (min e e') hpos
  rw [hvalue] at hfaithful
  refine amounts_of_pack hsum hfaithful ?_
  rw [unpack_add, hx, hy, add_same_sign, hround]

/-- A quotient by a positive number is exact if it is a double. -/
theorem Amounts.div (hx : Amounts x s p) (hy : IsPositive y)
    (hquotient : IsAmount (p / exactValue y)) : Amounts (x / y) s (p / exactValue y) := by
  obtain ⟨m, e, hm, hx, rfl⟩ := hx
  obtain ⟨m', e', hm', hy, -, -, hvalue⟩ := hy.exists_parts
  obtain ⟨m'', e'', hfaithful, hdiv⟩ := div_eq s .positive e e' hm hm'
  rw [← hvalue] at hfaithful
  refine amounts_of_pack hquotient hfaithful ?_
  rw [unpack_div, hx, hy, hdiv, div_positive]

end Amounts

/-! ## equal doubles -/

/-- A finite double whose multiples, as far as a count goes, need no more bits than there are. -/
def HasRoom (count : Nat) (x : Float) : Prop :=
  x.isFinite = true ∧
    ∃ k e, |exactValue x| = magnitude k e ∧ count * k ≤ 2 ^ 53 ∧ -1074 ≤ e ∧ e ≤ 970

/-- Whole numbers have room as far as their multiples do. -/
theorem hasRoom_ofNat {count n : Nat} (hcount : 0 < count) (hpos : 0 < n)
    (h : count * n ≤ 2 ^ 53) : HasRoom count (Float.ofNat n) := by
  obtain ⟨hnumber, hvalue⟩ := exactValue_ofNat hpos ((Nat.le_mul_of_pos_left n hcount).trans h)
  refine ⟨hnumber.2, n, 0, ?_, h, by omega, by omega⟩
  rw [hvalue, Nat.abs_cast, magnitude, zpow_zero, mul_one]

theorem isAmount_magnitude {k : Nat} {e : Int} (hpos : 0 < k) (hk : k ≤ 2 ^ 53) (hmin : -1074 ≤ e)
    (hmax : e ≤ 970) : IsAmount (magnitude k e) := by
  rcases hk.lt_or_eq with hlt | rfl
  · -- as many bits as there are, or as the smallest exponent leaves
    obtain ⟨j, hj⟩ : ∃ j : Nat, j = min (52 - k.log2) (e + 1074).toNat := ⟨_, rfl⟩
    have hlog : k.log2 ≤ 52 := by
      have := (Nat.log2_lt hpos.ne').mpr hlt
      omega
    have hcarried : 0 < k * 2 ^ j := Nat.mul_pos hpos (Nat.two_pow_pos j)
    refine ⟨k * 2 ^ j, e - j, ⟨?_, by omega, ?_⟩, hcarried, by omega, ?_⟩
    · calc k * 2 ^ j < 2 ^ (k.log2 + 1) * 2 ^ j :=
            Nat.mul_lt_mul_of_pos_right Nat.lt_log2_self (Nat.two_pow_pos j)
        _ = 2 ^ (k.log2 + 1 + j) := (pow_add 2 _ _).symm
        _ ≤ 2 ^ 53 := Nat.pow_le_pow_right (by omega) (by omega)
    · refine or_iff_not_imp_right.mpr fun he => ?_
      have hbits : k.log2 + j = 52 := by omega
      calc 2 ^ 52 = 2 ^ k.log2 * 2 ^ j := by rw [← pow_add, hbits]
        _ ≤ k * 2 ^ j := Nat.mul_le_mul_right _ (Nat.log2_self_le hpos.ne')
    · rw [← magnitude_add, sub_add_cancel]
  · refine ⟨2 ^ 52, e + 1, ⟨by norm_num, by omega, .inl le_rfl⟩, by norm_num, by omega, ?_⟩
    exact magnitude_add (2 ^ 52) e 1

section Equal

variable {s : Sign} {k : Nat} {e : Int} {c : Float}

theorem cast_mul_magnitude (n k : Nat) (e : Int) : n * magnitude k e = magnitude (n * k) e := by
  rw [magnitude, magnitude]
  push_cast
  ring

/-- The sum of equal numbers, as far as they have room. -/
theorem amounts_foldl_add (hc : Amounts c s (magnitude k e)) (hk : 0 < k) (hmin : -1074 ≤ e)
    (hmax : e ≤ 970) {xs : List Float} (hxs : ∀ x ∈ xs, x = c) {n : Nat} {first : Float}
    (hfirst : Amounts first s (n * magnitude k e)) (hroom : (n + xs.length) * k ≤ 2 ^ 53) :
    Amounts (xs.foldl (· + ·) first) s ((n + xs.length : Nat) * magnitude k e) := by
  induction xs generalizing n first with
  | nil => exact hfirst
  | cons x xs ih =>
      obtain rfl := hxs x List.mem_cons_self
      have hlength : n + (x :: xs).length = n + 1 + xs.length := by
        rw [List.length_cons]
        omega
      rw [hlength] at hroom ⊢
      have hnext : (n * magnitude k e + magnitude k e : ℚ) = (n + 1 : Nat) * magnitude k e := by
        push_cast
        ring
      have hsmall : (n + 1) * k ≤ 2 ^ 53 :=
        (Nat.mul_le_mul_right k (Nat.le_add_right (n + 1) xs.length)).trans hroom
      refine ih (fun x' hx' => hxs x' (List.mem_cons_of_mem x hx')) ?_ hroom
      rw [← hnext]
      refine hfirst.add hc ?_
      rw [hnext, cast_mul_magnitude]
      exact isAmount_magnitude (Nat.mul_pos (Nat.succ_pos n) hk) hsmall hmin hmax

theorem amounts_total (hc : Amounts c s (magnitude k e)) (hk : 0 < k) (hmin : -1074 ≤ e)
    (hmax : e ≤ 970) {xs : List Float} (hne : xs ≠ []) (hxs : ∀ x ∈ xs, x = c)
    (hroom : xs.length * k ≤ 2 ^ 53) :
    Amounts (total xs) s (xs.length * magnitude k e) := by
  cases xs with
  | nil => exact absurd rfl hne
  | cons x xs =>
      obtain rfl := hxs x List.mem_cons_self
      -- the sum starts with a zero, behind which the first double is the same
      have hfirst : Amounts (0 + x) s ((1 : Nat) * magnitude k e) := by
        obtain ⟨m, e', hm, hx, hvalue⟩ := hc
        refine ⟨m, e', hm, ?_, by rw [hvalue, Nat.cast_one, one_mul]⟩
        have hsame : UnpackedFloat.add Format.binary64 (.zero .positive) (.finite s m e' hm) =
            .finite s m e' hm := rfl
        rw [unpack_add, unpack_zero, hx, hsame, unpack_pack_of_unpack hx s]
      have hlength : (x :: xs).length = 1 + xs.length := Nat.add_comm _ _
      rw [hlength] at hroom ⊢
      exact amounts_foldl_add hc hk hmin hmax (fun x' hx' => hxs x' (List.mem_cons_of_mem x hx'))
        hfirst hroom

theorem amounts_of_unpack {m : Nat} {e' : Int} {hm : 0 < m}
    (hc : c.toModel.unpack = .finite s m e' hm) : Amounts c s |exactValue c| := by
  refine ⟨m, e', hm, hc, ?_⟩
  have hpos : 0 < magnitude m e' := magnitude_pos_iff.mpr hm
  have hvalue : exactValue c = (if isNegative s then -1 else 1) * magnitude m e' := by
    rw [exactValue, ofFloat?_eq, hc]
    show (if isNegative s then -1 else 1) * (m : ℚ) * 2 ^ e' = _
    rw [magnitude, mul_assoc]
  rw [hvalue]
  cases s with
  | negative => simp [isNegative, abs_of_pos hpos]
  | positive => simp [isNegative, abs_of_pos hpos]

/-- The mean of equal numbers is the same number, as far as they have room. -/
theorem amounts_mean (hc : Amounts c s (magnitude k e)) (hk : 0 < k) (hmin : -1074 ≤ e)
    (hmax : e ≤ 970) {xs : List Float} (hne : xs ≠ []) (hxs : ∀ x ∈ xs, x = c)
    (hroom : xs.length * k ≤ 2 ^ 53) :
    Amounts (total xs / Float.ofNat xs.length) s (magnitude k e) := by
  have hlength : 0 < xs.length := List.length_pos_of_ne_nil hne
  have hsmall : k ≤ 2 ^ 53 := (Nat.le_mul_of_pos_left k hlength).trans hroom
  obtain ⟨hcount, hcast⟩ := exactValue_ofNat hlength ((Nat.le_mul_of_pos_right _ hk).trans hroom)
  have hquotient : xs.length * magnitude k e / exactValue (Float.ofNat xs.length) =
      magnitude k e := by
    rw [hcast]
    exact mul_div_cancel_left₀ _ (Nat.cast_ne_zero.mpr hlength.ne')
  have hmean := (amounts_total hc hk hmin hmax hne hxs hroom).div hcount (by
    rw [hquotient]
    exact isAmount_magnitude hk hsmall hmin hmax)
  rwa [hquotient] at hmean

/-- The mean of equal doubles that have room is neither below them nor above them. -/
theorem level_mean {xs : List Float} (hxs : ∀ x ∈ xs, x = c) (hroom : HasRoom xs.length c) :
    ¬c < total xs / Float.ofNat xs.length ∧ ¬total xs / Float.ofNat xs.length < c := by
  obtain ⟨hfinite, k, e, hvalue, hbits, hmin, hmax⟩ := hroom
  have hfinite : c.toModel.unpack.isFinite = true := hfinite
  rcases eq_or_ne xs [] with rfl | hne
  · -- a zero divided by a zero
    have hnan : (total [] / Float.ofNat ([] : List Float).length).isNaN = true := by
      decide +kernel
    constructor
    · exact fun h => absurd (isNaN_eq_false_of_lt h).2 (by rw [hnan]; decide)
    · exact fun h => absurd (isNaN_eq_false_of_lt h).1 (by rw [hnan]; decide)
  · cases hc : c.toModel.unpack with
    | notANumber | infinity => rw [hc] at hfinite; cases hfinite
    | zero s =>
        have hzero : Vanishes c.toModel.unpack := .inr ⟨s, hc⟩
        have hmean := vanishes_float_div (vanishes_total fun x hx => hxs x hx ▸ hzero)
          (Float.ofNat xs.length)
        exact ⟨not_lt_of_vanishes hzero hmean, not_lt_of_vanishes hmean hzero⟩
    | finite s m e' hm =>
        have hamount := amounts_of_unpack hc
        have hk : 0 < k := by
          obtain ⟨m, e', hm, -, habs⟩ := hamount
          rw [← magnitude_pos_iff (e := e), ← hvalue, ← habs]
          exact magnitude_pos_iff.mpr hm
        rw [hvalue] at hamount
        have hsame := (amounts_mean hamount hk hmin hmax hne hxs hbits).unpack_eq hamount
        have hself : ¬c < c := lt_irrefl c
        rw [lt_iff_compare] at hself
        rw [lt_iff_compare, lt_iff_compare, hsame]
        exact ⟨hself, hself⟩

end Equal

end FontTrace
