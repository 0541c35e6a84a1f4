import FontTrace.Proofs.Number.Canonical

/-!
# FontTrace.Proofs.Number.Ranking

Doubles in a row.  Every double that is a number has a place among all of them, counted from
zero, and two of them are in the order of their places.  So less-than is transitive, and the
total order, which is read off the bits, does not contradict it.

* `place` — how many doubles stand between zero and a double;
* `compare_eq_compare_place` — doubles are in the order of their places;
* `lt_of_lt_of_not_lt`, `le_of_not_lt_of_le` — chains of doubles in order;
* `totalKey_injective` — the total order tells all doubles apart;
* `totalKey_lt_of_lt` — and puts the smaller double first.
-/

namespace FontTrace

open Float.Model (Format UnpackedFloat)
open Float.Model.UnpackedFloat (Sign unpackExponent unpackMantissa unpackSign)

/-! ## places -/

/-- The place of the positive number with a mantissa and an exponent. -/
def rank (m : Nat) (e : Int) : Int := (e + 1074) * 2 ^ 52 + m

section Rank

variable {m m' : Nat} {e e' : Int}

theorem Canonical.rank_lt_of_exponent (h : Canonical m e) (h' : Canonical m' e') (he : e < e') :
    rank m e < rank m' e' := by
  have hm : 2 ^ 52 ≤ m' := h'.full.resolve_right (by have := h.le; omega)
  have := h.lt
  unfold rank
  omega

/-- Canonical parts are in the order of their places. -/
theorem Canonical.compare_rank (h : Canonical m e) (h' : Canonical m' e') :
    compare (rank m e) (rank m' e') = (compare e e').then (compare m m') := by
  rcases lt_trichotomy e e' with he | rfl | he
  · rw [compare_lt_iff_lt.mpr (h.rank_lt_of_exponent h' he), compare_lt_iff_lt.mpr he]
    rfl
  · have hmono : StrictMono (rank · e) := fun a b hab => by
      show (e + 1074) * 2 ^ 52 + (a : Int) < (e + 1074) * 2 ^ 52 + b
      omega
    have hcompare := hmono.cmp_map_eq m m'
    rw [cmp_eq_compare, cmp_eq_compare] at hcompare
    rw [hcompare, compare_eq_iff_eq.mpr rfl, Ordering.eq_then]
  · rw [compare_gt_iff_gt.mpr (h'.rank_lt_of_exponent h he), compare_gt_iff_gt.mpr he]
    rfl

theorem Canonical.rank_pos (h : Canonical m e) (hpos : 0 < m) : 0 < rank m e := by
  have := h.le
  unfold rank
  omega

end Rank

/-- The place of an infinity is next to that of the largest number. -/
def rankOfInfinity : Int := rank (2 ^ 52) 972

/-- How many doubles stand between zero and a double; before zero, minus that. -/
def place : UnpackedFloat → Int
  | .notANumber | .zero _ => 0
  | .finite s m e _ => s.apply (rank m e)
  | .infinity s => s.apply rankOfInfinity

/-- What the parts of a double are like. -/
def Placed (u : UnpackedFloat) : Prop :=
  ∀ s m e hpos, u = .finite s m e hpos → Canonical m e ∧ e ≤ 971

theorem placed_unpack (x : Float) : Placed x.toModel.unpack :=
  fun _ _ _ _ h => canonical_of_unpack h

theorem Placed.rank_lt {s : Sign} {m : Nat} {e : Int} {hpos : 0 < m}
    (h : Placed (.finite s m e hpos)) : 0 < rank m e ∧ rank m e < rankOfInfinity := by
  obtain ⟨hcanonical, hle⟩ := h s m e hpos rfl
  refine ⟨hcanonical.rank_pos hpos, ?_⟩
  have := hcanonical.lt
  unfold rankOfInfinity rank
  omega

theorem rankOfInfinity_pos : 0 < rankOfInfinity := by decide

theorem compare_neg (i j : Int) : compare (-i) (-j) = (compare i j).swap := by
  rcases lt_trichotomy i j with h | rfl | h
  · rw [compare_lt_iff_lt.mpr h, compare_gt_iff_gt.mpr (neg_lt_neg h)]
    rfl
  · rw [compare_eq_iff_eq.mpr rfl, compare_eq_iff_eq.mpr rfl]
    rfl
  · rw [compare_gt_iff_gt.mpr h, compare_lt_iff_lt.mpr (neg_lt_neg h)]
    rfl

/-- Doubles are in the order of their places. -/
theorem compare_eq_compare_place {a b : UnpackedFloat} (ha : Placed a) (hb : Placed b)
    (hnumber : a.isNaN = false) (hnumber' : b.isNaN = false) :
    a.compare b = some (compare (place a) (place b)) := by
  have hlt {i j : Int} (h : i < j) : some .lt = some (compare i j) :=
    congrArg some (compare_lt_iff_lt.mpr h).symm
  have hgt {i j : Int} (h : j < i) : some .gt = some (compare i j) :=
    congrArg some (compare_gt_iff_gt.mpr h).symm
  have hinfinity := rankOfInfinity_pos
  cases a with
  | notANumber => cases hnumber
  | infinity s =>
      cases b with
      | notANumber => cases hnumber'
      | infinity t => cases s <;> cases t <;> decide
      | zero t =>
          cases s
          · exact hlt (by simp only [place, Sign.apply]; omega)
          · exact hgt (by simp only [place, Sign.apply]; omega)
      | finite t m e hpos =>
          obtain ⟨hrank, hrank'⟩ := hb.rank_lt
          cases s
          · exact hlt (by cases t <;> simp only [place, Sign.apply] <;> omega)
          · exact hgt (by cases t <;> simp only [place, Sign.apply] <;> omega)
  | zero s =>
      cases b with
      | notANumber => cases hnumber'
      | infinity t =>
          cases t
          · exact hgt (by simp only [place, Sign.apply]; omega)
          · exact hlt (by simp only [place, Sign.apply]; omega)
      | zero t => rfl
      | finite t m e hpos =>
          obtain ⟨hrank, -⟩ := hb.rank_lt
          cases t
          · exact hgt (by simp only [place, Sign.apply]; omega)
          · exact hlt (by simp only [place, Sign.apply]; omega)
  | finite s m e hpos =>
      obtain ⟨hrank, hrank'⟩ := ha.rank_lt
      cases b with
      | notANumber => cases hnumber'
      | infinity t =>
          cases t
          · exact hgt (by cases s <;> simp only [place, Sign.apply] <;> omega)
          · exact hlt (by cases s <;> simp only [place, Sign.apply] <;> omega)
      | zero t =>
          cases s
          · exact hlt (by simp only [place, Sign.apply]; omega)
          · exact hgt (by simp only [place, Sign.apply]; omega)
      | finite t m' e' hpos' =>
          obtain ⟨hother, -⟩ := hb.rank_lt
          have hcompare := (ha s m e hpos rfl).1.compare_rank (hb t m' e' hpos' rfl).1
          cases s <;> cases t
          · have hswap := (compare_neg (rank m e) (rank m' e')).trans (congrArg _ hcompare)
            exact congrArg some hswap.symm
          · exact hlt (by simp only [place, Sign.apply]; omega)
          · exact hgt (by simp only [place, Sign.apply]; omega)
          · exact congrArg some hcompare.symm

/-! ## less-than -/

variable {x y z : Float}

theorem lt_iff_place (hx : x.isNaN = false) (hy : y.isNaN = false) :
    x < y ↔ place x.toModel.unpack < place y.toModel.unpack := by
  rw [lt_iff_compare, compare_eq_compare_place (placed_unpack x) (placed_unpack y) hx hy,
    Option.some_inj, compare_lt_iff_lt]

theorem lt_of_lt_of_not_lt (hz : z.isNaN = false) (h : x < y) (h' : ¬z < y) : x < z := by
  obtain ⟨hx, hy⟩ := isNaN_eq_false_of_lt h
  rw [lt_iff_place hx hy] at h
  rw [lt_iff_place hz hy] at h'
  rw [lt_iff_place hx hz]
  omega

theorem le_of_not_lt_of_le (hx : x.isNaN = false) (h : ¬y < x) (h' : y ≤ z) : x ≤ z := by
  obtain ⟨hy, hz, hnot⟩ := le_iff.mp h'
  exact le_iff.mpr ⟨hx, hz, fun hlt => hnot (lt_of_lt_of_not_lt hy hlt h)⟩

/-! ## the total order -/

/-- The bits of a double without the sign are its place. -/
theorem place_unpack (b : BitVec 64) (h : (UnpackedFloat.unpack Format.binary64 b).isNaN = false) :
    place (UnpackedFloat.unpack Format.binary64 b) =
      (Sign.ofBitVec (@unpackSign Format.binary64 b)).apply (b.toNat % 2 ^ 63 : Nat) := by
  have hexponent := toNat_unpackExponent b
  have hmantissa := toNat_unpackMantissa b
  unfold UnpackedFloat.unpack at h ⊢
  dsimp only at h ⊢
  by_cases hmax : @unpackExponent Format.binary64 b = -1#11
  · rw [if_pos hmax] at h ⊢
    by_cases hzero : @unpackMantissa Format.binary64 b = 0#52
    · have hbits : rankOfInfinity = (b.toNat % 2 ^ 63 : Nat) := by
        rw [hmax] at hexponent
        rw [hzero] at hmantissa
        have hrank : rankOfInfinity = 2047 * 2 ^ 52 := by decide
        simp at hexponent hmantissa
        omega
      rw [if_pos hzero, ← hbits]
      rfl
    · rw [if_neg hzero] at h
      cases h
  · rw [if_neg hmax]
    by_cases hzero : @unpackExponent Format.binary64 b = 0#11
    · rw [if_pos hzero]
      rw [hzero] at hexponent
      by_cases hnone : @unpackMantissa Format.binary64 b = 0#52
      · have hbits : (0 : Int) = (b.toNat % 2 ^ 63 : Nat) := by
          rw [hnone] at hmantissa
          simp at hexponent hmantissa
          omega
        rw [dif_pos hnone, ← hbits]
        cases Sign.ofBitVec (@unpackSign Format.binary64 b) <;> rfl
      · have hbits : rank (@unpackMantissa Format.binary64 b).toNat (-1074) =
            (b.toNat % 2 ^ 63 : Nat) := by
          unfold rank
          simp at hexponent
          omega
        rw [dif_neg hnone, ← hbits, hzero]
        rfl
    · have hbits : rank ((@unpackMantissa Format.binary64 b).toNat + 2 ^ 52)
          ((@unpackExponent Format.binary64 b).toNat - 1075) = (b.toNat % 2 ^ 63 : Nat) := by
        unfold rank
        omega
      rw [if_neg hzero, ← hbits, ← toNat_implicit_append]
      rfl

/-- Where the total order puts a number: the negative ones stand one lower. -/
theorem totalKey_eq_place (h : x.isNaN = false) :
    totalKey x = place x.toModel.unpack ∧ 0 ≤ place x.toModel.unpack ∨
      totalKey x = place x.toModel.unpack - 1 ∧ place x.toModel.unpack ≤ 0 := by
  let b : BitVec 64 := x.toModel.toBits.toBitVec
  have hkey : totalKey x =
      if b.toNat < 2 ^ 63 then (b.toNat : Int) else -1 - ((b.toNat - 2 ^ 63 : Nat) : Int) := rfl
  have hlt : b.toNat < 2 ^ 64 := b.isLt
  have hsign := toNat_unpackSign b
  have hplace : place x.toModel.unpack = _ := place_unpack b h
  rcases Nat.lt_or_ge b.toNat (2 ^ 63) with hpositive | hnegative
  · have hs : @unpackSign Format.binary64 b = 0#1 := BitVec.eq_of_toNat_eq (by simp; omega)
    have hplace : place x.toModel.unpack = (b.toNat % 2 ^ 63 : Nat) := by rw [hplace, hs]; rfl
    rw [hkey, if_pos hpositive, hplace]
    omega
  · have hs : @unpackSign Format.binary64 b = 1#1 := BitVec.eq_of_toNat_eq (by simp; omega)
    have hplace : place x.toModel.unpack = -(b.toNat % 2 ^ 63 : Nat) := by rw [hplace, hs]; rfl
    rw [hkey, if_neg (Nat.not_lt.mpr hnegative), hplace]
    omega

/-- The total order puts the smaller double first. -/
theorem totalKey_lt_of_lt (h : x < y) : totalKey x < totalKey y := by
  obtain ⟨hx, hy⟩ := isNaN_eq_false_of_lt h
  have hplace := (lt_iff_place hx hy).mp h
  rcases totalKey_eq_place hx with ⟨hkey, hsign⟩ | ⟨hkey, hsign⟩ <;>
    rcases totalKey_eq_place hy with ⟨hkey', hsign'⟩ | ⟨hkey', hsign'⟩ <;> omega

theorem totalKey_injective : Function.Injective totalKey := by
  intro x y h
  have hbits : x.toBits = y.toBits := by
    rw [← UInt64.toNat_inj]
    have hx := x.toBits.toNat_lt
    have hy := y.toBits.toNat_lt
    simp only [totalKey, Nat.pow_eq] at h
    split at h <;> split at h <;> omega
  obtain ⟨⟨b, hb⟩⟩ := x
  obtain ⟨⟨b', hb'⟩⟩ := y
  obtain rfl : b = b' := hbits
  rfl

end FontTrace
