import FontTrace.Extents
import FontTrace.Proofs.Number.Quotient

/-!
# FontTrace.Proofs.Extents.Resolution

How many times smaller than asked for a font is built.  A resolution beyond what the compiler
can compute with is reduced twice, and the reported factor is that of the second time only.

* `IsFirstPart` — what a search for a divisor finds;
* `lt_div_of_gt` — a resolution beyond the higher limit is beyond the lower one even if it is
  divided by the factor that is reported;
* `plan_scaled_iff` — the resolution is the one that is asked for, divided by the factor, if and
  only if that one is not beyond the higher limit.
-/

namespace FontTrace

namespace Resolution

/-! ## the search for a divisor -/

/-- A part of a number; the whole of it is the number itself. -/
def part (x : Float) (k : Nat) : Float := if k = 1 then x else x / Float.ofNat k

/-- The largest part that does not exceed a limit. -/
structure IsFirstPart (limit x q : Float) (n : Nat) : Prop where
  pos : 0 < n
  le : n ≤ 2 ^ 53
  eq : q = part x n
  not_gt : ¬limit < q
  before : ∀ j, 0 < j → j < n → limit < part x j

section Search

variable {limit x q : Float} {k n : Nat}

theorem reducedFrom?_eq_some {fuel : Nat} (hk : 0 < k)
    (h : reducedFrom? limit x fuel (part x k) k = some (q, n)) :
    k ≤ n ∧ n < k + fuel ∧ q = part x n ∧ ¬limit < q ∧ ∀ j, k ≤ j → j < n → limit < part x j := by
  induction fuel generalizing k with
  | zero => cases h
  | succ fuel ih =>
      rw [reducedFrom?] at h
      split at h
      · next hgt =>
        have hnext : x / Float.ofNat (k + 1) = part x (k + 1) := by rw [part, if_neg (by omega)]
        rw [hnext] at h
        obtain ⟨hle, hlt, heq, hstop, hbefore⟩ := ih (Nat.succ_pos k) h
        refine ⟨by omega, by omega, heq, hstop, fun j hj hjn => ?_⟩
        rcases hj.lt_or_eq with hj | rfl
        · exact hbefore j hj hjn
        · exact hgt
      · next hstop =>
        cases h
        exact ⟨le_rfl, by omega, rfl, hstop, fun j hj hjn => by omega⟩

theorem isFirstPart_of_reduced? (h : reduced? limit x = some (q, n)) :
    IsFirstPart limit x q n := by
  obtain ⟨hpos, hlt, heq, hstop, hbefore⟩ := reducedFrom?_eq_some Nat.one_pos h
  have hmost : n < 1 + 2 ^ 53 := hlt
  exact ⟨hpos, by omega, heq, hstop, hbefore⟩

/-- Parts of a number are numbers, and quotients. -/
theorem part_beq (hx : x.isNaN = false) (hpos : 0 < n) (hn : n ≤ 2 ^ 53) :
    (part x n).isNaN = false ∧ (part x n == x / Float.ofNat n) = true := by
  have hquotient := isNaN_div hx (exactValue_ofNat hpos hn).1
  unfold part
  split
  · next hone =>
    subst hone
    exact ⟨hx, (beq_comm _ _).trans (div_one_beq hx)⟩
  · exact ⟨hquotient, beq_self hquotient⟩

/-- A number that does not exceed the limit is not reduced. -/
theorem IsFirstPart.eq_of_not_gt (h : IsFirstPart limit x q n) (hx : ¬limit < x) : q = x := by
  rw [h.eq, part, if_pos]
  have hpos := h.pos
  exact Decidable.byContradiction fun hne => hx (h.before 1 Nat.one_pos (by omega))

theorem IsFirstPart.one_lt (h : IsFirstPart limit x q n) (hx : limit < x) : 1 < n := by
  have hpos := h.pos
  refine Decidable.byContradiction fun hn => h.not_gt ?_
  rwa [h.eq, part, if_pos (by omega)]

theorem IsFirstPart.isNaN_eq (h : IsFirstPart limit x q n) : q.isNaN = x.isNaN := by
  cases hx : x.isNaN with
  | false => rw [h.eq, (part_beq hx h.pos h.le).1]
  | true =>
      have hnot : ¬limit < x := fun hlt => by
        rw [(isNaN_eq_false_of_lt hlt).2] at hx
        cases hx
      rw [h.eq_of_not_gt hnot, hx]

end Search

/-! ## the range that is reduced twice -/

theorem isPositive_limits : IsPositive mostComputed ∧ IsPositive mostAccepted := by
  decide +kernel

/-- A positive double with a part that exceeds another one is larger than that many times the
other one. -/
theorem lt_of_lt_part {v x : Float} (hv : IsPositive v) (hx : IsPositive x) {n : Nat} (hn : 1 < n)
    (hmost : n ≤ 2 ^ 53) (h : v < part x n) : exactValue v * n < exactValue x := by
  obtain ⟨hcount, hvalue⟩ := exactValue_ofNat (Nat.zero_lt_of_lt hn) hmost
  rw [part, if_neg (by omega)] at h
  rw [← hvalue]
  exact not_le.mp fun hle => not_lt_div hx hcount hv hle h

/-- An infinite resolution has no part within the limit. -/
theorem IsFirstPart.isPositive {limit x q : Float} {n : Nat} (h : IsFirstPart limit x q n)
    (hlimit : IsPositive limit) (hx : limit < x) : IsPositive x := by
  refine (hlimit.cases_of_lt hx).resolve_left fun hinfinite => h.not_gt ?_
  rw [h.eq, part]
  split
  · exact hx
  · exact lt_of_infinity (unpack_infinity_div hinfinite (exactValue_ofNat h.pos h.le).1) hlimit

/-- A part of what does not exceed the higher limit is within the lower one at the ninth. -/
theorem IsFirstPart.le_nine {q p : Float} {f : Nat} (h : IsFirstPart mostAccepted q p f)
    (hq : IsPositive q) (hle : ¬mostComputed < q) : f ≤ 9 := by
  obtain ⟨hcomputed, haccepted⟩ := isPositive_limits
  rw [hcomputed.lt_iff hq, not_lt] at hle
  have hninth : exactValue mostComputed ≤ exactValue mostAccepted * (9 : Nat) := by decide +kernel
  refine Nat.not_lt.mp fun hf => ?_
  have hlt := lt_of_lt_part haccepted hq (by omega) (by omega) (h.before 9 (by omega) hf)
  exact absurd (hle.trans hninth) hlt.not_ge

/-- If what is left needs the ninth, all of it is far beyond the higher limit. -/
theorem lt_of_ninth {t q p : Float} {k f : Nat} (hfirst : IsFirstPart mostComputed t q k)
    (hsecond : IsFirstPart mostAccepted q p f) (ht : IsPositive t) (hq : IsPositive q)
    (hk : 1 < k) (hf : 8 < f) : exactValue mostAccepted * 16 < exactValue t := by
  obtain ⟨hcomputed, haccepted⟩ := isPositive_limits
  have heighth := lt_of_lt_part haccepted hq (by omega) (by omega)
    (hsecond.before 8 (by omega) hf)
  rcases Nat.lt_or_ge 2 k with hk | hk
  · have htwice := lt_of_lt_part hcomputed ht (by omega) (by omega)
      (hfirst.before 2 (by omega) hk)
    have hlimits : exactValue mostAccepted * 16 ≤ exactValue mostComputed * (2 : Nat) := by
      decide +kernel
    exact hlimits.trans_lt htwice
  · obtain rfl : k = 2 := by omega
    -- Eight times the lower limit is a double, below the higher limit.
    have hpositive : IsPositive 32767.99984 := by decide +kernel
    have hvalue : exactValue 32767.99984 = exactValue mostAccepted * (8 : Nat) := by
      decide +kernel
    have hlt : (32767.99984 : Float) < part t 2 := by
      rw [← hfirst.eq, hpositive.lt_iff hq, hvalue]
      exact heighth
    have htwice := lt_of_lt_part hpositive ht (by omega) (by omega) hlt
    rw [hvalue] at htwice
    push_cast at htwice
    linarith

/-- A resolution beyond the higher limit is beyond the lower one even if it is divided by the
factor for what is left of it. -/
theorem lt_div_of_gt {t q p : Float} {k f : Nat} (hfirst : IsFirstPart mostComputed t q k)
    (hsecond : IsFirstPart mostAccepted q p f) (ht : mostComputed < t) :
    mostAccepted < t / Float.ofNat f := by
  obtain ⟨hcomputed, haccepted⟩ := isPositive_limits
  have hpos := hfirst.isPositive hcomputed ht
  obtain ⟨hcount, hvalue⟩ := exactValue_ofNat hsecond.pos hsecond.le
  rcases Nat.lt_or_ge 8 f with hf | hf
  · have hq : IsPositive q :=
      (haccepted.cases_of_lt (hsecond.before 1 Nat.one_pos (by omega))).resolve_left fun h =>
        hfirst.not_gt (lt_of_infinity h hcomputed)
    have hninth := lt_of_ninth hfirst hsecond hpos hq (hfirst.one_lt ht) hf
    obtain rfl : f = 9 := le_antisymm (hsecond.le_nine hq hfirst.not_gt) hf
    have hbeyond : exactValue 4096 * (9 : Nat) ≤ exactValue mostAccepted * 16 := by
      decide +kernel
    refine lt_div hpos hcount (by decide +kernel : IsPositive 4096) haccepted (by decide +kernel) ?_
    rw [hvalue]
    exact hbeyond.trans hninth.le
  · -- The eighth of the higher limit is a double too, above the lower limit.
    have heighth : exactValue 4095.9999975 * (8 : Nat) = exactValue mostComputed := by
      decide +kernel
    refine lt_div hpos hcount (by decide +kernel : IsPositive 4095.9999975) haccepted
      (by decide +kernel) ?_
    calc exactValue 4095.9999975 * exactValue (Float.ofNat f)
        ≤ exactValue 4095.9999975 * (8 : Nat) := by
          rw [hvalue]
          exact mul_le_mul_of_nonneg_left (Nat.cast_le.mpr hf) (by decide +kernel)
      _ ≤ exactValue t := heighth.trans_le ((hcomputed.lt_iff hpos).mp ht).le

/-! ## the plan -/

theorem within?_eq_some {target : Float} {r : Resolution} (h : within? target = some r) :
    ∃ q k, IsFirstPart mostComputed target q k ∧ IsFirstPart mostAccepted q r.ppi r.factor := by
  obtain ⟨⟨q, k⟩, hfirst, h⟩ := Option.bind_eq_some_iff.mp h
  obtain ⟨⟨ppi, factor⟩, hsecond, h⟩ := Option.bind_eq_some_iff.mp h
  cases h
  exact ⟨q, k, isFirstPart_of_reduced? hfirst, isFirstPart_of_reduced? hsecond⟩

/-- The resolution is within the limit if and only if there is a number to begin with.  It is
what is asked for, divided by the factor, if and only if that is not beyond what the compiler
can compute with. -/
theorem within?_scaled_iff {target : Float} {r : Resolution} (h : within? target = some r) :
    (r.ppi ≤ mostAccepted ↔ target.isNaN = false) ∧
      (r.ppi ≤ mostAccepted ∧ (r.ppi == target / Float.ofNat r.factor) = true ↔
        target ≤ mostComputed) := by
  obtain ⟨q, k, hfirst, hsecond⟩ := within?_eq_some h
  have hlimit : mostAccepted.isNaN = false ∧ mostComputed.isNaN = false := by decide +kernel
  have hwithin : r.ppi ≤ mostAccepted ↔ target.isNaN = false := by
    rw [le_iff, hsecond.isNaN_eq, hfirst.isNaN_eq]
    exact ⟨And.left, fun htarget => ⟨htarget, hlimit.1, hsecond.not_gt⟩⟩
  refine ⟨hwithin, ?_⟩
  constructor
  · rintro ⟨hle, hbeq⟩
    refine le_iff.mpr ⟨hwithin.mp hle, hlimit.2, fun hgt => ?_⟩
    exact hsecond.not_gt (lt_of_lt_of_beq (lt_div_of_gt hfirst hsecond hgt) hbeq)
  · intro hle
    obtain ⟨hnumber, -, hnot⟩ := le_iff.mp hle
    have hq : q = target := hfirst.eq_of_not_gt hnot
    refine ⟨hwithin.mpr hnumber, ?_⟩
    rw [hsecond.eq, hq]
    exact (part_beq hnumber hsecond.pos hsecond.le).2

/-- The plan for a font. -/
theorem plan_scaled_iff {cfg : Settings} {x : Extents} {upm : Nat} {r : Resolution}
    (hupm : cfg.upm = some upm) (h : plan cfg x = some r) :
    let target := cfg.ppi * Float.ofNat upm / Float.ofInt (x.ascent + x.descent)
    (r.ppi ≤ mostAccepted ↔ target.isNaN = false) ∧
      (r.ppi ≤ mostAccepted ∧ (r.ppi == target / Float.ofNat r.factor) = true ↔
        target ≤ mostComputed) := by
  rw [plan, hupm] at h
  split at h
  · cases h
  · exact within?_scaled_iff h

/-- Ten thousand pixels per inch, which are reduced once. -/
theorem plan_scaled_by_three :
    let cfg : Settings := { upm := some 1000, ppi := 100 }
    ∃ r, plan cfg ⟨8, 2⟩ = some r ∧ r.factor = 3 ∧ r.ppi ≤ mostAccepted ∧
      (r.ppi == 100 * Float.ofNat 1000 / Float.ofInt 10 / Float.ofNat 3) = true := by
  intro cfg
  have hfactor : (plan cfg ⟨8, 2⟩).map (·.factor) = some 3 := by decide +kernel
  have htarget : cfg.ppi * Float.ofNat 1000 / Float.ofInt (8 + 2) ≤ mostComputed := by
    decide +kernel
  obtain ⟨r, hplan, hfactor⟩ := Option.map_eq_some_iff.mp hfactor
  obtain ⟨-, hscaled⟩ := plan_scaled_iff rfl hplan
  obtain ⟨hle, hbeq⟩ := hscaled.mpr htarget
  rw [hfactor] at hbeq
  exact ⟨r, hplan, hfactor, hle, hbeq⟩

/-- A hundred thousand pixels per inch, which are reduced by four and then by seven.  The factor
is seven. -/
theorem plan_not_scaled :
    let cfg : Settings := { upm := some 1000, ppi := 100 }
    cfg.validate = .ok () ∧ ∃ r, plan cfg ⟨1, 0⟩ = some r ∧ r.factor = 7 ∧
      (r.ppi == 100 * Float.ofNat 1000 / Float.ofInt 1 / Float.ofNat r.factor) = false ∧
      (r.ppi == 100 * Float.ofNat 1000 / Float.ofInt 1 / Float.ofNat 28) = true := by
  intro cfg
  have hppi : ¬cfg.ppi ≤ 0 := by decide +kernel
  have hvalid : cfg.validate = .ok () := by
    rw [Settings.validate, if_neg hppi]
    rfl
  have hplan : (plan cfg ⟨1, 0⟩).map (fun r => (r.factor,
      r.ppi == 100 * Float.ofNat 1000 / Float.ofInt 1 / Float.ofNat r.factor,
      r.ppi == 100 * Float.ofNat 1000 / Float.ofInt 1 / Float.ofNat 28)) = some (7, false, true) := by
    decide +kernel
  obtain ⟨r, hplan, hr⟩ := Option.map_eq_some_iff.mp hplan
  simp only [Prod.mk.injEq] at hr
  exact ⟨hvalid, r, hplan, hr⟩

end Resolution

end FontTrace
