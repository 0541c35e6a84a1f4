import FontTrace.Number.Binary

/-!
# FontTrace.Number.Integer

Reading and writing integers.  An integer text is an optional sign and at
least one digit of the base, and nothing around them; reading it into a sized
type fails outside the range of the type.
-/

namespace FontTrace

/-- The value of a digit of any base up to sixteen, in either case. -/
def digitValue? (base : Nat) (c : Char) : Option Nat :=
  let n := c.toNat
  let v? :=
    if 48 ≤ n ∧ n ≤ 57 then some (n - 48)
    else if 65 ≤ n ∧ n ≤ 70 then some (n - 55)
    else if 97 ≤ n ∧ n ≤ 102 then some (n - 87)
    else none
  v?.filter (· < base)

/-- The number that one or more digits stand for. -/
def natOfDigits? (base : Nat) (cs : List Char) : Option Nat :=
  if cs.isEmpty then none
  else cs.foldlM (fun n c => (digitValue? base c).map (n * base + ·)) 0

/-- Digits read back as the number they were written for, in any spelling of
the digits that keeps their values. -/
theorem foldlM_digitValue?_toDigits {base : Nat} (hbase : 1 < base) {spell : Char → Char}
    (hspell : ∀ d < base, digitValue? base (spell d.digitChar) = some d) (n : Nat) :
    ((Nat.toDigits base n).map spell).foldlM
      (fun n c => (digitValue? base c).map (n * base + ·)) 0 = some n := by
  induction n using Nat.strongRecOn with
  | ind n ih =>
      by_cases h : n < base
      · simp [Nat.toDigits_of_lt_base h, hspell n h]
      · have hlast : n % base < base := Nat.mod_lt n (by omega)
        have hless : n / base < n := Nat.div_lt_self (by omega) hbase
        rw [Nat.toDigits_of_base_le hbase (Nat.le_of_not_lt h), List.map_append,
          List.foldlM_append, ih (n / base) hless]
        simp [hspell _ hlast, Nat.div_add_mod']

/-- Decimal digits read back as the number they were written for. -/
theorem natOfDigits?_toDigits (n : Nat) : natOfDigits? 10 (Nat.toDigits 10 n) = some n := by
  have hspell : ∀ d < 10, digitValue? 10 (id d.digitChar) = some d := by decide
  have hfold := foldlM_digitValue?_toDigits (by decide : 1 < 10) hspell n
  rw [List.map_id] at hfold
  rw [natOfDigits?, if_neg (by simp [Nat.toDigits_ne_nil]), hfold]

/-- Every character of a number is a digit of the base. -/
theorem isSome_digitValue?_of_mem {base : Nat} {cs : List Char} {n : Nat}
    (h : natOfDigits? base cs = some n) {c : Char} (hc : c ∈ cs) :
    (digitValue? base c).isSome := by
  have hfold : ∀ (cs : List Char) (acc : Nat),
      cs.foldlM (fun n c => (digitValue? base c).map (n * base + ·)) acc = some n →
        ∀ c ∈ cs, (digitValue? base c).isSome := by
    intro cs
    induction cs with
    | nil => simp
    | cons d cs ih =>
        intro acc h c hc
        obtain ⟨m, hm, hrest⟩ := Option.bind_eq_some_iff.mp h
        rcases List.mem_cons.mp hc with rfl | hc
        · obtain ⟨v, hv, -⟩ := Option.map_eq_some_iff.mp hm
          exact Option.isSome_of_eq_some hv
        · exact ih m hrest c hc
  rw [natOfDigits?] at h
  split at h
  · cases h
  · exact hfold cs 0 h c hc

/-- Digits stand for numbers in the ASCII range. -/
theorem digit_range {base : Nat} {c : Char} (h : (digitValue? base c).isSome) :
    48 ≤ c.toNat ∧ c.toNat ≤ 57 ∨ 65 ≤ c.toNat ∧ c.toNat ≤ 70 ∨ 97 ≤ c.toNat ∧ c.toNat ≤ 102 := by
  simp only [digitValue?] at h
  split at h
  · next hc => exact .inl hc
  · split at h
    · next hc => exact .inr (.inl hc)
    · split at h
      · next hc => exact .inr (.inr hc)
      · cases h

/-- A natural number with an optional plus sign. -/
def natOfText? (base : Nat) : List Char → Option Nat
  | '+' :: cs => natOfDigits? base cs
  | cs => natOfDigits? base cs

/-- A number without a sign is read as its digits. -/
theorem natOfText?_of_digits {base : Nat} {cs : List Char} {n : Nat}
    (h : natOfDigits? base cs = some n) : natOfText? base cs = some n := by
  unfold natOfText?
  split
  · have hplus := digit_range (isSome_digitValue?_of_mem h List.mem_cons_self)
    exact absurd hplus (by decide)
  · exact h

/-- An integer with an optional sign. -/
def intOfText? (base : Nat) : List Char → Option Int
  | '-' :: cs => (natOfDigits? base cs).map fun n => -(n : Int)
  | cs => (natOfText? base cs).map fun n => (n : Int)

/-- A number that fits into 32 bits. -/
def fits32 (n : Nat) : Bool := n < Nat.pow 2 32

/-- An integer that fits into 64 bits, sign included. -/
def fits64 (n : Int) : Bool := minInt64 ≤ n && n ≤ maxInt64

/-- An unsigned 32-bit integer. -/
def nat32OfText? (base : Nat) (cs : List Char) : Option Nat :=
  (natOfText? base cs).filter fits32

/-- A signed 64-bit integer. -/
def int64OfText? (base : Nat) (cs : List Char) : Option Int :=
  (intOfText? base cs).filter fits64

/-- An integer as an unsigned 32-bit one. -/
def nat32OfInt? (n : Int) : Option Nat :=
  if 0 ≤ n then some n.toNat |>.filter fits32 else none

/-- Upper-case hexadecimal digits, with zeros in front up to the given width. -/
def hexDigits (width n : Nat) : String :=
  let ds := (Nat.toDigits 16 n).map Char.toUpper
  String.ofList (List.replicate (width - ds.length) '0' ++ ds)

theorem toList_hexDigits (width n : Nat) : (hexDigits width n).toList =
    List.replicate (width - (Nat.toDigits 16 n).length) '0' ++
      (Nat.toDigits 16 n).map Char.toUpper := by
  simp [hexDigits]

theorem length_toList_hexDigits (width n : Nat) :
    (hexDigits width n).toList.length = max width (Nat.toDigits 16 n).length := by
  simp only [toList_hexDigits, List.length_append, List.length_replicate, List.length_map]
  omega

/-- Hexadecimal digits read back as the number they were written for. -/
theorem natOfDigits?_hexDigits (width n : Nat) :
    natOfDigits? 16 (hexDigits width n).toList = some n := by
  have hzeros : ∀ k, (List.replicate k '0').foldlM
      (fun n c => (digitValue? 16 c).map (n * 16 + ·)) 0 = some 0 := by
    intro k
    induction k with
    | zero => rfl
    | succ k ih =>
        rw [List.replicate_succ, List.foldlM_cons]
        exact ih
  have hempty : (hexDigits width n).toList.isEmpty = false := by
    simp [toList_hexDigits, Nat.toDigits_ne_nil]
  rw [natOfDigits?, hempty, toList_hexDigits, List.foldlM_append, hzeros]
  exact foldlM_digitValue?_toDigits (by decide) (by decide) n

/-- ASCII characters take a byte each. -/
theorem utf8ByteSize_ofList_of_ascii {cs : List Char} (h : ∀ c ∈ cs, c.toNat ≤ 127) :
    (String.ofList cs).utf8ByteSize = cs.length := by
  induction cs with
  | nil => rfl
  | cons c cs ih =>
      have hc : c.utf8Size = 1 :=
        Char.utf8Size_eq_one_iff.mpr (UInt32.le_iff_toNat_le.mpr (h c List.mem_cons_self))
      have hcs := ih fun c' hc' => h c' (List.mem_cons_of_mem c hc')
      rw [String.ofList_cons, String.utf8ByteSize_append, String.utf8ByteSize_singleton, hc, hcs,
        List.length_cons, Nat.add_comm]

theorem utf8ByteSize_hexDigits (width n : Nat) :
    (hexDigits width n).utf8ByteSize = max width (Nat.toDigits 16 n).length := by
  have hascii : ∀ c ∈ (hexDigits width n).toList, c.toNat ≤ 127 := fun c hc => by
    have := digit_range (isSome_digitValue?_of_mem (natOfDigits?_hexDigits width n) hc)
    omega
  rw [← length_toList_hexDigits, ← utf8ByteSize_ofList_of_ascii hascii, String.ofList_toList]

end FontTrace
