import FontTrace.Font.GlyphName
import Mathlib.Data.List.Nodup

/-!
# FontTrace.Proofs.Font.ProductionName

Production names and the Unicode values that they are made of.  A name is fixed or
made of hexadecimal digits; three tables hold the fixed names, and reading a name looks into
them before it looks for digits.

* `ofFixedName?_eq_some_iff` — the tables are read the way they are written;
* `systematic?_systematicName` — digits are, too, however many there are;
* `production_names_decode` — so a name stands for the value that it was made of, if that is
  a scalar value, and for no value at all otherwise.
-/

namespace FontTrace

/-! ## lists without repetitions -/

/-- Whether no number comes twice; `seen` has the bits of those before. -/
def allNew (seen : Nat) : List Nat → Bool
  | [] => true
  | k :: ks => !seen.testBit k && allNew (seen ||| 1 <<< k) ks

theorem not_testBit_of_allNew {ks : List Nat} {seen : Nat} (h : allNew seen ks = true) :
    ∀ k ∈ ks, seen.testBit k = false := by
  induction ks generalizing seen with
  | nil => simp
  | cons k ks ih =>
      obtain ⟨hk, hks⟩ : seen.testBit k = false ∧ allNew (seen ||| 1 <<< k) ks = true := by
        simpa [allNew] using h
      intro k' hk'
      rcases List.mem_cons.mp hk' with rfl | hk'
      · exact hk
      · have hor := ih hks k' hk'
        rw [Nat.testBit_or, Bool.or_eq_false_iff] at hor
        exact hor.1

theorem nodup_of_allNew {ks : List Nat} {seen : Nat} (h : allNew seen ks = true) : ks.Nodup := by
  induction ks generalizing seen with
  | nil => exact List.nodup_nil
  | cons k ks ih =>
      obtain ⟨-, hks⟩ : seen.testBit k = false ∧ allNew (seen ||| 1 <<< k) ks = true := by
        simpa [allNew] using h
      refine List.nodup_cons.mpr ⟨fun hmem => ?_, ih hks⟩
      have hold := not_testBit_of_allNew hks k hmem
      rw [Nat.testBit_or, Nat.one_shiftLeft, Nat.testBit_two_pow_self, Bool.or_true] at hold
      cases hold

namespace GlyphName

/-! ## fixed names -/

/-- All fixed names with their Unicode values. -/
def fixedNames : List (Nat × String) :=
  (asciiNames.zipIdx 0x20).map Prod.swap ++ (latinNames.zipIdx 0xA0).map Prod.swap ++ extraNames

/-- The bytes of a name, which are cheaper to compare than its characters. -/
def bytes (name : String) : List UInt8 := name.toByteArray.data.toList

/-- A small number for a name, by which names are told apart. -/
def digest (name : String) : Nat :=
  (bytes name).foldl (fun k b => k * 128 + b.toNat) 0 % 65521

theorem nodup_fixedNames : (fixedNames.map (·.2)).Nodup := by
  have hnew : allNew 0 ((fixedNames.map (·.2)).map digest) = true := by decide +kernel
  exact (nodup_of_allNew hnew).of_map digest

theorem mem_swap_zipIdx {names : List String} {first u : Nat} {name : String} :
    (u, name) ∈ (names.zipIdx first).map Prod.swap ↔
      first ≤ u ∧ names[u - first]? = some name := by
  simp [List.mem_zipIdx_iff_le_and_getElem?_sub]

theorem idxOf?_add_eq_find? (names : List String) (first : Nat) (name : String) :
    (names.idxOf? name).map (first + ·) =
      (((names.zipIdx first).map Prod.swap).find? fun (_, n) => n == name).map (·.1) := by
  induction names generalizing first with
  | nil => rfl
  | cons n names ih =>
      rw [List.idxOf?_cons]
      by_cases h : n == name
      · simp [h]
      · simp only [h, List.zipIdx_cons, List.map_cons, Prod.swap_prod_mk, List.find?_cons,
          Bool.false_eq_true, if_false]
        rw [← ih (first + 1)]
        simp [Option.map_map, Function.comp_def, Nat.add_assoc, Nat.add_comm 1]

theorem ofFixedName?_eq_find? (name : String) :
    ofFixedName? name = (fixedNames.find? fun (_, n) => n == name).map (·.1) := by
  rw [ofFixedName?, idxOf?_add_eq_find?, idxOf?_add_eq_find?, fixedNames, List.find?_append,
    List.find?_append, Option.map_or, Option.map_or, Option.or_assoc, Option.orElse_eq_orElse]
  simp [Option.orElse_eq_or]

theorem mem_fixedNames_iff {u : Nat} {name : String} :
    (u, name) ∈ fixedNames ↔ fixedName? u = some name := by
  constructor
  · intro h
    simp only [fixedNames, List.mem_append, mem_swap_zipIdx] at h
    rcases h with (⟨hle, hget⟩ | ⟨hle, hget⟩) | hmem
    · have hlt : u - 0x20 < 95 := (List.getElem?_eq_some_iff.mp hget).1
      rw [fixedName?, if_pos ⟨hle, by omega⟩, hget]
    · have hlt : u - 0xA0 < 96 := (List.getElem?_eq_some_iff.mp hget).1
      rw [fixedName?, if_neg (by omega), if_pos ⟨hle, by omega⟩, hget]
    · have hall : ∀ p ∈ extraNames, fixedName? p.1 = some p.2 := by decide +kernel
      exact hall (u, name) hmem
  · intro h
    simp only [fixedNames, List.mem_append, mem_swap_zipIdx]
    rw [fixedName?] at h
    split at h
    · next hu => exact .inl (.inl ⟨hu.1, h⟩)
    · split at h
      · next hu => exact .inl (.inr ⟨hu.1, h⟩)
      · obtain ⟨before, after, heq, -⟩ := List.lookup_eq_some_iff.mp h
        exact .inr (heq ▸ by simp)

/-- No two fixed names are the same, so the first table that has a name is the only one. -/
theorem ofFixedName?_eq_some_iff {u : Nat} {name : String} :
    ofFixedName? name = some u ↔ fixedName? u = some name := by
  rw [ofFixedName?_eq_find?, ← mem_fixedNames_iff]
  constructor
  · intro h
    obtain ⟨⟨u', n⟩, hfind, rfl⟩ := Option.map_eq_some_iff.mp h
    have hn : n = name := by simpa using List.find?_some hfind
    exact hn ▸ List.mem_of_find?_eq_some hfind
  · intro hmem
    have hfound : (fixedNames.find? fun (_, n) => n == name).isSome :=
      List.find?_isSome.mpr ⟨(u, name), hmem, beq_self_eq_true name⟩
    obtain ⟨p, hp⟩ := Option.isSome_iff_exists.mp hfound
    have hn : p.2 = name := by simpa using List.find?_some hp
    have heq : p = (u, name) :=
      List.inj_on_of_nodup_map nodup_fixedNames (List.mem_of_find?_eq_some hp) hmem hn
    rw [hp, heq]
    rfl

/-! ## names of digits -/

/-- The name of a Unicode value that has no fixed one. -/
def systematicName (u : Nat) : String :=
  if u ≤ 0xFFFF then "uni" ++ hexDigits 4 u else "u" ++ hexDigits 5 u

theorem ofUnicode_eq (u : Nat) : ofUnicode u = (fixedName? u).getD (systematicName u) := by
  rw [ofUnicode, systematicName]
  cases fixedName? u <;> rfl

/-- The value of the digits in a name, as many as there are. -/
def systematic? (name : String) : Option Nat :=
  (strip ['u', 'n', 'i'] name.toList <|> strip ['u'] name.toList).bind (natOfDigits? 16)

theorem toNat_le_of_mem_hexDigits {width n : Nat} {c : Char} (h : c ∈ (hexDigits width n).toList) :
    c.toNat ≤ 102 := by
  have := digit_range (isSome_digitValue?_of_mem (natOfDigits?_hexDigits width n) h)
  omega

theorem strip_uni_hexDigits (width n : Nat) :
    strip ['u', 'n', 'i'] ('u' :: (hexDigits width n).toList) = none := by
  refine Option.eq_none_iff_forall_ne_some.mpr fun rest h => ?_
  have heq := List.cons.inj (strip_eq_some_iff.mp h)
  have hn : 'n' ∈ (hexDigits width n).toList := heq.2 ▸ List.mem_cons_self
  exact absurd (toNat_le_of_mem_hexDigits hn) (by decide)

theorem toList_systematicName (u : Nat) : (systematicName u).toList =
    if u ≤ 0xFFFF then ['u', 'n', 'i'] ++ (hexDigits 4 u).toList
    else 'u' :: (hexDigits 5 u).toList := by
  rw [systematicName]
  split <;> simp

theorem systematic?_systematicName (u : Nat) : systematic? (systematicName u) = some u := by
  rw [systematic?, toList_systematicName]
  split
  · rw [strip_eq_some_iff.mpr rfl]
    simp [natOfDigits?_hexDigits]
  · rw [strip_uni_hexDigits]
    simp [strip, natOfDigits?_hexDigits]

/-- Only a name that begins with `u` can be read as digits. -/
theorem head?_bytes_of_systematic? {name : String} {v : Nat} (h : systematic? name = some v) :
    (bytes name).head? = some 117 := by
  have hu : ∃ rest, name.toList = 'u' :: rest := by
    obtain ⟨ds, hds, -⟩ := Option.bind_eq_some_iff.mp h
    rw [Option.orElse_eq_orElse, Option.orElse_eq_or, Option.or_eq_some_iff] at hds
    rcases hds with hds | ⟨-, hds⟩
    · exact ⟨_, strip_eq_some_iff.mp hds⟩
    · exact ⟨_, strip_eq_some_iff.mp hds⟩
  obtain ⟨rest, hrest⟩ := hu
  have hname : name = "u" ++ String.ofList rest := String.toList_inj.mp (by simp [hrest])
  rw [bytes, hname, String.toByteArray_append]
  rfl

/-- A fixed name with digits in it has the digits of its own value. -/
theorem eq_of_systematic? {u v : Nat} {name : String} (hfixed : fixedName? u = some name)
    (h : systematic? name = some v) : v = u := by
  have hall : ∀ p ∈ fixedNames.filter fun (_, n) => (bytes n).head? == some 117,
      ∀ v ∈ systematic? p.2, v = p.1 := by
    decide +kernel
  have hu : ((bytes name).head? == some 117) = true := by
    rw [head?_bytes_of_systematic? h, beq_self_eq_true]
  exact hall (u, name) (List.mem_filter.mpr ⟨mem_fixedNames_iff.mpr hfixed, hu⟩) v h

theorem ofFixedName?_systematicName {u : Nat} (h : fixedName? u = none) :
    ofFixedName? (systematicName u) = none := by
  refine Option.eq_none_iff_forall_ne_some.mpr fun v hv => ?_
  have hfixed := ofFixedName?_eq_some_iff.mp hv
  rw [← eq_of_systematic? hfixed (systematic?_systematicName u), h] at hfixed
  cases hfixed

/-- Digits are read back when there are at most six of them. -/
theorem digits?_systematicName (u : Nat) :
    digits? (systematicName u).toList =
      if u ≤ 0xFFFF then some (hexDigits 4 u).toList
      else if u ≤ 0xFFFFFF then some (hexDigits 5 u).toList else none := by
  have hfour : (Nat.toDigits 16 u).length ≤ 4 ↔ u ≤ 0xFFFF :=
    (Nat.length_toDigits_le_iff (by decide) (by decide)).trans Nat.lt_succ_iff
  have hsix : (Nat.toDigits 16 u).length ≤ 6 ↔ u ≤ 0xFFFFFF :=
    (Nat.length_toDigits_le_iff (by decide) (by decide)).trans Nat.lt_succ_iff
  rw [toList_systematicName]
  by_cases hu : u ≤ 0xFFFF
  · have hlen : (Nat.toDigits 16 u).length ≤ 4 := hfour.mpr hu
    rw [if_pos hu, if_pos hu, digits?, strip_eq_some_iff.mpr rfl, Option.filter_some]
    simp [utf8ByteSize_hexDigits, hlen]
  · have hlen : 5 ≤ (Nat.toDigits 16 u).length := Nat.lt_of_not_le (mt hfour.mp hu)
    have hstrip : strip ['u'] ('u' :: (hexDigits 5 u).toList) = some (hexDigits 5 u).toList :=
      strip_eq_some_iff.mpr rfl
    rw [if_neg hu, if_neg hu, digits?, strip_uni_hexDigits, hstrip, Option.filter_some]
    have hfour' : 4 ≤ (Nat.toDigits 16 u).length := by omega
    simp [utf8ByteSize_hexDigits, Nat.max_eq_right hlen, hfour', ← hsix]

theorem isScalar_of_fixedName? {u : Nat} {name : String} (h : fixedName? u = some name) :
    isScalar u = true := by
  have hall : ∀ p ∈ fixedNames, isScalar p.1 = true := by decide +kernel
  exact hall (u, name) (mem_fixedNames_iff.mpr h)

theorem nat32OfText?_hexDigits {width n : Nat} (h : n ≤ 0xFFFFFFFF) :
    nat32OfText? 16 (hexDigits width n).toList = some n := by
  have hfits : fits32 n = true := decide_eq_true (Nat.lt_succ_of_le h)
  rw [nat32OfText?, natOfText?_of_digits (natOfDigits?_hexDigits width n), Option.filter_some,
    if_pos hfits]

/-- A name of digits stands for its value, if that is a scalar value. -/
theorem unicode?_systematicName {u : Nat} (h : fixedName? u = none) :
    unicode? (systematicName u) = if isScalar u then some u else none := by
  have hread : (digits? (systematicName u).toList).bind (nat32OfText? 16) =
      if u ≤ 0xFFFFFF then some u else none := by
    rw [digits?_systematicName]
    split
    · next hu => rw [if_pos (by omega), Option.bind_some, nat32OfText?_hexDigits (by omega)]
    · split
      · rw [Option.bind_some, nat32OfText?_hexDigits (by omega)]
      · rfl
  have hscalar : ¬ u ≤ 0xFFFFFF → isScalar u = false := fun hu => by
    simp only [isScalar, Bool.or_eq_false_iff, Bool.and_eq_false_iff, decide_eq_false_iff_not]
    omega
  simp only [unicode?, ofFixedName?_systematicName h, hread]
  split
  · rfl
  · next hu => rw [hscalar hu]; rfl

theorem unicode?_ofUnicode (u : Nat) :
    unicode? (ofUnicode u) = if isScalar u then some u else none := by
  rw [ofUnicode_eq]
  cases h : fixedName? u with
  | none => exact unicode?_systematicName h
  | some name =>
      rw [Option.getD_some, unicode?, ofFixedName?_eq_some_iff.mpr h, isScalar_of_fixedName? h]
      rfl

/-- A production name stands for the Unicode value that it was made of, if that is a scalar
value, and for none otherwise; so different scalar values have different names. -/
theorem production_names_decode :
    (∀ u, unicode? (ofUnicode u) = if isScalar u then some u else none) ∧
    ∀ u v, isScalar u → isScalar v → u ≠ v → ofUnicode u ≠ ofUnicode v := by
  refine ⟨unicode?_ofUnicode, fun u v hu hv hne h => hne ?_⟩
  have huv := unicode?_ofUnicode u
  rw [h, unicode?_ofUnicode v, if_pos hu, if_pos hv] at huv
  exact (Option.some.inj huv).symm

theorem production_names_decode_eacute :
    unicode? (ofUnicode 0xE9) = some 0xE9 ∧ unicode? (ofUnicode 0xD800) = none ∧
    ofUnicode 0xE9 ≠ ofUnicode 0x1D51E :=
  ⟨production_names_decode.1 0xE9, production_names_decode.1 0xD800,
    production_names_decode.2 0xE9 0x1D51E (by decide) (by decide) (by decide)⟩

example : ofUnicode 0xE9 = "eacute" ∧ ofUnicode 0x1D51E = "u1D51E" := by decide +kernel

end GlyphName

end FontTrace
