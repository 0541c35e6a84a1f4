import FontTrace.Proofs.Font.ProductionName
import Mathlib.Data.Nat.Digits.Defs

/-!
# FontTrace.Proofs.Font.NameGrammar

Which names have a Unicode value: the fixed ones, and those of four digits behind `uni` or of four
to six behind `u`.  The digits are read as an integer is, and an integer may have a plus sign, which
counts as one of the digits.

* `Denotes` — the number that hexadecimal digits stand for, by their values;
* `natOfDigits?_eq_some_iff` — digits are read by their values;
* `unicode?_eq_some_iff` — the names that are read, and the values they are read as;
* `production_name_grammar_iff` — these are the names of the grammar, and those with a sign;
* `production_name_with_sign` — one of those.
-/

namespace FontTrace

/-! ## digits by their values -/

/-- A hexadecimal digit, in either case, and its value. -/
def IsHexDigit (c : Char) (d : Nat) : Prop :=
  d < 16 ∧ (c = d.digitChar ∨ c = d.digitChar.toUpper)

/-- Hexadecimal digits that stand for a number, the highest one first. -/
def Denotes (cs : List Char) (n : Nat) : Prop :=
  ∃ ds, List.Forall₂ IsHexDigit cs ds ∧ Nat.ofDigits 16 ds.reverse = n

theorem digitValue?_eq_some_iff {c : Char} {d : Nat} :
    digitValue? 16 c = some d ↔ IsHexDigit c d := by
  constructor
  · intro h
    have hread : ∀ n < 128, ∀ d ∈ digitValue? 16 (Char.ofNat n),
        d < 16 ∧ (Char.ofNat n = d.digitChar ∨ Char.ofNat n = d.digitChar.toUpper) := by
      decide
    have hascii : c.toNat < 128 := by
      have := digit_range (Option.isSome_of_eq_some h)
      omega
    have hdigit := hread c.toNat hascii d
    rw [Char.ofNat_toNat] at hdigit
    exact hdigit h
  · have hspell : ∀ d < 16, digitValue? 16 d.digitChar = some d ∧
        digitValue? 16 d.digitChar.toUpper = some d := by
      decide
    rintro ⟨hd, rfl | rfl⟩
    · exact (hspell d hd).1
    · exact (hspell d hd).2

theorem foldlM_digitValue?_eq_some_iff {cs : List Char} {first n : Nat} :
    cs.foldlM (fun n c => (digitValue? 16 c).map (n * 16 + ·)) first = some n ↔
      ∃ ds, List.Forall₂ IsHexDigit cs ds ∧ ds.foldl (fun n d => n * 16 + d) first = n := by
  induction cs generalizing first with
  | nil => simp [List.forall₂_nil_left_iff]
  | cons c cs ih =>
      rw [List.foldlM_cons]
      constructor
      · intro h
        obtain ⟨next, hnext, hrest⟩ := Option.bind_eq_some_iff.mp h
        obtain ⟨d, hd, rfl⟩ := Option.map_eq_some_iff.mp hnext
        obtain ⟨ds, hds, hfold⟩ := ih.mp hrest
        exact ⟨d :: ds, .cons (digitValue?_eq_some_iff.mp hd) hds, hfold⟩
      · rintro ⟨_, hds, hfold⟩
        cases hds with
        | cons hd hds =>
            rw [digitValue?_eq_some_iff.mpr hd]
            exact ih.mpr ⟨_, hds, hfold⟩

/-- Digits are read by their values. -/
theorem natOfDigits?_eq_some_iff {cs : List Char} {n : Nat} :
    natOfDigits? 16 cs = some n ↔ cs ≠ [] ∧ Denotes cs n := by
  have hfold : ∀ ds : List Nat,
      Nat.ofDigits 16 ds.reverse = ds.foldl (fun n d => n * 16 + d) 0 := fun ds => by
    rw [Nat.ofDigits_eq_foldr, List.foldr_reverse]
    simp [Nat.add_comm, Nat.mul_comm]
  cases cs with
  | nil => simp [natOfDigits?]
  | cons c cs =>
      rw [natOfDigits?, if_neg (by simp), foldlM_digitValue?_eq_some_iff]
      simp [Denotes, hfold]

/-- A natural number is read as its digits, behind a plus sign or not. -/
theorem natOfText?_eq_some_iff {cs : List Char} {n : Nat} :
    natOfText? 16 cs = some n ↔
      ∃ sign ds, (sign = [] ∨ sign = ['+']) ∧ cs = sign ++ ds ∧ ds ≠ [] ∧ Denotes ds n := by
  constructor
  · intro h
    unfold natOfText? at h
    split at h
    · next ds => exact ⟨['+'], ds, .inr rfl, rfl, natOfDigits?_eq_some_iff.mp h⟩
    · exact ⟨[], cs, .inl rfl, rfl, natOfDigits?_eq_some_iff.mp h⟩
  · rintro ⟨sign, ds, rfl | rfl, rfl, hds⟩
    · exact natOfText?_of_digits (natOfDigits?_eq_some_iff.mpr hds)
    · exact natOfDigits?_eq_some_iff.mpr hds

/-- Neither a sign nor the second letter of `uni` is a digit. -/
theorem Denotes.not_mem {cs : List Char} {n : Nat} (h : Denotes cs n) : '+' ∉ cs ∧ 'n' ∉ cs := by
  have hdigits : ∀ c ∈ cs, (digitValue? 16 c).isSome := fun c hc =>
    isSome_digitValue?_of_mem (natOfDigits?_eq_some_iff.mpr ⟨List.ne_nil_of_mem hc, h⟩) hc
  exact ⟨fun hc => absurd (hdigits _ hc) (by decide), fun hc => absurd (hdigits _ hc) (by decide)⟩

theorem Denotes.utf8ByteSize {cs : List Char} {n : Nat} (h : Denotes cs n) :
    (String.ofList cs).utf8ByteSize = cs.length := by
  refine utf8ByteSize_ofList_of_ascii fun c hc => ?_
  have hdigit := digit_range (isSome_digitValue?_of_mem
    (natOfDigits?_eq_some_iff.mpr ⟨List.ne_nil_of_mem hc, h⟩) hc)
  omega

namespace GlyphName

/-! ## the grammar -/

/-- A name of digits: four behind `uni`, or four to six behind `u`.  A sign in front of them counts
as a digit. -/
def IsSystematic (sign : List Char) (name : String) (u : Nat) : Prop :=
  ∃ ds, Denotes ds u ∧
    (name.toList = ['u', 'n', 'i'] ++ (sign ++ ds) ∧ (sign ++ ds).length = 4 ∨
      name.toList = ['u'] ++ (sign ++ ds) ∧ 4 ≤ (sign ++ ds).length ∧ (sign ++ ds).length ≤ 6)

/-- A name of the grammar and its value: a fixed name, or one of digits that is no fixed name. -/
def IsProductionName (name : String) (u : Nat) : Prop :=
  fixedName? u = some name ∨ (∀ v, fixedName? v ≠ some name) ∧ IsSystematic [] name u

theorem ofFixedName?_eq_none_iff {name : String} :
    ofFixedName? name = none ↔ ∀ v, fixedName? v ≠ some name := by
  rw [Option.eq_none_iff_forall_ne_some]
  exact forall_congr' fun v => not_congr ofFixedName?_eq_some_iff

/-- What is read as the digits of a name, if it is read as a number. -/
theorem digits?_eq_some_iff {name sign ds : List Char} {u : Nat} (hsign : sign = [] ∨ sign = ['+'])
    (hds : Denotes ds u) :
    digits? name = some (sign ++ ds) ↔
      name = ['u', 'n', 'i'] ++ (sign ++ ds) ∧ (sign ++ ds).length = 4 ∨
        name = ['u'] ++ (sign ++ ds) ∧ 4 ≤ (sign ++ ds).length ∧ (sign ++ ds).length ≤ 6 := by
  have hbytes : (String.ofList (sign ++ ds)).utf8ByteSize = (sign ++ ds).length := by
    rw [String.ofList_append, String.utf8ByteSize_append, hds.utf8ByteSize, List.length_append]
    rcases hsign with rfl | rfl <;> rfl
  have hfour : (strip ['u', 'n', 'i'] name).filter
        (fun ds => (String.ofList ds).utf8ByteSize == 4) = some (sign ++ ds) ↔
      name = ['u', 'n', 'i'] ++ (sign ++ ds) ∧ (sign ++ ds).length = 4 := by
    rw [Option.filter_eq_some_iff, strip_eq_some_iff, hbytes, beq_iff_eq]
  have hmore : (strip ['u'] name).filter (fun ds => 4 ≤ (String.ofList ds).utf8ByteSize &&
        (String.ofList ds).utf8ByteSize ≤ 6) = some (sign ++ ds) ↔
      name = ['u'] ++ (sign ++ ds) ∧ 4 ≤ (sign ++ ds).length ∧ (sign ++ ds).length ≤ 6 := by
    rw [Option.filter_eq_some_iff, strip_eq_some_iff, hbytes, Bool.and_eq_true, decide_eq_true_iff,
      decide_eq_true_iff]
  -- the second letter of `uni` is neither a sign nor a digit
  have hnone : name = ['u'] ++ (sign ++ ds) → strip ['u', 'n', 'i'] name = none := by
    rintro rfl
    refine Option.eq_none_iff_forall_ne_some.mpr fun rest hrest => ?_
    have htail : sign ++ ds = 'n' :: 'i' :: rest :=
      (List.cons.inj (strip_eq_some_iff.mp hrest)).2
    have hn : 'n' ∈ sign ++ ds := by
      rw [htail]
      exact List.mem_cons_self
    rcases List.mem_append.mp hn with hn | hn
    · rcases hsign with rfl | rfl <;> simp at hn
    · exact hds.not_mem.2 hn
  rw [digits?, Option.orElse_eq_orElse, Option.orElse_eq_or, Option.or_eq_some_iff, hfour, hmore]
  refine or_congr_right (and_iff_right_of_imp fun h => ?_)
  rw [hnone h.1, Option.filter_none]

/-- The names whose digits are read as a number. -/
theorem exists_digits?_iff {name : String} {u : Nat} :
    (∃ text, digits? name.toList = some text ∧ natOfText? 16 text = some u) ↔
      IsSystematic [] name u ∨ IsSystematic ['+'] name u := by
  constructor
  · rintro ⟨text, htext, hread⟩
    obtain ⟨sign, ds, hsign, rfl, -, hds⟩ := natOfText?_eq_some_iff.mp hread
    have hform := (digits?_eq_some_iff hsign hds).mp htext
    rcases hsign with rfl | rfl
    · exact .inl ⟨ds, hds, hform⟩
    · exact .inr ⟨ds, hds, hform⟩
  · have hread : ∀ sign, sign = [] ∨ sign = ['+'] → IsSystematic sign name u →
        ∃ text, digits? name.toList = some text ∧ natOfText? 16 text = some u := by
      rintro sign hsign ⟨ds, hds, hform⟩
      have hne : ds ≠ [] := by
        rintro rfl
        rcases hsign with rfl | rfl <;> simp at hform
      exact ⟨sign ++ ds, (digits?_eq_some_iff hsign hds).mpr hform,
        natOfText?_eq_some_iff.mpr ⟨sign, ds, hsign, rfl, hne, hds⟩⟩
    rintro (h | h)
    · exact hread [] (.inl rfl) h
    · exact hread ['+'] (.inr rfl) h

theorem fits32_of_isScalar {u : Nat} (h : isScalar u = true) : fits32 u = true := by
  simp only [isScalar, Bool.or_eq_true, Bool.and_eq_true, decide_eq_true_eq] at h
  exact decide_eq_true (by rw [Nat.pow_eq]; omega)

/-- The names that have a Unicode value. -/
theorem unicode?_eq_some_iff {name : String} {u : Nat} :
    unicode? name = some u ↔ fixedName? u = some name ∨
      (∀ v, fixedName? v ≠ some name) ∧ isScalar u = true ∧
        (IsSystematic [] name u ∨ IsSystematic ['+'] name u) := by
  cases hfixed : ofFixedName? name with
  | some v =>
      have hv := ofFixedName?_eq_some_iff.mp hfixed
      have hread : unicode? name = ofFixedName? name := by rw [unicode?, hfixed]
      rw [hread, ofFixedName?_eq_some_iff]
      exact (or_iff_left fun h => h.1 v hv).symm
  | none =>
      have hnot := ofFixedName?_eq_none_iff.mp hfixed
      rw [or_iff_right (hnot u), and_iff_right hnot, unicode?, hfixed, Option.filter_eq_some_iff,
        Option.bind_eq_some_iff, and_comm, ← exists_digits?_iff]
      refine and_congr_right fun hscalar => exists_congr fun text => and_congr_right fun _ => ?_
      rw [nat32OfText?, Option.filter_eq_some_iff, and_iff_left (fits32_of_isScalar hscalar)]

/-! ## names with a sign -/

/-- The characters behind `u` or `uni` begin with the sign. -/
theorem IsSystematic.mem_of_sign {name : String} {u : Nat} (h : IsSystematic ['+'] name u) :
    '+' ∈ name.toList := by
  obtain ⟨ds, -, ⟨hname, -⟩ | ⟨hname, -⟩⟩ := h <;> simp [hname]

theorem IsSystematic.not_mem_of_nil {name : String} {u : Nat} (h : IsSystematic [] name u) :
    '+' ∉ name.toList := by
  obtain ⟨ds, hds, ⟨hname, -⟩ | ⟨hname, -⟩⟩ := h <;> simp [hname, hds.not_mem.1]

/-- No fixed name has a sign in it. -/
theorem IsSystematic.not_fixedName? {name : String} {u v : Nat} (h : IsSystematic ['+'] name u) :
    fixedName? v ≠ some name := by
  have hall : ∀ p ∈ fixedNames, 43 ∉ bytes p.2 := by decide +kernel
  have hbyte : 43 ∈ bytes name := by
    obtain ⟨ds, -, ⟨hname, -⟩ | ⟨hname, -⟩⟩ := h
    · have heq : name = "uni+" ++ String.ofList ds := String.toList_inj.mp (by simp [hname])
      rw [heq, bytes, String.toByteArray_append, ByteArray.data_append, Array.toList_append]
      exact List.mem_append_left _ (by decide)
    · have heq : name = "u+" ++ String.ofList ds := String.toList_inj.mp (by simp [hname])
      rw [heq, bytes, String.toByteArray_append, ByteArray.data_append, Array.toList_append]
      exact List.mem_append_left _ (by decide)
  exact fun hfixed => hall (v, name) (mem_fixedNames_iff.mpr hfixed) hbyte

/-- A name with a sign is no name of the grammar. -/
theorem IsSystematic.not_isProductionName {name : String} {u v : Nat}
    (h : IsSystematic ['+'] name u) : ¬IsProductionName name v := by
  rintro (hfixed | ⟨-, hsystematic⟩)
  · exact h.not_fixedName? hfixed
  · exact hsystematic.not_mem_of_nil h.mem_of_sign

/-- A name is read as the grammar has it, and with a sign in front of the digits it is read as well;
so a name and a scalar value are read as the grammar has it if and only if it is not a sign that
gives the name this value. -/
theorem production_name_grammar_iff (name : String) (u : Nat) :
    (unicode? name = some u ↔
      isScalar u = true ∧ (IsProductionName name u ∨ IsSystematic ['+'] name u)) ∧
    (isScalar u = true → ((unicode? name = some u ↔ IsProductionName name u) ↔
      ¬IsSystematic ['+'] name u)) := by
  have hread : unicode? name = some u ↔
      isScalar u = true ∧ (IsProductionName name u ∨ IsSystematic ['+'] name u) := by
    rw [unicode?_eq_some_iff]
    constructor
    · rintro (hfixed | ⟨hnot, hscalar, hplain | hsigned⟩)
      · exact ⟨isScalar_of_fixedName? hfixed, .inl (.inl hfixed)⟩
      · exact ⟨hscalar, .inl (.inr ⟨hnot, hplain⟩)⟩
      · exact ⟨hscalar, .inr hsigned⟩
    · rintro ⟨hscalar, (hfixed | ⟨hnot, hplain⟩) | hsigned⟩
      · exact .inl hfixed
      · exact .inr ⟨hnot, hscalar, .inl hplain⟩
      · exact .inr ⟨fun _ => hsigned.not_fixedName?, hscalar, .inr hsigned⟩
  refine ⟨hread, fun hscalar => ⟨fun h hsigned => ?_, fun hplain => ?_⟩⟩
  · exact hsigned.not_isProductionName (h.mp (hread.mpr ⟨hscalar, .inr hsigned⟩))
  · rw [hread, and_iff_right hscalar, or_iff_left hplain]

/-- Three digits behind a plus sign are read as four. -/
theorem production_name_with_sign :
    unicode? "uni+041" = some 0x41 ∧ isScalar 0x41 = true ∧ ¬IsProductionName "uni+041" 0x41 := by
  have hdigits : Denotes ['0', '4', '1'] 0x41 :=
    (natOfDigits?_eq_some_iff.mp (by decide : natOfDigits? 16 ['0', '4', '1'] = some 0x41)).2
  have hsigned : IsSystematic ['+'] "uni+041" 0x41 := ⟨_, hdigits, .inl ⟨rfl, rfl⟩⟩
  exact ⟨by decide +kernel, by decide, hsigned.not_isProductionName⟩

example : unicode? "uni0041" = some 0x41 ∧ unicode? "u+1D400" = some 0x1D400 ∧
    unicode? "u1D4001" = none := by
  decide +kernel

end GlyphName

end FontTrace
