import FontTrace.Proofs.Font.Designation

/-!
# FontTrace.Proofs.Kerning.Skew

Kerns against the skew character.  They are told by the code of their second operand,
which for a string is that of its first character.  But the glyph that an operand stands
for goes by names everywhere else, and a string may stand for another glyph than its
first character does.

* `Mistaken`, `Missed` — the operands that are told wrongly, either way;
* `name_ne_iff_meansOther` — what a string stands for instead of its first character;
* `skew_kerns_by_name_iff` — the kerns that are taken for accents are those against the
  skew character if and only if there are no such operands.
-/

namespace FontTrace

/-! ## operands -/

/-- Whether an operand names the glyph of the skew character. -/
def NamesSkew (cfg : Settings) (f : Font) (c : Int) (operand : CharRef) : Prop :=
  f.operandName cfg operand = f.operandName cfg (.code c)

instance (cfg : Settings) (f : Font) (c : Int) (operand : CharRef) :
    Decidable (NamesSkew cfg f c operand) :=
  inferInstanceAs (Decidable (f.operandName cfg operand = f.operandName cfg (.code c)))

/-- A string that starts with the character `c` stands for something else: a Unicode
value, a hexadecimal code, a glyph of the font or a production name, and with another
name in each case. -/
def MeansOther (f : Font) (c : Int) (text : String) : Prop :=
  match Font.unicodeOperand? text.toList with
  | some u => GlyphName.ofUnicode u ≠ f.nameAt c
  | none =>
    match Font.hexOperand? text.toList with
    | some code => f.nameAt code ≠ f.nameAt c
    | none =>
      if f.hasGlyph text then text ≠ f.nameAt c
      else ∃ u ∈ GlyphName.unicode? text, f.nameAt u ≠ f.nameAt c

/-- An operand that is taken for the skew character and names another glyph. -/
def Mistaken (cfg : Settings) (f : Font) (c : Int) (operand : CharRef) : Prop :=
  cfg.generalizedCode = true ∧
    ∃ text, operand = .text text ∧ operand.code? = some c ∧ MeansOther f c text

/-- An operand that names the glyph of the skew character and is not taken for it. -/
def Missed (cfg : Settings) (f : Font) (c : Int) (operand : CharRef) : Prop :=
  operand.code? ≠ some c ∧
    (Designation.ofOperand cfg.generalizedCode operand).name f = f.nameAt c

section Operands

variable {cfg : Settings} {f : Font} {c : Int} {operand : CharRef}

theorem namesSkew_iff :
    NamesSkew cfg f c operand ↔
      (Designation.ofOperand cfg.generalizedCode operand).name f = f.nameAt c := by
  rw [NamesSkew, operandName_eq, operandName_eq]
  rfl

/-- A string falls back on its first character. -/
theorem Designation.ofFirst_of_code {text : String} (h : (CharRef.text text).code? = some c) :
    Designation.ofFirst text = .slot c := by
  unfold Designation.ofFirst
  change text.toList.head?.map (fun first => (first.toNat : Int)) = some c at h
  cases hlist : text.toList with
  | nil =>
      rw [hlist] at h
      cases h
  | cons first rest =>
      rw [hlist] at h
      rw [← Option.some.inj h]

theorem name_ne_iff_meansOther {text : String} (h : (CharRef.text text).code? = some c) :
    (Designation.ofOperand true (.text text)).name f ≠ f.nameAt c ↔ MeansOther f c text := by
  unfold Designation.ofOperand MeansOther
  dsimp only
  rw [if_pos rfl]
  cases Font.unicodeOperand? text.toList with
  | some u => exact Iff.rfl
  | none =>
      cases Font.hexOperand? text.toList with
      | some code => exact Iff.rfl
      | none =>
          by_cases hglyph : f.hasGlyph text = true
          · simp [Designation.name, hglyph]
          · cases GlyphName.unicode? text with
            | some u => simp [Designation.name, hglyph]
            | none => simp [Designation.name, hglyph, Designation.ofFirst_of_code h]

/-- Only a string can be mistaken, and only if it need not be its first character. -/
theorem mistaken_iff :
    Mistaken cfg f c operand ↔ operand.code? = some c ∧ ¬NamesSkew cfg f c operand := by
  rw [namesSkew_iff]
  constructor
  · rintro ⟨hgeneralized, text, rfl, hcode, hother⟩
    rw [hgeneralized]
    exact ⟨hcode, (name_ne_iff_meansOther hcode).mpr hother⟩
  · rintro ⟨hcode, hname⟩
    cases operand with
    | code n => exact absurd (congrArg f.nameAt (Option.some.inj hcode)) hname
    | text text =>
        cases hgeneralized : cfg.generalizedCode with
        | false =>
            rw [hgeneralized, Designation.ofOperand, if_neg Bool.false_ne_true, hcode] at hname
            exact absurd rfl hname
        | true =>
            rw [hgeneralized] at hname
            exact ⟨hgeneralized, text, rfl, hcode, (name_ne_iff_meansOther hcode).mp hname⟩

theorem missed_iff :
    Missed cfg f c operand ↔ operand.code? ≠ some c ∧ NamesSkew cfg f c operand := by
  rw [Missed, namesSkew_iff]

end Operands

/-! ## kerns -/

theorem isSkew_iff {c : Int} {p : KernPair CharRef} :
    isSkew (some c) p = true ↔ p.right.code? = some c := by
  simp [isSkew]

/-- A list is divided in the same way by two tests if and only if these agree on it. -/
theorem filters_eq_partition_iff {α : Type} {p q : α → Bool} {as : List α} :
    (as.filter p, as.filter fun a => !p a) = as.partition q ↔ ∀ a ∈ as, p a = q a := by
  rw [List.partition_eq_filter_filter, Prod.mk.injEq]
  constructor
  · rintro ⟨htrue, -⟩ a ha
    have hmem : a ∈ as.filter p ↔ a ∈ as.filter q := by rw [htrue]
    rw [List.mem_filter, List.mem_filter, and_iff_right ha, and_iff_right ha] at hmem
    exact Bool.eq_iff_iff.mpr hmem
  · intro h
    refine ⟨List.filter_congr h, List.filter_congr fun a ha => ?_⟩
    rw [Function.comp_apply, h a ha]

/-- Whatever kerns there are, with or without generalized codes: a kern becomes an accent
though it is not against the skew character if and only if its second operand is
mistaken, and stays though it is if and only if that is missed.  So the kerns are divided
as they should be, in their order, if and only if no operand is mistaken or missed. -/
theorem skew_kerns_by_name_iff (cfg : Settings) (f : Font) (kerns : List (KernPair CharRef))
    {c : Int} (hc : cfg.accentCode? = some c) :
    let taken := kerns.filter (isSkew cfg.accentCode?)
    let kept := kerns.filter fun p => !isSkew cfg.accentCode? p
    (∀ p ∈ kerns, p ∈ taken ∧ ¬NamesSkew cfg f c p.right ↔ Mistaken cfg f c p.right) ∧
    (∀ p ∈ kerns, p ∈ kept ∧ NamesSkew cfg f c p.right ↔ Missed cfg f c p.right) ∧
    ((taken, kept) = kerns.partition (fun p => NamesSkew cfg f c p.right) ↔
      ∀ p ∈ kerns, ¬Mistaken cfg f c p.right ∧ ¬Missed cfg f c p.right) := by
  intro taken kept
  have htaken : ∀ p ∈ kerns, p ∈ taken ↔ p.right.code? = some c := by
    intro p hp
    rw [List.mem_filter, and_iff_right hp, hc, isSkew_iff]
  have hkept : ∀ p ∈ kerns, p ∈ kept ↔ p.right.code? ≠ some c := by
    intro p hp
    rw [List.mem_filter, and_iff_right hp, hc, Bool.not_eq_true', ← Bool.not_eq_true,
      isSkew_iff]
  refine ⟨fun p hp => ?_, fun p hp => ?_, ?_⟩
  · rw [htaken p hp, mistaken_iff]
  · rw [hkept p hp, missed_iff]
  · refine filters_eq_partition_iff.trans (forall₂_congr fun p hp => ?_)
    rw [hc, Bool.eq_iff_iff, isSkew_iff, decide_eq_true_iff, mistaken_iff, missed_iff]
    tauto

/-- A kern against the skew character by its code, and one against a letter. -/
theorem skew_kerns_by_name_of_letters :
    let cfg : Settings := { setTopAccent := true, skewchar := 127, generalizedCode := true }
    let f := Font.initial cfg .unicode
    let accent : KernPair CharRef := ⟨.text "A", .code 127, 30⟩
    let kern : KernPair CharRef := ⟨.text "A", .text "B", 20⟩
    cfg.accentCode? = some 127 ∧
      ([accent], [kern]) = [accent, kern].partition fun p => NamesSkew cfg f 127 p.right := by
  intro cfg f accent kern
  have hc : cfg.accentCode? = some 127 := rfl
  have hdivided : ([accent, kern].filter (isSkew cfg.accentCode?),
      [accent, kern].filter fun p => !isSkew cfg.accentCode? p) = ([accent], [kern]) := by
    decide +kernel
  have htold : ∀ p ∈ [accent, kern], ¬Mistaken cfg f 127 p.right ∧ ¬Missed cfg f 127 p.right := by
    simp only [mistaken_iff, missed_iff]
    decide +kernel
  refine ⟨hc, ?_⟩
  rw [← hdivided]
  exact (skew_kerns_by_name_iff cfg f [accent, kern] hc).2.2.mpr htold

/-- A letter by its hexadecimal code, which starts with the skew character, is taken for it;
and the skew character by its Unicode value is not. -/
theorem skew_kerns_by_code :
    let cfg (skewchar : Int) : Settings :=
      { setTopAccent := true, skewchar := skewchar, generalizedCode := true }
    let f (skewchar : Int) := Font.initial (cfg skewchar) .unicode
    let kern (right : String) : KernPair CharRef := ⟨.text "B", .text right, 20⟩
    isSkew (cfg 48).accentCode? (kern "0x0041") = true ∧
      (f 48).operandName (cfg 48) (.text "0x0041") = "A" ∧
      (f 48).operandName (cfg 48) (.code 48) = "zero" ∧
      isSkew (cfg 127).accentCode? (kern "U+007F") = false ∧
      NamesSkew (cfg 127) (f 127) 127 (.text "U+007F") := by
  decide +kernel

end FontTrace
