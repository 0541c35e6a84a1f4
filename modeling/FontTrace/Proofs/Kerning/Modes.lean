import FontTrace.Proofs.Kerning.Compaction
import FontTrace.Proofs.Kerning.Finish

/-!
# FontTrace.Proofs.Kerning.Modes

Kerning pair by pair and kerning by classes.  The settings choose one of them
when the font is finished; everything before is the same.

* `kernOf?_eq_some_iff` — what a list without repeated pairs says about two glyphs;
* `kernRules_fontOf` — the rules for kerning of a font, either way;
* `kerning_modes_agree_iff` — both say the same about all glyphs of the font, and
  about all names if and only if kerns are between glyphs of the font.
-/

namespace FontTrace

variable {σ : Type}

/-- The settings with kerning by classes or pair by pair. -/
def Settings.withClasses (cfg : Settings) (classes : Bool) : Settings :=
  { cfg with kerningClasses := classes }

/-! ## pairs -/

namespace KernClasses

/-- What a list of pairs says about two glyphs is said by one of the pairs. -/
theorem lastKern_cases (pairs : List (KernPair String)) (left right : String) :
    (lastKern pairs left right = 0 ∧ ∀ p ∈ pairs, ¬(p.left = left ∧ p.right = right)) ∨
      ∃ p ∈ pairs, p.left = left ∧ p.right = right ∧ lastKern pairs left right = p.kern := by
  unfold lastKern
  cases hlast : (pairs.filter fun p => p.left = left ∧ p.right = right).getLast? with
  | none =>
      refine .inl ⟨rfl, fun p hp hpair => ?_⟩
      have hnil := List.filter_eq_nil_iff.mp (List.getLast?_eq_none_iff.mp hlast) p hp
      exact hnil (decide_eq_true hpair)
  | some p =>
      have hp := List.mem_filter.mp (List.mem_of_getLast? hlast)
      obtain ⟨hleft, hright⟩ := of_decide_eq_true hp.2
      exact .inr ⟨p, hp.1, hleft, hright, rfl⟩

/-- What a list without repeated pairs says about two glyphs, if it is not zero. -/
theorem kernOf?_eq_some_iff {pairs : List (KernPair String)}
    (hdistinct : (pairs.map fun p => (p.left, p.right)).Nodup) {left right : String} {kern : Int}
    (hkern : kern ≠ 0) : kernOf? pairs left right = some kern ↔ ⟨left, right, kern⟩ ∈ pairs := by
  rcases lastKern_cases pairs left right with ⟨hzero, hnone⟩ | ⟨p, hp, rfl, rfl, hlast⟩
  · constructor
    · intro h
      unfold kernOf? at h
      split at h
      · exact absurd ((Option.some.inj h).symm.trans hzero) hkern
      · cases h
    · intro h
      exact absurd ⟨rfl, rfl⟩ (hnone _ h)
  · have hkernOf : kernOf? pairs p.left p.right = some p.kern := by
      rw [kernOf?, if_pos ⟨⟨p, hp, rfl⟩, ⟨p, hp, rfl⟩⟩, hlast]
    rw [hkernOf, Option.some.injEq]
    constructor
    · rintro rfl
      exact hp
    · intro h
      exact congrArg KernPair.kern (List.inj_on_of_nodup_map hdistinct hp h rfl)

end KernClasses

theorem pair_mem_filterMap {f : Font} {pairs : List (KernPair String)} {left right : String}
    {kern : Int} : .pair left right kern ∈ pairs.filterMap (pairRule? f) ↔
      ⟨left, right, kern⟩ ∈ pairs ∧ f.hasGlyph left = true ∧ f.hasGlyph right = true := by
  rw [List.mem_filterMap]
  constructor
  · rintro ⟨p, hp, hrule⟩
    unfold pairRule? at hrule
    split at hrule
    · next hboth =>
      cases hrule
      exact ⟨hp, by simpa using hboth⟩
    · cases hrule
  · rintro ⟨hp, hboth⟩
    exact ⟨_, hp, if_pos (by simpa using hboth)⟩

/-! ## both ways -/

/-- The kerns of a trace, with the names of their glyphs. -/
def kernsOf (e : Engine σ) (engine : σ) (cfg : Settings) (encoding : Encoding)
    (records : List Record) : List (KernPair String) :=
  let s := ((State.initial engine cfg encoding).run e cfg records).value
  namedKerns cfg s.tables.kerns s.font

/-- The rules for kerning of a font.  Only finishing it depends on the choice, so
the kerns are the same. -/
theorem kernRules_fontOf (e : Engine σ) (engine : σ) (cfg : Settings) (encoding : Encoding)
    (records : List Record) (classes : Bool) :
    let kerns := kernsOf e engine cfg encoding records
    (fontOf e engine (cfg.withClasses classes) encoding records).value.kernRules cfg =
      if classes then
        if kerns = [] then [] else [.kerningClasses (KernClasses.ofPairs kerns).compact]
      else
        (kerns.filterMap (pairRule?
          ((State.initial engine cfg encoding).run e cfg records).value.font)).foldl addNew [] :=
  -- a replay with these settings is, by computation, the one with the others
  kernRules_finish e (cfg.withClasses classes) (kernRules_run e engine cfg encoding records)

/-- The rules of a font that is kerned pair by pair. -/
theorem pair_mem_kernRules (e : Engine σ) (engine : σ) (cfg : Settings) (encoding : Encoding)
    (records : List Record) {left right : String} {kern : Int} :
    let f := (fontOf e engine (cfg.withClasses false) encoding records).value
    .pair left right kern ∈ f.kernRules cfg ↔
      ⟨left, right, kern⟩ ∈ kernsOf e engine cfg encoding records ∧
        f.hasGlyph left = true ∧ f.hasGlyph right = true := by
  intro f
  have hglyphs : f.hasGlyph =
      ((State.initial engine cfg encoding).run e cfg records).value.font.hasGlyph :=
    (sameRoster_finish e (cfg.withClasses false) _).hasGlyph
  rw [kernRules_fontOf, if_neg Bool.false_ne_true, mem_foldl_addNew, pair_mem_filterMap, hglyphs]
  simp

/-- What the table of a font says that is kerned by classes. -/
theorem exists_kerningClasses_iff (e : Engine σ) (engine : σ) (cfg : Settings)
    (encoding : Encoding) (records : List Record)
    (hdistinct : ((kernsOf e engine cfg encoding records).map fun p => (p.left, p.right)).Nodup)
    {left right : String} {kern : Int} (hkern : kern ≠ 0) :
    (∃ t, (fontOf e engine (cfg.withClasses true) encoding records).value.kernRules cfg =
      [.kerningClasses t] ∧ t.offset? left right = some kern) ↔
      ⟨left, right, kern⟩ ∈ kernsOf e engine cfg encoding records := by
  have hoffset : (KernClasses.ofPairs (kernsOf e engine cfg encoding records)).compact.offset?
      left right = some kern ↔ ⟨left, right, kern⟩ ∈ kernsOf e engine cfg encoding records := by
    rw [(KernClasses.wellFormed_ofPairs _).offset?_compact, KernClasses.offset?_ofPairs,
      KernClasses.kernOf?_eq_some_iff hdistinct hkern]
  rw [kernRules_fontOf, if_pos rfl, ← hoffset]
  split
  · next hempty =>
    rw [hoffset, hempty]
    simp
  · constructor
    · rintro ⟨t, ht, h⟩
      cases ht
      exact h
    · exact fun h => ⟨_, rfl, h⟩

/-- Let no two glyphs be kerned twice.  About glyphs of the font, the pairs and
the classes say the same.  They say the same about all names if and only if all
kerns that are not zero are between glyphs of the font: other kerns are left out
of the pairs, but not of the classes. -/
theorem kerning_modes_agree_iff (e : Engine σ) (engine : σ) (cfg : Settings)
    (encoding : Encoding) (records : List Record)
    (hdistinct : ((kernsOf e engine cfg encoding records).map fun p => (p.left, p.right)).Nodup) :
    let font (classes : Bool) := (fontOf e engine (cfg.withClasses classes) encoding records).value
    let inPairs (left right : String) (kern : Int) : Prop :=
      .pair left right kern ∈ (font false).kernRules cfg
    let inClasses (left right : String) (kern : Int) : Prop :=
      ∃ t, (font true).kernRules cfg = [.kerningClasses t] ∧ t.offset? left right = some kern
    let glyphs (left right : String) : Prop :=
      (font false).hasGlyph left = true ∧ (font false).hasGlyph right = true
    (∀ left right kern, kern ≠ 0 →
      (inPairs left right kern ↔ inClasses left right kern ∧ glyphs left right)) ∧
    ((∀ left right kern, kern ≠ 0 → (inPairs left right kern ↔ inClasses left right kern)) ↔
      ∀ p ∈ kernsOf e engine cfg encoding records, p.kern ≠ 0 → glyphs p.left p.right) := by
  intro font inPairs inClasses glyphs
  have hpairs : ∀ left right kern, inPairs left right kern ↔
      ⟨left, right, kern⟩ ∈ kernsOf e engine cfg encoding records ∧ glyphs left right :=
    fun _ _ _ => pair_mem_kernRules e engine cfg encoding records
  have hclasses : ∀ left right kern, kern ≠ 0 → (inClasses left right kern ↔
      ⟨left, right, kern⟩ ∈ kernsOf e engine cfg encoding records) :=
    fun _ _ _ hkern => exists_kerningClasses_iff e engine cfg encoding records hdistinct hkern
  refine ⟨?_, ?_, ?_⟩
  · intro left right kern hkern
    rw [hpairs, hclasses left right kern hkern]
  · intro hagree p hp hkern
    have hin := (hagree p.left p.right p.kern hkern).mpr ((hclasses _ _ _ hkern).mpr hp)
    exact ((hpairs _ _ _).mp hin).2
  · intro hglyphs left right kern hkern
    rw [hpairs, hclasses left right kern hkern]
    exact ⟨fun h => h.1, fun h => ⟨h, hglyphs _ h hkern⟩⟩

/-- A font of three letters, the first of which is kerned against the others. -/
theorem kerning_modes_agree_on_letters :
    let box (code : String) : Record :=
      ⟨"shipout", none, "10>> " ++ code ++ ">> 0>> 5>> 7>> 0>> 0>> 0>> 0>> 0>> 0"⟩
    let pic : Record := ⟨"pic", none, "\"p\""⟩
    let records : List Record :=
      [⟨"picture", none, "\"p\""⟩, box "65", pic, box "66", pic, box "67", pic,
        ⟨"ligtable", none, "10>> \"A\""⟩, ⟨":", none, "\"B\""⟩, ⟨"kern", none, "1>> \"C\""⟩,
        ⟨"kern", none, "2"⟩]
    let kerns := kernsOf Engine.basic () {} .unicode records
    let font (classes : Bool) :=
      (fontOf Engine.basic () (Settings.withClasses {} classes) .unicode records).value
    (kerns.map fun p => (p.left, p.right)).Nodup ∧
    kerns = [⟨"A", "B", 10⟩, ⟨"A", "C", 20⟩] ∧
    ∀ left right kern, kern ≠ 0 → (.pair left right kern ∈ (font false).kernRules {} ↔
      ∃ t, (font true).kernRules {} = [.kerningClasses t] ∧ t.offset? left right = some kern) := by
  intro box pic records kerns font
  have hrun : kerns = [⟨"A", "B", 10⟩, ⟨"A", "C", 20⟩] ∧
      ∀ p ∈ kerns, (font false).hasGlyph p.left = true ∧ (font false).hasGlyph p.right = true := by
    decide +kernel
  obtain ⟨hkerns, hglyphs⟩ := hrun
  have hdistinct : (kerns.map fun p => (p.left, p.right)).Nodup := by
    rw [hkerns]
    decide
  obtain ⟨-, hagree⟩ := kerning_modes_agree_iff Engine.basic () {} .unicode records hdistinct
  exact ⟨hdistinct, hkerns, hagree.mpr fun p hp _ => hglyphs p hp⟩

/-- A font of two letters, the first of which is kerned against the other and
against one that the font does not have: only the classes kern it. -/
theorem classes_kern_missing_glyph :
    let box (code : String) : Record :=
      ⟨"shipout", none, "10>> " ++ code ++ ">> 0>> 5>> 7>> 0>> 0>> 0>> 0>> 0>> 0"⟩
    let pic : Record := ⟨"pic", none, "\"p\""⟩
    let records : List Record :=
      [⟨"picture", none, "\"p\""⟩, box "65", pic, box "66", pic,
        ⟨"ligtable", none, "10>> \"A\""⟩, ⟨":", none, "\"B\""⟩, ⟨"kern", none, "1>> \"C\""⟩,
        ⟨"kern", none, "2"⟩]
    let kerns := kernsOf Engine.basic () {} .unicode records
    let font (classes : Bool) :=
      (fontOf Engine.basic () (Settings.withClasses {} classes) .unicode records).value
    (kerns.map fun p => (p.left, p.right)).Nodup ∧ (font true).hasGlyph "C" = false ∧
    (font false).kernRules {} = [.pair "A" "B" 10] ∧
    (font true).kernRules {} = [.kerningClasses ⟨[["A"]], [["B"], ["C"]], [[10, 20]]⟩] ∧
    ¬∀ left right kern, kern ≠ 0 → (.pair left right kern ∈ (font false).kernRules {} ↔
      ∃ t, (font true).kernRules {} = [.kerningClasses t] ∧ t.offset? left right = some kern) := by
  intro box pic records kerns font
  have hrun : (kerns.map fun p => (p.left, p.right)).Nodup ∧ (font true).hasGlyph "C" = false ∧
      (font false).kernRules {} = [.pair "A" "B" 10] ∧
      (font true).kernRules {} =
        [.kerningClasses ⟨[["A"]], [["B"], ["C"]], [[10, 20]]⟩] := by
    decide +kernel
  obtain ⟨hdistinct, hmissing, hpairs, hclasses⟩ := hrun
  refine ⟨hdistinct, hmissing, hpairs, hclasses, fun h => ?_⟩
  have hkern := (h "A" "C" 20 (by decide)).mpr ⟨_, hclasses, by decide⟩
  rw [hpairs] at hkern
  exact absurd hkern (by decide)

end FontTrace
