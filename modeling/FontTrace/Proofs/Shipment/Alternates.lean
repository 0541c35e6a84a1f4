import FontTrace.Proofs.Font.Entries
import FontTrace.Proofs.Shipment.References

/-!
# FontTrace.Proofs.Shipment.Alternates

Glyphs that are shipped as alternates for a feature.  Each gets the name of a base with
a suffix and leaves a rule that puts it for the base.  The rule only comes into the font
if the base is a glyph of it, which in a run where all glyphs are alternates it hardly
ever is; and if a substitution in context has taken the name of its lookup before, the
lookup has no feature.

* `Font.Substitutes` — a feature puts one glyph for another one;
* `alternate_of_glyph?` — what a shipment commits if all glyphs are alternates;
* `substitutes_finish_iff` — the alternates of a finished font;
* `alternate_reachable_iff` — those of a run.
-/

namespace FontTrace

variable {σ : Type}

/-- A feature puts one glyph for another one: its lookup is there under the feature, and
one of its subtables has the rule. -/
def Font.Substitutes (f : Font) (feature base alternate : String) : Prop :=
  ∃ l, f.lookups.find? ("gsub_single_" ++ feature) = some l ∧ l.feature = some feature ∧
    ∃ t ∈ l.subtables, .single base alternate ∈ t.rules

/-! ## names of lookups -/

theorem plainLookup_name_ne_alternate (suffix feature : String) :
    (LookupFamily.plain.spec suffix).name ≠ "gsub_single_" ++ feature :=
  append_ne_append (by decide) (by decide) suffix feature

theorem contextLookup_name_ne_alternate (feature : String) :
    NamedLigature.contextLookup.name ≠ "gsub_single_" ++ feature :=
  append_ne_append (a := "gsub_contextchain") (by decide) (by decide) "" feature

section Entries

variable {cfg : Settings} {s : State σ} {en : RuleEntry} {feature : String}

/-- A rule of a ligature in such a lookup is a substitution in context. -/
theorem substitutionEntry_of_alternate (h : en ∈ s.ligatureEntries cfg)
    (hname : en.spec.name = "gsub_single_" ++ feature) :
    ∃ l first second, s.InContext cfg l first second ∧
      en = NamedLigature.substitutionEntry cfg l first second := by
  rcases cases_of_mem_ligatureEntries h with
    ⟨l, rfl⟩ | ⟨l, first, second, hl, rfl | rfl⟩
  · exact absurd hname (plainLookup_name_ne_alternate l.feature feature)
  · exact ⟨l, first, second, hl, rfl⟩
  · exact absurd hname (contextLookup_name_ne_alternate feature)

/-- A rule for one glyph is that of a substitution in context or of an alternate, and
the glyph is there. -/
theorem hasGlyph_of_single {base alternate : String} (h : en ∈ s.entries cfg)
    (hrule : en.rule = .single base alternate)
    (hname : en.spec.name = "gsub_single_" ++ feature) : s.font.hasGlyph base = true := by
  rcases cases_of_mem_entries h with hligature | ⟨r, rfl⟩ | ⟨r, -, hglyph, rfl⟩
  · obtain ⟨l, first, second, hl, rfl⟩ := substitutionEntry_of_alternate hligature hname
    have hrule : (NamedLigature.substitution l.shape first second l.result).rule =
        .single base alternate := hrule
    unfold NamedLigature.substitution at hrule
    split at hrule
    · cases hrule
      exact hl.hasGlyph.2
    · cases hrule
      exact hl.hasGlyph.1
    · cases hrule
  · exact absurd hname (kernLookup_name_ne feature)
  · cases hrule
    exact hglyph

end Entries

/-! ## finished fonts -/

section Finish

variable {cfg : Settings} {s : State σ} {feature base alternate : String}

/-- Behind a substitution in context, a lookup of its name has no feature. -/
theorem feature_ne_of_inContext {l : NamedLigature} {first second : String}
    (hnone : s.font.lookups.find? ("gsub_single_" ++ feature) = none)
    (hl : s.InContext cfg l first second)
    (hname : (NamedLigature.substitution l.shape first second l.result).lookup.name =
      "gsub_single_" ++ feature) {lk : Lookup}
    (hlk : ((s.entries cfg).foldl (Lookups.put cfg.scripts) s.font.lookups).find?
      ("gsub_single_" ++ feature) = some lk) : lk.feature = none := by
  have hafter : ∀ en ∈ s.entries cfg, en.spec.after = none := fun en => after_of_mem_entries
  have hsplit : s.entries cfg = s.ligatureEntries cfg ++
      (kernEntries cfg s.font (namedKerns cfg s.tables.kerns s.font) ++
        replacementEntries cfg s.font s.tables.replacements) := List.append_assoc _ _ _
  rw [hsplit] at hafter hlk
  have hbefore : ∀ en ∈ s.ligatureEntries cfg, en.spec.after = none :=
    fun en hen => hafter en (List.mem_append_left _ hen)
  -- The lookup comes from the ligatures, which are put in first.
  let en := NamedLigature.substitutionEntry cfg l first second
  have hrule : en.rule ∈ ((s.ligatureEntries cfg).foldl (Lookups.put cfg.scripts)
      s.font.lookups).rulesIn ("gsub_single_" ++ feature) en.subtable :=
    (Lookups.mem_rulesIn_foldl hbefore).mpr (.inr ⟨en, hl.mem_entries (.inl rfl), hname, rfl, rfl⟩)
  obtain ⟨lk₀, -, hlk₀, -⟩ := Lookups.exists_of_mem_rulesIn hrule
  have hfeature₀ : lk₀.feature = none := by
    rw [Lookups.find?_foldl_put_of_none cfg.scripts hnone hbefore] at hlk₀
    obtain ⟨en', hen', hname', -, hfeature⟩ :=
      spec_of_mem_foldl cfg.scripts hbefore (List.mem_of_find?_eq_some hlk₀)
    rw [key_of_find? hlk₀] at hname'
    obtain ⟨l', first', second', hl', rfl⟩ :=
      substitutionEntry_of_alternate hen' hname'.symm
    rw [hfeature, NamedLigature.substitutionEntry,
      NamedLigature.lookup_substitution hl'.2.family_ne]
    exact LigatureShape.feature_of_not_plain hl'.2.family_ne _
  rw [List.foldl_append] at hlk
  obtain ⟨lk', hlk', hfeature⟩ := Lookups.feature_foldl_put cfg.scripts hlk₀
    fun en hen => hafter en (List.mem_append_right _ hen)
  rw [hlk'] at hlk
  rw [← Option.some.inj hlk, hfeature, hfeature₀]

/-- A feature puts an alternate for a base if and only if the font has the base, and
no substitution in context goes into a lookup of that name. -/
theorem substitutes_finish_iff (e : Engine σ)
    (hnone : s.font.lookups.find? ("gsub_single_" ++ feature) = none)
    (hmem : ⟨base, feature, alternate⟩ ∈ s.tables.replacements) :
    (finish e cfg s).value.1.Substitutes feature base alternate ↔
      s.font.hasGlyph base = true ∧ ∀ l first second, s.InContext cfg l first second →
        (NamedLigature.substitution l.shape first second l.result).lookup.name ≠
          "gsub_single_" ++ feature := by
  have hafter : ∀ en ∈ s.entries cfg, en.spec.after = none := fun en => after_of_mem_entries
  have hfind := Lookups.find?_foldl_put_of_none cfg.scripts hnone hafter
  rw [Font.Substitutes, lookups_finish_eq_foldl]
  constructor
  · rintro ⟨lk, hlk, hfeature, t, ht, hrule⟩
    constructor
    · rw [hfind] at hlk
      have hrules : .single base alternate ∈ lk.rules := List.mem_flatMap.mpr ⟨t, ht, hrule⟩
      obtain ⟨en, hen, hname, hrule⟩ := ((collects_foldl cfg.scripts hafter).mem_rules
        (List.mem_of_find?_eq_some hlk)).mp hrules
      exact hasGlyph_of_single hen hrule (hname.trans (key_of_find? hlk))
    · intro l first second hl hname
      rw [feature_ne_of_inContext hnone hl hname hlk] at hfeature
      cases hfeature
  · rintro ⟨hglyph, hothers⟩
    let r : Replacement := ⟨base, feature, alternate⟩
    have hen : r.entry cfg ∈ s.entries cfg :=
      List.mem_append_right _ (List.mem_map_of_mem (List.mem_filter.mpr ⟨hmem, hglyph⟩))
    have hrule : .single base alternate ∈ ((s.entries cfg).foldl (Lookups.put cfg.scripts)
        s.font.lookups).rulesIn ("gsub_single_" ++ feature) (r.entry cfg).subtable :=
      (Lookups.mem_rulesIn_foldl hafter).mpr (.inr ⟨_, hen, rfl, rfl, rfl⟩)
    obtain ⟨lk, t, hlk, ht, -, hrule⟩ := Lookups.exists_of_mem_rulesIn hrule
    refine ⟨lk, hlk, ?_, t, ht, hrule⟩
    rw [hfind] at hlk
    obtain ⟨en, hen, hname, -, hfeature⟩ :=
      spec_of_mem_foldl cfg.scripts hafter (List.mem_of_find?_eq_some hlk)
    rw [key_of_find? hlk] at hname
    rw [hfeature]
    rcases cases_of_mem_entries hen with hligature | ⟨r, rfl⟩ | ⟨r, -, -, rfl⟩
    · obtain ⟨l, first, second, hl, rfl⟩ := substitutionEntry_of_alternate hligature hname.symm
      exact absurd hname.symm (hothers l first second hl)
    · exact absurd hname.symm (kernLookup_name_ne feature)
    · have hsame : feature = r.feature := (String.append_right_inj _).mp hname
      rw [hsame]
      rfl

end Finish

/-! ## runs -/

/-- If all glyphs are alternates, a shipment commits one under the name of a base with
the suffix, and leaves the rule for it. -/
theorem alternate_of_glyph? {cfg : Settings} {s : State σ} {k : Construct} {g : ShippedGlyph}
    {feature : String} (hfeature : cfg.otSubFeature = some feature)
    (hg : k.glyph? cfg s = some g) :
    ∃ base, g.id.name = base ++ alternateSuffix cfg feature ∧
      g.alternate = some ⟨base, feature, g.id.name⟩ := by
  obtain ⟨x, -, hx⟩ := Option.bind_eq_some_iff.mp hg
  cases x with
  | error reason => cases hx
  | ok sh =>
      unfold State.shipOutcome at hx
      dsimp only at hx
      split at hx
      · cases hx
      · split at hx
        · cases hx
        · next id alternate hid =>
          split at hx
          · cases hx
          · cases hx
            unfold identifyShipped at hid
            rw [hfeature] at hid
            obtain ⟨base, -, hbase⟩ := Option.map_eq_some_iff.mp hid
            cases hbase
            exact ⟨base, rfl, rfl⟩

/-- What a shipped glyph replaces is in the tables at the end of the run. -/
theorem alternate_mem_replacements (e : Engine σ) (engine : σ) (cfg : Settings)
    (encoding : Encoding) {records : List Record} {before after : Script} {k : Construct}
    {g : ShippedGlyph} {r : Replacement}
    (hscript : Script.ofRecords records = before ++ k :: after)
    (hg : k.glyph? cfg ((State.initial engine cfg encoding).follow e cfg before).value = some g)
    (hr : g.alternate = some r) :
    r ∈ ((State.initial engine cfg encoding).run e cfg records).value.tables.replacements := by
  have hputs := (puts_follow e cfg (State.initial engine cfg encoding)
    (Script.ofRecords records)).replacements
  have hmem :
      ((State.initial engine cfg encoding).follow e cfg before).value.commitment cfg g ∈
        (Script.ofRecords records).commitments e cfg (State.initial engine cfg encoding) := by
    rw [hscript]
    exact Script.commitment_mem hg
  rw [State.run, hputs]
  refine List.mem_append_right _ (List.mem_flatMap.mpr ⟨_, hmem, List.mem_append_left _ ?_⟩)
  rw [hr]
  exact Option.mem_toList.mpr rfl

/-- Let all glyphs be alternates for a feature.  One that is committed has the name of
a base with the suffix; and the feature puts it for the base if and only if the base is a
glyph of the finished font, and no ligature in context has its substitution in a lookup
of the name that the alternates' one has. -/
theorem alternate_reachable_iff (e : Engine σ) (engine : σ) (cfg : Settings)
    (encoding : Encoding) (records : List Record) {before after : Script} {k : Construct}
    {g : ShippedGlyph} {feature : String} (hfeature : cfg.otSubFeature = some feature)
    (hscript : Script.ofRecords records = before ++ k :: after)
    (hg : k.glyph? cfg ((State.initial engine cfg encoding).follow e cfg before).value = some g) :
    let s := ((State.initial engine cfg encoding).run e cfg records).value
    let font := (fontOf e engine cfg encoding records).value
    ∃ base, g.id.name = base ++ alternateSuffix cfg feature ∧
      (font.Substitutes feature base g.id.name ↔
        font.hasGlyph base = true ∧ ∀ l first second, s.InContext cfg l first second →
          (NamedLigature.substitution l.shape first second l.result).lookup.name ≠
            "gsub_single_" ++ feature) := by
  intro s font
  obtain ⟨base, hname, halternate⟩ := alternate_of_glyph? hfeature hg
  refine ⟨base, hname, ?_⟩
  have hnone : s.font.lookups.find? ("gsub_single_" ++ feature) = none :=
    Lookups.find?_eq_none_iff.mpr (not_mem_lookups_follow e engine cfg encoding _
      (isSubstitutionName_alternate feature))
  have hmem := alternate_mem_replacements e engine cfg encoding hscript hg halternate
  have hglyph : font.hasGlyph base = s.font.hasGlyph base :=
    congrFun (sameRoster_finish e cfg s).hasGlyph base
  rw [hglyph]
  exact substitutes_finish_iff e hnone hmem

/-- The word space is there as a font parameter gives it, so its alternate is reached. -/
theorem alternate_reachable_of_space :
    let cfg : Settings := { setMathDefaults := false, otSubFeature := some "smcp" }
    let records : List Record :=
      [⟨"picture", none, "\"p\""⟩, ⟨"fontdimen", none, "10>> 2"⟩, ⟨":", none, "30"⟩,
        ⟨"shipout", none, "10>> 32>> 0>> 65>> 70>> 2>> 0>> 0>> 0>> 0>> 0"⟩,
        ⟨"pic", none, "\"p\""⟩]
    let script := Script.ofRecords records
    let s := ((State.initial () cfg .unicode).follow Engine.basic cfg (script.take 2)).value
    let font := (fontOf Engine.basic () cfg .unicode records).value
    ∃ k g, script = script.take 2 ++ k :: script.drop 3 ∧ k.glyph? cfg s = some g ∧
      g.id.name = "space" ++ ".smcp" ∧ font.Substitutes "smcp" "space" "space.smcp" := by
  intro cfg records script s font
  have hrun : (script[2]?.bind (·.glyph? cfg s)).map (·.id.name) = some "space.smcp" ∧
      font.hasGlyph "space" = true ∧
      ((State.initial () cfg .unicode).run Engine.basic cfg
        records).value.tables.ligatures = [] := by
    decide +kernel
  obtain ⟨hname, hspace, hnone⟩ := hrun
  obtain ⟨g, hg, hname⟩ := Option.map_eq_some_iff.mp hname
  obtain ⟨k, hk, hg⟩ := Option.bind_eq_some_iff.mp hg
  have hscript : script = script.take 2 ++ k :: script.drop 3 := by
    obtain ⟨hlength, rfl⟩ := List.getElem?_eq_some_iff.mp hk
    rw [← List.drop_eq_getElem_cons hlength, List.take_append_drop]
  obtain ⟨base, hbase, hiff⟩ :=
    alternate_reachable_iff Engine.basic () cfg .unicode records rfl hscript hg
  obtain rfl : base = "space" :=
    (String.append_left_inj _).mp (hbase.symm.trans (hname : _ = "space" ++ ".smcp"))
  refine ⟨k, g, hscript, hg, hname, ?_⟩
  rw [← hname]
  refine hiff.mpr ⟨hspace, fun l first second hl => ?_⟩
  obtain ⟨⟨r, hr, -⟩, -⟩ := hl
  rw [hnone] at hr
  cases hr

/-- The alternate of a letter that is shipped as such only.  It is in the font, but no
feature puts it for the letter. -/
theorem alternate_of_letter_unreachable :
    let cfg : Settings := { setMathDefaults := false, otSubFeature := some "smcp" }
    let records : List Record :=
      [⟨"picture", none, "\"p\""⟩,
        ⟨"shipout", none, "10>> 65>> 0>> 65>> 70>> 2>> 0>> 0>> 0>> 0>> 0"⟩,
        ⟨"pic", none, "\"p\""⟩]
    let script := Script.ofRecords records
    let s := ((State.initial () cfg .unicode).follow Engine.basic cfg (script.take 1)).value
    let font := (fontOf Engine.basic () cfg .unicode records).value
    (script[1]?.bind (·.glyph? cfg s)).map (·.id.name) = some ("A" ++ ".smcp") ∧
      font.hasGlyph "A.smcp" = true ∧ ¬font.Substitutes "smcp" "A" "A.smcp" := by
  intro cfg records script s font
  have hrun : (script[1]?.bind (·.glyph? cfg s)).map (·.id.name) = some ("A" ++ ".smcp") ∧
      font.hasGlyph "A.smcp" = true ∧ font.lookups = [] := by
    decide +kernel
  obtain ⟨hname, hglyph, hnone⟩ := hrun
  refine ⟨hname, hglyph, ?_⟩
  rintro ⟨l, hl, -⟩
  rw [hnone] at hl
  cases hl

end FontTrace
