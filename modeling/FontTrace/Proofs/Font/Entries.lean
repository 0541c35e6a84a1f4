import FontTrace.Proofs.Kerning.Finish

/-!
# FontTrace.Proofs.Font.Entries

All rules of a finished font.  Three kinds of tables become lookups, and glyphs do not
come or go meanwhile; so finishing a font puts one list of rules into the lookups that
the replay left, which are for marks only.

* `State.entries` — the rules: ligatures, then kerns, then alternates;
* `lookups_finish_eq_foldl` — a finished font has its lookups by putting them in;
* `mem_rulesIn_foldl`, `find?_foldl_put_of_none`, `feature_foldl_put` — what is found
  under a name behind them;
* `State.InContext` — the ligatures that take a context;
* `name_of_mem_lookups_follow` — the lookups that a replay makes.
-/

namespace FontTrace

variable {σ : Type}

/-! ## lookups behind rules that were put in -/

namespace Lookups

section Put

variable {scripts : List ScriptLanguages} {entries : List RuleEntry} {ls ls' : Lookups}
  {name : String}

/-- What is found under a name depends on what was found under it before. -/
theorem find?_foldl_put_congr (h : ls.find? name = ls'.find? name)
    (hentries : ∀ en ∈ entries, en.spec.after = none) :
    (entries.foldl (put scripts) ls).find? name =
      (entries.foldl (put scripts) ls').find? name := by
  induction entries generalizing ls ls' with
  | nil => exact h
  | cons en entries ih =>
      refine ih ?_ fun en' hen' => hentries en' (List.mem_cons_of_mem en hen')
      have hafter := hentries en List.mem_cons_self
      rw [find?_put scripts ls hafter, find?_put scripts ls' hafter]
      split
      · next hname => rw [hname, h]
      · exact h

/-- A name that was not there before stands for what was put in. -/
theorem find?_foldl_put_of_none (scripts : List ScriptLanguages) (h : ls.find? name = none)
    (hentries : ∀ en ∈ entries, en.spec.after = none) :
    (entries.foldl (put scripts) ls).find? name = (entries.foldl (put scripts) []).find? name :=
  find?_foldl_put_congr h hentries

/-- A lookup that is there keeps its feature. -/
theorem feature_foldl_put (scripts : List ScriptLanguages) {l : Lookup}
    (h : ls.find? name = some l) (hentries : ∀ en ∈ entries, en.spec.after = none) :
    ∃ l', (entries.foldl (put scripts) ls).find? name = some l' ∧ l'.feature = l.feature := by
  induction entries generalizing ls l with
  | nil => exact ⟨l, h, rfl⟩
  | cons en entries ih =>
      have hafter := hentries en List.mem_cons_self
      obtain ⟨l₁, hfind, hfeature⟩ : ∃ l₁, (ls.put scripts en).find? name = some l₁ ∧
          l₁.feature = l.feature := by
        rw [find?_put scripts ls hafter]
        split
        · next hname =>
          rw [hname, h]
          exact ⟨_, rfl, rfl⟩
        · exact ⟨l, h, rfl⟩
      obtain ⟨l', hfind', hfeature'⟩ :=
        ih hfind fun en' hen' => hentries en' (List.mem_cons_of_mem en hen')
      exact ⟨l', hfind', hfeature'.trans hfeature⟩

/-- A subtable has the rules that it had, and those that were put into it. -/
theorem mem_rulesIn_foldl (hentries : ∀ en ∈ entries, en.spec.after = none)
    {subtable : String} {rule : Rule} :
    rule ∈ (entries.foldl (put scripts) ls).rulesIn name subtable ↔
      rule ∈ ls.rulesIn name subtable ∨
        ∃ en ∈ entries, en.spec.name = name ∧ en.subtable = subtable ∧ en.rule = rule := by
  induction entries generalizing ls with
  | nil => simp
  | cons en entries ih =>
      rw [List.foldl_cons, ih fun en' hen' => hentries en' (List.mem_cons_of_mem en hen'),
        rulesIn_put scripts ls (hentries en List.mem_cons_self)]
      simp only [List.mem_cons, exists_eq_or_imp]
      split
      · next hplace => simp only [mem_addNew, hplace, true_and, or_assoc, eq_comm]
      · next hplace =>
        have hother : ¬(en.spec.name = name ∧ en.subtable = subtable ∧ en.rule = rule) :=
          fun h => hplace ⟨h.1, h.2.1⟩
        rw [or_iff_right hother]

/-- Putting rules in makes no lookups but theirs. -/
theorem mem_names_foldl_put (h : name ∈ (entries.foldl (put scripts) ls).names) :
    name ∈ ls.names ∨ ∃ en ∈ entries, en.spec.name = name := by
  induction entries generalizing ls with
  | nil => exact .inl h
  | cons en entries ih =>
      rcases ih h with hput | ⟨en', hen', hname⟩
      · rcases mem_names_changeSubtable hput with hold | rfl
        · exact .inl hold
        · exact .inr ⟨en, List.mem_cons_self, rfl⟩
      · exact .inr ⟨en', List.mem_cons_of_mem en hen', hname⟩

theorem find?_eq_none_iff : ls.find? name = none ↔ name ∉ ls.names := by
  rw [find?, List.find?_eq_none, names, List.mem_map, not_exists]
  simp only [beq_iff_eq, not_and]

/-- A rule of a subtable is in a lookup of the name. -/
theorem exists_of_mem_rulesIn {subtable : String} {rule : Rule}
    (h : rule ∈ ls.rulesIn name subtable) :
    ∃ l t, ls.find? name = some l ∧ t ∈ l.subtables ∧ t.name = subtable ∧ rule ∈ t.rules := by
  unfold rulesIn at h
  cases hl : ls.find? name with
  | none =>
      rw [hl] at h
      cases h
  | some l =>
      rw [hl, Option.bind_some] at h
      cases ht : l.subtable? subtable with
      | none =>
          rw [ht] at h
          cases h
      | some t =>
          rw [ht] at h
          exact ⟨l, t, rfl, List.mem_of_find?_eq_some ht, key_of_find? ht, h⟩

end Put

end Lookups

/-! ## the rules of a state -/

/-- The rules for kerning that named kerns make. -/
def kernEntries (cfg : Settings) (f : Font) (kerns : List (KernPair String)) : List RuleEntry :=
  if cfg.kerningClasses then
    if kerns = [] then [] else [kernEntry cfg (.kerningClasses (KernClasses.ofPairs kerns).compact)]
  else (kerns.filterMap (pairRule? f)).map (kernEntry cfg)

/-- The rule of an alternate. -/
def Replacement.entry (cfg : Settings) (r : Replacement) : RuleEntry :=
  let spec := alternateLookup r.feature
  ⟨spec, subtableName spec.subtableBase cfg.subtableIndex, .single r.glyph r.replacement⟩

/-- The rules of the alternates of glyphs that a font has. -/
def replacementEntries (cfg : Settings) (f : Font) (rs : List Replacement) : List RuleEntry :=
  (rs.filter fun r => f.hasGlyph r.glyph).map (Replacement.entry cfg)

/-- The rules of the ligatures of a state. -/
def State.ligatureEntries (cfg : Settings) (s : State σ) : List RuleEntry :=
  s.tables.ligatures.flatMap (LigatureRule.entries cfg s.font)

/-- The rules that finishing a font puts into its lookups. -/
def State.entries (cfg : Settings) (s : State σ) : List RuleEntry :=
  s.ligatureEntries cfg ++ kernEntries cfg s.font (namedKerns cfg s.tables.kerns s.font) ++
    replacementEntries cfg s.font s.tables.replacements

/-! ## putting them in -/

theorem lookups_addPairs (cfg : Settings) (pairs : List (KernPair String)) (f : Font) :
    (pairs.foldlM (addPair cfg) f).value.lookups =
      ((pairs.filterMap (pairRule? f)).map (kernEntry cfg)).foldl (Lookups.put cfg.scripts)
        f.lookups := by
  rw [value_foldlM]
  induction pairs generalizing f with
  | nil => rfl
  | cons p pairs ih =>
      have hroster : pairRule? (addPair cfg f p).value = pairRule? f := by
        unfold addPair
        split <;> rfl
      rw [List.foldl_cons, ih, hroster]
      unfold addPair
      by_cases hboth : (f.hasGlyph p.left && f.hasGlyph p.right) = true
      · have hrule : pairRule? f p = some (.pair p.left p.right p.kern) := if_pos hboth
        rw [if_pos hboth, List.filterMap_cons_some hrule]
        rfl
      · have hrule : pairRule? f p = none := if_neg hboth
        rw [if_neg hboth, List.filterMap_cons_none hrule]
        rfl

theorem lookups_buildKerning (cfg : Settings) (kerns : List (KernPair CharRef)) (f : Font) :
    (buildKerning cfg kerns f).value.lookups =
      (kernEntries cfg f (namedKerns cfg kerns f)).foldl (Lookups.put cfg.scripts) f.lookups := by
  unfold buildKerning kernEntries namedKerns
  dsimp only
  cases hkerns : kerns.filter fun p => !isSkew cfg.accentCode? p with
  | nil => simp
  | cons p rest =>
      rw [if_neg (by simp), Noted.value_bind, value_mapM]
      split
      · rw [if_neg (by simp)]
        rfl
      · exact lookups_addPairs cfg _ f

theorem lookups_addReplacements (cfg : Settings) (rs : List Replacement) (f : Font) :
    (rs.foldlM (addReplacement cfg) f).value.lookups =
      (replacementEntries cfg f rs).foldl (Lookups.put cfg.scripts) f.lookups := by
  rw [value_foldlM, replacementEntries]
  induction rs generalizing f with
  | nil => rfl
  | cons r rs ih =>
      have hroster : (addReplacement cfg f r).value.hasGlyph = f.hasGlyph := by
        unfold addReplacement
        split <;> rfl
      rw [List.foldl_cons, ih, hroster]
      unfold addReplacement
      by_cases hglyph : f.hasGlyph r.glyph = true
      · rw [if_pos hglyph, List.filter_cons, if_pos hglyph]
        rfl
      · rw [if_neg hglyph, List.filter_cons, if_neg hglyph]
        rfl

theorem lookups_buildTables (cfg : Settings) (s : State σ) :
    (buildTables cfg s).value.lookups =
      (s.ligatureEntries cfg ++
        kernEntries cfg s.font (namedKerns cfg s.tables.kerns s.font)).foldl
          (Lookups.put cfg.scripts) s.font.lookups := by
  let f := (placeAccents cfg s.explicit.topAccents s.tables.kerns
    (buildLigatures cfg s.tables.ligatures s.font).value).value
  have hroster : SameRoster s.font f :=
    SameGlyphs.sameRoster <| (sameGlyphs_buildLigatures cfg _ _).trans
      (sameGlyphs_placeAccents (fun _ _ => rfl) cfg _ _ _)
  have hlookups : f.lookups =
      (s.ligatureEntries cfg).foldl (Lookups.put cfg.scripts) s.font.lookups := by
    rw [lookups_placeAccents, value_buildLigatures]
    rfl
  have hkerns : kernEntries cfg f (namedKerns cfg s.tables.kerns f) =
      kernEntries cfg s.font (namedKerns cfg s.tables.kerns s.font) := by
    have hrule : pairRule? f = pairRule? s.font := by
      funext p
      rw [pairRule?, pairRule?, hroster.hasGlyph]
    rw [kernEntries, kernEntries, namedKerns_of_sameRoster hroster, hrule]
  rw [buildTables, Noted.value_bind, Noted.value_bind, Noted.value_bind, lookups_buildVariants,
    lookups_buildKerning, hkerns, hlookups, List.foldl_append]

/-- A finished font has the rules of its state in its lookups. -/
theorem lookups_finish_eq_foldl (e : Engine σ) (cfg : Settings) (s : State σ) :
    (finish e cfg s).value.1.lookups =
      (s.entries cfg).foldl (Lookups.put cfg.scripts) s.font.lookups := by
  let f := (s.tables.references.foldlM attachReference
    ((postProcessFont e (buildTables cfg s).value).run s.engine).1).value
  have hroster : SameRoster s.font f :=
    SameGlyphs.sameRoster <|
      (sameGlyphs_buildTables (fun _ _ => rfl) (fun _ _ => rfl) (fun _ _ => rfl) cfg s).trans <|
      (sameGlyphs_postProcessFont (fun _ _ => rfl) e _ _).trans
        (sameGlyphs_attachReferences (fun _ _ => rfl) _ _)
  have hlookups : f.lookups = (buildTables cfg s).value.lookups := by
    rw [lookups_attachReferences, lookups_postProcessFont]
  have hreplacements : replacementEntries cfg f s.tables.replacements =
      replacementEntries cfg s.font s.tables.replacements := by
    rw [replacementEntries, replacementEntries, hroster.hasGlyph]
  obtain ⟨info, hfinish⟩ := exists_finish e cfg s
  rw [hfinish]
  show (s.tables.replacements.foldlM (addReplacement cfg) f).value.lookups = _
  rw [lookups_addReplacements, hreplacements, hlookups, lookups_buildTables, ← List.foldl_append]
  rfl

/-! ## where rules go -/

/-- Texts that start differently. -/
theorem append_ne_append {a b : String} (h : ¬a.toList <+: b.toList) (h' : ¬b.toList <+: a.toList)
    (s t : String) : a ++ s ≠ b ++ t := by
  intro heq
  have hlist := congrArg String.toList heq
  simp only [String.toList_append] at hlist
  have hprefix : a.toList <+: b.toList ++ t.toList := hlist ▸ List.prefix_append _ _
  rcases List.prefix_or_prefix_of_prefix hprefix (List.prefix_append _ _) with hab | hba
  · exact h hab
  · exact h' hba

theorem kernLookup_name_ne (feature : String) : kernLookup.name ≠ "gsub_single_" ++ feature := by
  have hne := append_ne_append (a := "gpos_pair") (b := "gsub_single_") (by decide) (by decide)
    "" feature
  rwa [String.append_empty] at hne

section Specs

variable {cfg : Settings} {s : State σ} {en : RuleEntry}

/-- The ligature that a rule comes from. -/
theorem exists_named_of_mem_ligatureEntries (h : en ∈ s.ligatureEntries cfg) :
    ∃ r ∈ s.tables.ligatures, ∃ l, r.named? cfg s.font = some l ∧ en ∈ l.entries cfg := by
  obtain ⟨r, hr, hen⟩ := List.mem_flatMap.mp h
  unfold LigatureRule.entries at hen
  cases hl : r.named? cfg s.font with
  | none =>
      rw [hl] at hen
      cases hen
  | some l =>
      rw [hl] at hen
      exact ⟨r, hr, l, hl, hen⟩

theorem mem_ligatureEntries {r : LigatureRule} {l : NamedLigature} (hr : r ∈ s.tables.ligatures)
    (hl : r.named? cfg s.font = some l) (hen : en ∈ l.entries cfg) :
    en ∈ s.ligatureEntries cfg := by
  refine List.mem_flatMap.mpr ⟨r, hr, ?_⟩
  rw [LigatureRule.entries, hl]
  exact hen

theorem spec_of_mem_kernEntries {f : Font} {kerns : List (KernPair String)}
    (h : en ∈ kernEntries cfg f kerns) : ∃ r, en = kernEntry cfg r := by
  unfold kernEntries at h
  split at h
  · split at h
    · cases h
    · exact ⟨_, List.mem_singleton.mp h⟩
  · obtain ⟨r, -, rfl⟩ := List.mem_map.mp h
    exact ⟨r, rfl⟩

/-- A rule is that of a ligature, a kern or an alternate. -/
theorem cases_of_mem_entries (h : en ∈ s.entries cfg) :
    en ∈ s.ligatureEntries cfg ∨ (∃ r, en = kernEntry cfg r) ∨
      ∃ r ∈ s.tables.replacements, s.font.hasGlyph r.glyph = true ∧ en = r.entry cfg := by
  unfold State.entries at h
  rcases List.mem_append.mp h with h | h
  · rcases List.mem_append.mp h with h | h
    · exact .inl h
    · exact .inr (.inl (spec_of_mem_kernEntries h))
  · obtain ⟨r, hr, rfl⟩ := List.mem_map.mp h
    obtain ⟨hr, hglyph⟩ := List.mem_filter.mp hr
    exact .inr (.inr ⟨r, hr, hglyph, rfl⟩)

/-- No rule asks for a lookup at a certain place. -/
theorem after_of_mem_entries (h : en ∈ s.entries cfg) : en.spec.after = none := by
  rcases cases_of_mem_entries h with h | ⟨r, rfl⟩ | ⟨r, -, -, rfl⟩
  · obtain ⟨r, -, l, -, hen⟩ := exists_named_of_mem_ligatureEntries h
    obtain ⟨family, suffix, hspec⟩ := NamedLigature.spec_of_mem_entries hen
    rw [hspec]
    rfl
  · rfl
  · rfl

end Specs

/-! ## ligatures in context -/

/-- A ligature of two characters that keeps one of them, so that it takes a context. -/
def NamedLigature.InContext (l : NamedLigature) (first second : String) : Prop :=
  (l.shape.keepsLeft = true ∨ l.shape.keepsRight = true) ∧ l.components = [first, second]

/-- A ligature in context of a state, all of whose glyphs are there. -/
def State.InContext (cfg : Settings) (s : State σ) (l : NamedLigature) (first second : String) :
    Prop :=
  (∃ r ∈ s.tables.ligatures, r.named? cfg s.font = some l) ∧ l.InContext first second

section InContext

variable {cfg : Settings} {s : State σ} {en : RuleEntry} {l : NamedLigature}
  {first second : String}

theorem NamedLigature.InContext.family_ne (h : l.InContext first second) :
    l.shape.family ≠ .plain := by
  rw [Ne, ← isPlain_iff, Bool.and_eq_true, Bool.not_eq_true', Bool.not_eq_true']
  rintro ⟨hleft, hright⟩
  rcases h.1 with hkeeps | hkeeps
  · rw [hleft] at hkeeps
    cases hkeeps
  · rw [hright] at hkeeps
    cases hkeeps

theorem NamedLigature.inContext_of_family_ne (h : l.shape.family ≠ .plain)
    (hpair : l.components = [first, second]) : l.InContext first second := by
  refine ⟨?_, hpair⟩
  rcases LigatureShape.family_cases h with ⟨hkeeps, -⟩ | ⟨-, hkeeps, -⟩ | ⟨hkeeps, -⟩
  · exact .inl hkeeps
  · exact .inr hkeeps
  · exact .inl hkeeps

/-- A ligature in context puts in a substitution and the context that calls it. -/
theorem State.InContext.mem_entries (h : s.InContext cfg l first second)
    (hen : en = NamedLigature.substitutionEntry cfg l first second ∨
      en = NamedLigature.contextEntry l first second) : en ∈ s.ligatureEntries cfg := by
  obtain ⟨⟨r, hr, hl⟩, hcontext⟩ := h
  exact mem_ligatureEntries hr hl
    ((NamedLigature.mem_entries_of_not_plain hcontext.family_ne hcontext.2).mpr hen)

/-- A rule of a ligature is that of a plain one, or of one in context. -/
theorem cases_of_mem_ligatureEntries (h : en ∈ s.ligatureEntries cfg) :
    (∃ l, en = NamedLigature.plainEntry cfg l) ∨
      ∃ l first second, s.InContext cfg l first second ∧
        (en = NamedLigature.substitutionEntry cfg l first second ∨
          en = NamedLigature.contextEntry l first second) := by
  obtain ⟨r, hr, l, hl, hen⟩ := exists_named_of_mem_ligatureEntries h
  rcases NamedLigature.cases_of_mem_entries hen with
    ⟨-, hen⟩ | ⟨hkeeps, first, second, hpair, hen⟩
  · exact .inl ⟨l, hen⟩
  · exact .inr ⟨l, first, second,
      ⟨⟨r, hr, hl⟩, NamedLigature.inContext_of_family_ne hkeeps hpair⟩, hen⟩

/-- The glyphs of a ligature in context are there. -/
theorem State.InContext.hasGlyph (h : s.InContext cfg l first second) :
    s.font.hasGlyph first = true ∧ s.font.hasGlyph second = true := by
  obtain ⟨⟨r, -, hl⟩, -, hpair⟩ := h
  have hglyphs := LigatureRule.hasGlyph_of_named hl
  rw [hpair] at hglyphs
  exact ⟨hglyphs first (by simp), hglyphs second (by simp)⟩

end InContext

/-! ## replays -/

/-- A replay makes lookups for marks only. -/
theorem name_of_mem_lookups_follow (e : Engine σ) (engine : σ) (cfg : Settings)
    (encoding : Encoding) (script : Script) :
    ∀ name ∈ ((State.initial engine cfg encoding).follow e cfg script).value.font.lookups.names,
      ∃ feature : MarkFeature, name = feature.lookup.name := by
  refine follow_keeps (P := fun s => ∀ name ∈ s.font.lookups.names,
    ∃ feature : MarkFeature, name = feature.lookup.name) (fun _ _ h => h) ?_ script
    fun name hname => absurd hname List.not_mem_nil
  intro c s h name hname
  rcases lookups_perform e cfg c s with hsame | ⟨feature, anchorClass, hchanged⟩
  · exact h name (hsame ▸ hname)
  · rw [hchanged] at hname
    rcases Lookups.mem_names_changeSubtable hname with hold | hnew
    · exact h name hold
    · exact ⟨feature, hnew⟩

/-- So it makes no lookup for substitutions. -/
theorem not_mem_lookups_follow (e : Engine σ) (engine : σ) (cfg : Settings) (encoding : Encoding)
    (script : Script) {name : String} (h : isSubstitutionName name = true) :
    name ∉ ((State.initial engine cfg encoding).follow e cfg script).value.font.lookups.names := by
  intro hmem
  obtain ⟨feature, rfl⟩ := name_of_mem_lookups_follow e engine cfg encoding script name hmem
  cases feature <;> exact absurd h (by decide)

end FontTrace
