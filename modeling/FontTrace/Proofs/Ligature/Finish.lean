import FontTrace.Engine.Basic
import FontTrace.Proofs.Ligature.Rewriting
import FontTrace.Proofs.Replay.Step

/-!
# FontTrace.Proofs.Ligature.Finish

Ligatures of a trace in the finished font.  What is done behind them changes
glyphs and adds kerning; the lookups for substitutions stay as they are.

* `value_buildLigatures` — the lookups of a font with the rules of its ligatures;
* `substitutions_finish` — finishing a font leaves them alone;
* `ligatures_rewrite` — the finished lookups make of a pair what its ligature says.
-/

namespace FontTrace

variable {σ : Type}

/-! ## ligatures with names -/

namespace LigatureRule

/-- The names of the components. -/
def names (cfg : Settings) (f : Font) (r : LigatureRule) : List String :=
  (r.components.mapM (f.resolve cfg.generalizedCode)).value

/-- The ligature with the names of its glyphs, if the font has all of them. -/
def named? (cfg : Settings) (f : Font) (r : LigatureRule) : Option NamedLigature :=
  (resultName cfg f r.result).value.bind fun result =>
    if ∀ name ∈ r.names cfg f ++ [result], f.hasGlyph name then
      some ⟨result, r.shape, r.names cfg f, r.feature⟩
    else none

theorem components_of_named {cfg : Settings} {f : Font} {r : LigatureRule} {l : NamedLigature}
    (h : r.named? cfg f = some l) : l.components = r.names cfg f := by
  obtain ⟨result, -, hl⟩ := Option.bind_eq_some_iff.mp h
  split at hl
  · cases hl
    rfl
  · cases hl

theorem hasGlyph_of_named {cfg : Settings} {f : Font} {r : LigatureRule} {l : NamedLigature}
    (h : r.named? cfg f = some l) : ∀ name ∈ l.components, f.hasGlyph name = true := by
  obtain ⟨result, -, hl⟩ := Option.bind_eq_some_iff.mp h
  split at hl
  · next hall =>
    cases hl
    exact fun name hname => hall name (List.mem_append_left _ hname)
  · cases hl

end LigatureRule

/-- The font with rules put into its lookups. -/
def Font.putAll (cfg : Settings) (f : Font) (entries : List RuleEntry) : Font :=
  { f with lookups := entries.foldl (Lookups.put cfg.scripts) f.lookups }

namespace LigatureRule

/-- The rules that a ligature puts into lookups: none if the font lacks one of its glyphs. -/
def entries (cfg : Settings) (f : Font) (r : LigatureRule) : List RuleEntry :=
  (r.named? cfg f).elim [] (NamedLigature.entries cfg)

theorem missing?_eq_none {l : NamedLigature} {f : Font} :
    l.missing? f = none ↔ ∀ name ∈ l.components ++ [l.result], f.hasGlyph name := by
  rw [NamedLigature.missing?, List.find?_eq_none]
  simp

theorem value_build (cfg : Settings) (f : Font) (r : LigatureRule) :
    (r.build cfg f).value = f.putAll cfg (r.entries cfg f) := by
  unfold build entries named?
  rw [Noted.value_bind]
  cases (resultName cfg f r.result).value with
  | none => rfl
  | some result =>
      rw [Option.bind_some]
      dsimp only
      rw [Noted.value_bind]
      have hmissing := missing?_eq_none (f := f) (l := ⟨result, r.shape, r.names cfg f, r.feature⟩)
      split
      next name hfind =>
        have hlacks : ¬∀ name ∈ r.names cfg f ++ [result], f.hasGlyph name := by
          intro hall
          cases hfind.symm.trans (hmissing.mpr hall)
        rw [if_neg hlacks]
        rfl
      next hfind =>
        rw [Noted.value_bind, NamedLigature.value_addTo, if_pos (hmissing.mp hfind)]
        rfl

/-- Whether a font has the glyphs of a ligature does not depend on its lookups. -/
theorem entries_putAll (cfg : Settings) (f : Font) (ens : List RuleEntry) :
    entries cfg (f.putAll cfg ens) = entries cfg f := rfl

end LigatureRule

/-- The lookups of a font with the rules of its ligatures, one after the other. -/
theorem value_buildLigatures (cfg : Settings) (rules : List LigatureRule) (f : Font) :
    (buildLigatures cfg rules f).value =
      f.putAll cfg (rules.flatMap (LigatureRule.entries cfg f)) := by
  rw [buildLigatures, value_foldlM]
  induction rules generalizing f with
  | nil => rfl
  | cons r rules ih =>
      rw [List.foldl_cons, ih, LigatureRule.value_build, LigatureRule.entries_putAll,
        List.flatMap_cons, Font.putAll, Font.putAll, Font.putAll, List.foldl_append]

/-- A ligature with a glyph that the font does not have is as good as none. -/
theorem value_buildLigatures_of_none (cfg : Settings) {f : Font} {r : LigatureRule}
    (h : r.named? cfg f = none) (before after : List LigatureRule) :
    (buildLigatures cfg (before ++ r :: after) f).value =
      (buildLigatures cfg (before ++ after) f).value := by
  have hentries : r.entries cfg f = [] := by
    rw [LigatureRule.entries, h]
    rfl
  rw [value_buildLigatures, value_buildLigatures, List.flatMap_append, List.flatMap_append,
    List.flatMap_cons, hentries, List.nil_append]

/-! ## lookups for substitutions -/

/-- The kinds of lookups for substitutions. -/
def LookupKind.isSubstitution : LookupKind → Bool
  | .gsubSingle | .gsubMultiple | .gsubLigature | .gsubContextChain => true
  | _ => false

/-- Whether a name is that of a lookup for substitutions. -/
def isSubstitutionName (name : String) : Bool := "gsub_".toList.isPrefixOf name.toList

/-- Whether a lookup is for substitutions, by its kind or by its name. -/
def Lookup.isSubstitution (l : Lookup) : Bool :=
  l.kind.isSubstitution || isSubstitutionName l.name

/-- The lookups for substitutions. -/
def Lookups.substitutions (ls : Lookups) : Lookups := ls.filter (·.isSubstitution)

theorem isSubstitutionName_spec (family : LookupFamily) (suffix : String) :
    isSubstitutionName (family.spec suffix).name = true := by
  have hstem : "gsub_".toList <+: family.stem.toList := by cases family <;> decide
  rw [isSubstitutionName, List.isPrefixOf_iff_prefix, LookupFamily.spec, String.toList_append]
  exact hstem.trans (List.prefix_append _ _)

theorem isSubstitution_of_kind {l : Lookup} (h : l.kind.isSubstitution = true) :
    l.isSubstitution = true := by
  rw [Lookup.isSubstitution, h, Bool.true_or]

theorem isSubstitution_of_name {l : Lookup} (h : isSubstitutionName l.name = true) :
    l.isSubstitution = true := by
  rw [Lookup.isSubstitution, h, Bool.or_true]

/-- A rule for substitutions goes into the lookups for substitutions. -/
theorem substitutions_put (scripts : List ScriptLanguages) (ls : Lookups) {en : RuleEntry}
    {family : LookupFamily} {suffix : String} (hspec : en.spec = family.spec suffix) :
    (ls.put scripts en).substitutions = ls.substitutions.put scripts en := by
  have hafter : en.spec.after = none := by rw [hspec]; rfl
  have hname : isSubstitutionName en.spec.name = true := by
    rw [hspec]
    exact isSubstitutionName_spec family suffix
  have hnamed : ∀ l : Lookup, l.name = en.spec.name → l.isSubstitution = true := by
    intro l hl
    exact isSubstitution_of_name (hl.symm ▸ hname)
  have hfresh : (Lookups.fresh en.spec scripts).isSubstitution = true := hnamed _ rfl
  have hkeep : ∀ l : Lookup,
      (l.changeSubtable en.subtable (·.addRule en.rule)).isSubstitution = l.isSubstitution :=
    fun _ => rfl
  rw [Lookups.put, Lookups.put, Lookups.changeSubtable_eq hafter, Lookups.changeSubtable_eq hafter]
  exact filter_changeOrAppend hnamed hkeep hfresh ls

theorem substitutions_foldl (scripts : List ScriptLanguages) (ls : Lookups)
    {entries : List RuleEntry}
    (h : ∀ en ∈ entries, ∃ family suffix, en.spec = LookupFamily.spec family suffix) :
    (entries.foldl (Lookups.put scripts) ls).substitutions =
      entries.foldl (Lookups.put scripts) ls.substitutions := by
  induction entries generalizing ls with
  | nil => rfl
  | cons en entries ih =>
      obtain ⟨family, suffix, hspec⟩ := h en List.mem_cons_self
      have hrest := ih (ls.put scripts en) fun en' hen' => h en' (List.mem_cons_of_mem _ hen')
      rw [List.foldl_cons, List.foldl_cons, hrest, substitutions_put scripts ls hspec]

/-- A lookup whose name is that of a lookup for substitutions is found among them. -/
theorem find?_substitutions {name : String} (h : isSubstitutionName name = true) (ls : Lookups) :
    ls.substitutions.find? name = ls.find? name := by
  rw [Lookups.substitutions, Lookups.find?, Lookups.find?, List.find?_filter]
  congr 1
  funext l
  by_cases hl : l.name = name
  · have hsub : l.isSubstitution = true := isSubstitution_of_name (hl.symm ▸ h)
    simp [hl, hsub]
  · simp [hl]

theorem contexts_substitutions (ls : Lookups) (first second : String) :
    ls.substitutions.contexts first second = ls.contexts first second := by
  have hname : isSubstitutionName NamedLigature.contextLookup.name = true :=
    isSubstitutionName_spec .context ""
  rw [Lookups.contexts, Lookups.contexts, Lookups.rulesIn, Lookups.rulesIn,
    find?_substitutions hname]

theorem ligates_substitutions (ls : Lookups) (glyphs : List String) (result : String) :
    ls.substitutions.Ligates glyphs result ↔ ls.Ligates glyphs result := by
  constructor
  · rintro ⟨l, hl, hrule⟩
    exact ⟨l, List.mem_of_mem_filter hl, hrule⟩
  · rintro ⟨l, hl, hkind, hrule⟩
    have hsub : l.isSubstitution = true := isSubstitution_of_kind (by rw [hkind]; rfl)
    exact ⟨l, List.mem_filter.mpr ⟨hl, hsub⟩, hkind, hrule⟩

/-- What lookups make of a pair is decided by the lookups for substitutions. -/
theorem Rewrites.of_substitutions {ls : Lookups} {first second : String} {out : List String}
    (h : Rewrites ls.substitutions first second out)
    (hnames : ∀ l ∈ ls.substitutions, isSubstitutionName l.name = true) :
    Rewrites ls first second out := by
  cases h with
  | whole ligates alone =>
      refine .whole (fun r => (ligates_substitutions ls _ r).symm.trans (ligates r)) ?_
      intro k hfirst hsecond
      rw [← contexts_substitutions]
      exact alone k hfirst hsecond
  | inContext pair once unique alone called featureless replaces =>
      rw [contexts_substitutions] at once unique
      refine .inContext pair once unique ?_ ?_ featureless replaces
      · exact fun r hr => alone r ((ligates_substitutions ls _ r).mpr hr)
      · have hname := hnames _ (List.mem_of_find?_eq_some called)
        rw [key_of_find? called] at hname
        rw [← find?_substitutions hname]
        exact called

/-! ## finishing a font -/

theorem lookups_changeGlyph (f : Font) (name : String) (change : Glyph → Glyph) :
    (f.changeGlyph name change).lookups = f.lookups := by
  unfold Font.changeGlyph
  split <;> rfl

theorem lookups_changeOrNote (f : Font) (name : String) (absent : String → Notice)
    (change : Glyph → Glyph) : (f.changeOrNote name absent change).value.lookups = f.lookups :=
  lookups_changeGlyph f name change

/-- What every step of a fold keeps, the whole fold does. -/
theorem foldlM_invariant {α β : Type} {P : β → Prop} {step : β → α → Noted β}
    (h : ∀ b a, P b → P (step b a).value) (as : List α) {b : β} (hb : P b) :
    P (as.foldlM step b).value := by
  rw [value_foldlM]
  induction as generalizing b with
  | nil => exact hb
  | cons a as ih => exact ih (h b a hb)

/-- What every step of a fold leaves alone, the whole fold does. -/
theorem foldlM_keeps {α β γ : Type} {g : β → γ} {step : β → α → Noted β}
    (h : ∀ b a, g (step b a).value = g b) (as : List α) (b : β) :
    g (as.foldlM step b).value = g b :=
  foldlM_invariant (P := fun b' => g b' = g b) (fun b' a hb => (h b' a).trans hb) as rfl

theorem lookups_placeAccent (cfg : Settings) (explicit : List String) (f : Font)
    (p : KernPair CharRef) : (placeAccent cfg explicit f p).value.lookups = f.lookups := by
  rw [placeAccent, Noted.value_bind]
  split
  · rfl
  · split
    · exact lookups_changeGlyph f _ _
    · rfl

theorem lookups_placeAccents (cfg : Settings) (explicit : List String)
    (kerns : List (KernPair CharRef)) (f : Font) :
    (placeAccents cfg explicit kerns f).value.lookups = f.lookups :=
  foldlM_keeps (lookups_placeAccent cfg explicit) _ f

theorem lookups_extensible (cfg : Settings) (bases : List (String × String))
    (state : List Charlist × Font) (x : Extensible) :
    (x.build cfg bases state).value.2.lookups = state.2.lookups := by
  obtain ⟨cs, f⟩ := state
  rw [Extensible.build, Noted.value_bind]
  dsimp only
  split <;> exact lookups_changeOrNote f _ .extensibleOfUnknown _

theorem lookups_charlist (cfg : Settings) (f : Font) (c : Charlist) :
    (c.build cfg f).value.lookups = f.lookups :=
  lookups_changeOrNote f _ .charlistOfUnknown _

theorem lookups_buildVariants (cfg : Settings) (t : Tables) (f : Font) :
    (buildVariants cfg t f).value.lookups = f.lookups := by
  have hextensibles : (buildExtensibles cfg t f).value.2.lookups = f.lookups := by
    rw [buildExtensibles, Noted.value_bind]
    exact foldlM_keeps (g := fun state : List Charlist × Font => state.2.lookups)
      (lookups_extensible cfg _) _ _
  rw [buildVariants, Noted.value_bind, ← hextensibles]
  exact foldlM_keeps (lookups_charlist cfg) _ _

theorem lookups_postProcessFont (e : Engine σ) (f : Font) (engine : σ) :
    ((postProcessFont e f).run engine).1.lookups = f.lookups := by
  unfold postProcessFont
  dsimp only
  split <;> rfl

theorem lookups_attachReferences (references : List PendingReference) (f : Font) :
    (references.foldlM attachReference f).value.lookups = f.lookups :=
  foldlM_keeps (fun _ _ => lookups_changeOrNote _ _ _ _) _ f

/-- Kerning goes into a lookup that is not for substitutions. -/
theorem substitutions_addKernRule (cfg : Settings) {f : Font} (r : Rule)
    (hnames : ∀ l ∈ f.lookups.substitutions, isSubstitutionName l.name = true) :
    (f.addKernRule cfg r).lookups.substitutions = f.lookups.substitutions := by
  have hkern : ∀ l ∈ f.lookups, l.name = kernLookup.name → l.isSubstitution = false := by
    intro l hl hname
    by_contra hsub
    have hmem : l ∈ f.lookups.substitutions :=
      List.mem_filter.mpr ⟨hl, (Bool.not_eq_false _).mp hsub⟩
    have hfalse := hnames l hmem
    rw [hname] at hfalse
    exact absurd hfalse (by decide)
  have hkeep : ∀ l : Lookup, (l.changeSubtable
      (subtableName kernLookup.subtableBase cfg.subtableIndex) (·.addRule r)).isSubstitution =
        l.isSubstitution := fun _ => rfl
  have hfresh : (Lookups.fresh kernLookup cfg.scripts).isSubstitution = false := by
    have hname : isSubstitutionName kernLookup.name = false := by decide
    rw [Lookup.isSubstitution]
    exact (Bool.or_eq_false_iff ..).mpr ⟨rfl, hname⟩
  have hlookups : (f.addKernRule cfg r).lookups = f.lookups.changeSubtable kernLookup cfg.scripts
      (subtableName kernLookup.subtableBase cfg.subtableIndex) (·.addRule r) := rfl
  have hafter : kernLookup.after = none := rfl
  rw [hlookups, Lookups.changeSubtable_eq hafter]
  exact filter_changeOrAppend_of_false hkern hkeep hfresh

theorem substitutions_addPairs (cfg : Settings) (pairs : List (KernPair String)) {f : Font}
    (hnames : ∀ l ∈ f.lookups.substitutions, isSubstitutionName l.name = true) :
    (pairs.foldl (fun f p => (addPair cfg f p).value) f).lookups.substitutions =
      f.lookups.substitutions := by
  induction pairs generalizing f with
  | nil => rfl
  | cons p pairs ih =>
      have hstep : (addPair cfg f p).value.lookups.substitutions = f.lookups.substitutions := by
        unfold addPair
        split
        · exact substitutions_addKernRule cfg _ hnames
        · rfl
      rw [List.foldl_cons, ih (hstep ▸ hnames), hstep]

theorem substitutions_buildKerning (cfg : Settings) (kerns : List (KernPair CharRef)) {f : Font}
    (hnames : ∀ l ∈ f.lookups.substitutions, isSubstitutionName l.name = true) :
    (buildKerning cfg kerns f).value.lookups.substitutions = f.lookups.substitutions := by
  unfold buildKerning
  dsimp only
  split
  · rfl
  · rw [Noted.value_bind]
    split
    · exact substitutions_addKernRule cfg _ hnames
    · rw [value_foldlM]
      exact substitutions_addPairs cfg _ hnames

/-- What finishing a font does behind its tables. -/
theorem exists_finish (e : Engine σ) (cfg : Settings) (s : State σ) :
    ∃ info, (finish e cfg s).value.1 =
      { (s.tables.replacements.foldlM (addReplacement cfg)
          (s.tables.references.foldlM attachReference
            ((postProcessFont e (buildTables cfg s).value).run s.engine).1).value).value with
        info := info } := by
  rw [finish, Noted.value_bind]
  rcases (postProcessFont e (buildTables cfg s).value).run s.engine with ⟨f, engine⟩
  dsimp only
  rw [Noted.value_bind, Noted.value_bind]
  dsimp only [Noted.value_pure]
  split
  · exact ⟨_, rfl⟩
  · exact ⟨_, rfl⟩

theorem lookups_finish (e : Engine σ) (cfg : Settings) (s : State σ)
    (hnone : s.tables.replacements = []) :
    (finish e cfg s).value.1.lookups = (buildTables cfg s).value.lookups := by
  obtain ⟨info, hfinish⟩ := exists_finish e cfg s
  rw [hfinish, hnone, List.foldlM_nil, Noted.value_pure, lookups_attachReferences]
  exact lookups_postProcessFont e _ s.engine

/-- Finishing a font without alternates leaves the lookups of its ligatures alone. -/
theorem substitutions_finish (e : Engine σ) (cfg : Settings) (s : State σ)
    (hnone : s.tables.replacements = [])
    (hnames : ∀ l ∈ (buildLigatures cfg s.tables.ligatures s.font).value.lookups.substitutions,
      isSubstitutionName l.name = true) :
    (finish e cfg s).value.1.lookups.substitutions =
      (buildLigatures cfg s.tables.ligatures s.font).value.lookups.substitutions := by
  have htables : (buildTables cfg s).value.lookups.substitutions =
      (buildLigatures cfg s.tables.ligatures s.font).value.lookups.substitutions := by
    rw [buildTables, Noted.value_bind, Noted.value_bind, Noted.value_bind, lookups_buildVariants,
      substitutions_buildKerning, lookups_placeAccents]
    rw [lookups_placeAccents]
    exact hnames
  rw [← htables, lookups_finish e cfg s hnone]

/-! ## the finished lookups -/

theorem flatMap_entries (cfg : Settings) (f : Font) (rules : List LigatureRule) :
    rules.flatMap (LigatureRule.entries cfg f) =
      (rules.filterMap (LigatureRule.named? cfg f)).flatMap (NamedLigature.entries cfg) := by
  induction rules with
  | nil => rfl
  | cons r rules ih =>
      rw [List.flatMap_cons, ih, LigatureRule.entries]
      cases h : r.named? cfg f with
      | none => rw [List.filterMap_cons_none h]; rfl
      | some l => rw [List.filterMap_cons_some h, List.flatMap_cons]; rfl

theorem spec_of_mem_flatMap {cfg : Settings} {named : List NamedLigature} {en : RuleEntry}
    (h : en ∈ named.flatMap (NamedLigature.entries cfg)) :
    ∃ family suffix, en.spec = LookupFamily.spec family suffix := by
  obtain ⟨l, -, hen⟩ := List.mem_flatMap.mp h
  exact NamedLigature.spec_of_mem_entries hen

/-- The lookups for substitutions are those of the ligatures, if the font had none before. -/
theorem substitutions_buildLigatures (cfg : Settings) (rules : List LigatureRule) {f : Font}
    (hfont : ∀ l ∈ f.lookups, l.isSubstitution = false) :
    (buildLigatures cfg rules f).value.lookups.substitutions =
      ((rules.filterMap (LigatureRule.named? cfg f)).flatMap (NamedLigature.entries cfg)).foldl
        (Lookups.put cfg.scripts) [] := by
  have hnone : f.lookups.substitutions = [] := by
    rw [Lookups.substitutions, List.filter_eq_nil_iff]
    intro l hl
    rw [hfont l hl]
    exact Bool.false_ne_true
  rw [value_buildLigatures, flatMap_entries, Font.putAll,
    substitutions_foldl _ _ fun en hen => spec_of_mem_flatMap hen, hnone]

/-- The lookups of ligatures for different components. -/
theorem ofLigatures_foldl (cfg : Settings) {rules : List LigatureRule} {f : Font}
    (hdistinct : (rules.map (LigatureRule.names cfg f)).Nodup) :
    Lookups.OfLigatures cfg (rules.filterMap (LigatureRule.named? cfg f))
      (((rules.filterMap (LigatureRule.named? cfg f)).flatMap (NamedLigature.entries cfg)).foldl
        (Lookups.put cfg.scripts) []) := by
  have hafter : ∀ en ∈ (rules.filterMap (LigatureRule.named? cfg f)).flatMap
      (NamedLigature.entries cfg), en.spec.after = none := by
    intro en hen
    obtain ⟨family, suffix, hspec⟩ := spec_of_mem_flatMap hen
    rw [hspec]
    rfl
  refine ⟨collects_foldl _ hafter, fun l hl => spec_of_mem_foldl _ hafter hl, ?_⟩
  intro l hl l' hl' hsame
  obtain ⟨r, hr, hnamed⟩ := List.mem_filterMap.mp hl
  obtain ⟨r', hr', hnamed'⟩ := List.mem_filterMap.mp hl'
  rw [LigatureRule.components_of_named hnamed, LigatureRule.components_of_named hnamed'] at hsame
  have heq := List.inj_on_of_nodup_map hdistinct hr hr' hsame
  rw [heq, hnamed'] at hnamed
  exact (Option.some.inj hnamed).symm

theorem name_of_mem_foldl {cfg : Settings} {named : List NamedLigature} {ls : Lookups}
    (h : ls.OfLigatures cfg named) {l : Lookup} (hl : l ∈ ls) :
    isSubstitutionName l.name = true := by
  obtain ⟨en, hen, hname, -⟩ := h.spec l hl
  obtain ⟨family, suffix, hspec⟩ := spec_of_mem_flatMap hen
  rw [hname, hspec]
  exact isSubstitutionName_spec family suffix

/-- The components of ligatures are glyphs, so that their names have no blanks
if those of the glyphs have none. -/
theorem blankless_of_named {cfg : Settings} {f : Font} {rules : List LigatureRule}
    (hglyphs : ∀ g ∈ f.glyphs, ' ' ∉ g.name.toList) :
    ∀ l ∈ rules.filterMap (LigatureRule.named? cfg f), ∀ name ∈ l.components,
      ' ' ∉ name.toList := by
  intro l hl name hname
  obtain ⟨r, -, hnamed⟩ := List.mem_filterMap.mp hl
  obtain ⟨g, hg⟩ := Option.isSome_iff_exists.mp (LigatureRule.hasGlyph_of_named hnamed name hname)
  have hgname : g.name = name := key_of_find? hg
  rw [← hgname]
  exact hglyphs g (List.mem_of_find?_eq_some hg)

/-- In a font without lookups for substitutions, and for ligatures with different
components: behind the ligatures and in the finished font, the lookups make of
every pair what the ligature for the pair says; a ligature with a glyph that the
font does not have is as good as none; and unless names of glyphs have blanks, a
context rule, wherever it is, can only be read as that of the ligature for its
pair. -/
theorem ligatures_rewrite (e : Engine σ) (cfg : Settings) (s : State σ)
    (hfont : ∀ l ∈ s.font.lookups, l.isSubstitution = false)
    (hdistinct : (s.tables.ligatures.map (LigatureRule.names cfg s.font)).Nodup)
    (hnone : s.tables.replacements = []) :
    (∀ r ∈ s.tables.ligatures, ∀ l, r.named? cfg s.font = some l →
      ∀ first second, l.components = [first, second] →
        Rewrites (buildLigatures cfg s.tables.ligatures s.font).value.lookups first second
          (l.shape.expansion first second l.result) ∧
        Rewrites (finish e cfg s).value.1.lookups first second
          (l.shape.expansion first second l.result)) ∧
    (∀ before r after, s.tables.ligatures = before ++ r :: after →
      r.named? cfg s.font = none →
      (buildLigatures cfg (before ++ after) s.font).value =
        (buildLigatures cfg s.tables.ligatures s.font).value) ∧
    ((∀ g ∈ s.font.glyphs, ' ' ∉ g.name.toList) →
      ∀ lk ∈ (finish e cfg s).value.1.lookups, lk.kind = .gsubContextChain →
      ∀ k : PairContext, k.Blankless → .contextChain k.text ∈ lk.rules →
        ∃ r ∈ s.tables.ligatures, ∃ l, r.named? cfg s.font = some l ∧
          l.components = [k.first, k.second] ∧ k = l.shape.context k.first k.second) := by
  have hbuilt := substitutions_buildLigatures cfg s.tables.ligatures hfont
  have hligatures := ofLigatures_foldl cfg hdistinct
  rw [← hbuilt] at hligatures
  have hnames := fun l hl => name_of_mem_foldl hligatures (l := l) hl
  have hfinished := substitutions_finish e cfg s hnone hnames
  refine ⟨?_, ?_, ?_⟩
  · intro r hr l hl first second hpair
    have hrewrites := hligatures.rewrites (List.mem_filterMap.mpr ⟨r, hr, hl⟩) hpair
    constructor
    · exact hrewrites.of_substitutions hnames
    · rw [← hfinished] at hrewrites hnames
      exact hrewrites.of_substitutions hnames
  · intro before r after hrules hnamed
    rw [hrules]
    exact (value_buildLigatures_of_none cfg hnamed before after).symm
  · intro hglyphs lk hlk hkind k hk hrule
    have hsub : lk.isSubstitution = true := isSubstitution_of_kind (by rw [hkind]; rfl)
    have hmem : lk ∈ (finish e cfg s).value.1.lookups.substitutions :=
      List.mem_filter.mpr ⟨hlk, hsub⟩
    rw [hfinished] at hmem
    obtain ⟨l, hl, hpair, hcontext⟩ := hligatures.eq_context_of_blankless
      (blankless_of_named hglyphs) hk hmem hrule
    obtain ⟨r, hr, hnamed⟩ := List.mem_filterMap.mp hl
    exact ⟨r, hr, l, hnamed, hpair, hcontext⟩

/-- Two ligatures that share a lookup. -/
theorem ligatures_rewrite_shared_lookup :
    let glyph (name : String) (code : Int) : Glyph :=
      { name := name, code := some code, unicode := some code.toNat }
    let ligature (second result : Int) : LigatureRule :=
      ⟨.operand (.code result), ⟨true, false, 0⟩, [.code 102, .code second], "liga"⟩
    let start := State.initial () {} .unicode
    let font := { start.font with
      glyphs := [glyph "f" 102, glyph "i" 105, glyph "l" 108, glyph "x" 120, glyph "y" 121] }
    let s := { start with
      font := font
      tables := { ligatures := [ligature 105 120, ligature 108 121] } }
    (∀ l ∈ s.font.lookups, l.isSubstitution = false) ∧
      (s.tables.ligatures.map (LigatureRule.names {} s.font)).Nodup ∧
      s.tables.replacements = [] ∧
      Rewrites (finish Engine.basic {} s).value.1.lookups "f" "i" ["f", "x"] ∧
      Rewrites (finish Engine.basic {} s).value.1.lookups "f" "l" ["f", "y"] := by
  intro glyph ligature start font s
  have hfont : ∀ l ∈ s.font.lookups, l.isSubstitution = false := by decide +kernel
  have hdistinct : (s.tables.ligatures.map (LigatureRule.names {} s.font)).Nodup := by
    decide +kernel
  have hrewrite := (ligatures_rewrite Engine.basic {} s hfont hdistinct rfl).1
  have hfi : (ligature 105 120).named? {} s.font =
      some ⟨"x", ⟨true, false, 0⟩, ["f", "i"], "liga"⟩ := by decide +kernel
  have hfl : (ligature 108 121).named? {} s.font =
      some ⟨"y", ⟨true, false, 0⟩, ["f", "l"], "liga"⟩ := by decide +kernel
  refine ⟨hfont, hdistinct, rfl, ?_, ?_⟩
  · exact (hrewrite _ List.mem_cons_self _ hfi "f" "i" rfl).2
  · exact (hrewrite _ (List.mem_cons_of_mem _ List.mem_cons_self) _ hfl "f" "l" rfl).2

end FontTrace
