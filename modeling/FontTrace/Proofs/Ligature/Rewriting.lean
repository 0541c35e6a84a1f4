import FontTrace.Proofs.Font.Lookup
import FontTrace.Proofs.Ligature.Names

/-!
# FontTrace.Proofs.Ligature.Rewriting

What lookups make of a pair of glyphs, and that it is what the ligature for the
pair says.

A ligature that keeps no glyph is a rule for the whole pair.  Any other one is
a context for the pair, which calls a lookup for one of its glyphs.  Lookups are
shared by ligatures, so what counts is that a lookup has one rule for a glyph:

* `Rewrites` — what lookups make of a pair;
* `NamedLigature.entries` — the rules that a ligature puts into lookups;
* `rewrites_of_collects` — lookups that hold the rules of ligatures for different
  pairs make of a pair what its ligature says.
-/

namespace FontTrace

/-- One element of a list has a value, and no other one. -/
theorem filterMap_eq_singleton {α β : Type} {f : α → Option β} {xs : List α} {a : α} {b : β}
    (hnodup : xs.Nodup) (ha : a ∈ xs) (hf : f a = some b)
    (hothers : ∀ x ∈ xs, x ≠ a → f x = none) : xs.filterMap f = [b] := by
  obtain ⟨before, after, rfl⟩ := List.append_of_mem ha
  have hnone : ∀ ys : List α, (∀ y ∈ ys, y ∈ before ++ a :: after ∧ y ≠ a) →
      ys.filterMap f = [] := by
    intro ys hys
    exact List.filterMap_eq_nil_iff.mpr fun y hy => hothers y (hys y hy).1 (hys y hy).2
  have hbefore : ∀ y ∈ before, y ∈ before ++ a :: after ∧ y ≠ a := by
    rintro y hy
    refine ⟨List.mem_append_left _ hy, ?_⟩
    rintro rfl
    exact (List.nodup_append.mp hnodup).2.2 y hy y List.mem_cons_self rfl
  have hafter : ∀ y ∈ after, y ∈ before ++ a :: after ∧ y ≠ a := by
    intro y hy
    refine ⟨List.mem_append_right _ (List.mem_cons_of_mem _ hy), ?_⟩
    rintro rfl
    exact (List.nodup_cons.mp (List.nodup_append.mp hnodup).2.1).1 hy
  rw [List.filterMap_append, List.filterMap_cons_some hf, hnone before hbefore,
    hnone after hafter, List.nil_append]

/-! ## rewriting a pair -/

/-- What a rule puts for a glyph. -/
def Rule.replacement? (glyph : String) : Rule → Option (List String)
  | .single g r => if g = glyph then some [r] else none
  | .multiple g rs => if g = glyph then some rs else none
  | _ => none

/-- The pair with other glyphs for the marked one. -/
def PairContext.around (k : PairContext) (glyphs : List String) : List String :=
  if k.marksFirst then glyphs ++ [k.second] else k.first :: glyphs

/-- Whether a rule for ligatures makes one glyph of some others. -/
def Lookups.Ligates (ls : Lookups) (glyphs : List String) (result : String) : Prop :=
  ∃ l ∈ ls, l.kind = .gsubLigature ∧ .ligature glyphs result ∈ l.rules

/-- The context rules for a pair. -/
def Lookups.contexts (ls : Lookups) (first second : String) : List Rule :=
  ls.rulesIn NamedLigature.contextLookup.name (NamedLigature.contextSubtable first second)

/-- What lookups make of a pair of glyphs.  Either a rule makes one glyph of
both, or the one context rule for the pair calls a lookup, which is there, has
no feature, and has one rule for the marked glyph; never both. -/
inductive Rewrites (ls : Lookups) (first second : String) : List String → Prop where
  | whole {result : String} (ligates : ∀ r, ls.Ligates [first, second] r ↔ r = result)
      (alone : ∀ k : PairContext, k.first = first → k.second = second →
        .contextChain k.text ∉ ls.contexts first second) :
      Rewrites ls first second [result]
  | inContext {k : PairContext} {l : Lookup} {glyphs : List String}
      (pair : k.first = first ∧ k.second = second)
      (once : (ls.contexts first second).count (.contextChain k.text) = 1)
      (unique : ∀ k' : PairContext, k'.first = first → k'.second = second →
        .contextChain k'.text ∈ ls.contexts first second → k'.text = k.text)
      (alone : ∀ r, ¬ls.Ligates [first, second] r)
      (called : ls.find? k.lookup = some l)
      (featureless : l.feature = none)
      (replaces : l.rules.filterMap (·.replacement? k.marked) = [glyphs]) :
      Rewrites ls first second (k.around glyphs)

/-- What a ligature makes of its pair. -/
def LigatureShape.expansion (shape : LigatureShape) (first second result : String) :
    List String :=
  (if shape.keepsLeft then [first] else []) ++ [result] ++
    if shape.keepsRight then [second] else []

/-! ## ligatures as rules -/

namespace LigatureShape

/-- The family of the lookup that a ligature is put into. -/
def family (shape : LigatureShape) : LookupFamily :=
  match shape.keepsLeft, shape.keepsRight with
  | false, false => .plain
  | true, false => .after
  | false, true => .before
  | true, true => .between

/-- The end of the name of the lookup that a context calls. -/
def suffix (shape : LigatureShape) (first second : String) : String :=
  match shape.family with
  | .after => first
  | .before => second
  | _ => first ++ "_" ++ second

/-- The context of a ligature that keeps a glyph. -/
def context (shape : LigatureShape) (first second : String) : PairContext where
  first := first
  second := second
  marksFirst := shape.family = .before
  lookup := (shape.family.spec (shape.suffix first second)).name

/-- What is put for the marked glyph. -/
def replacement (shape : LigatureShape) (second result : String) : List String :=
  if shape.family = .between then [result, second] else [result]

/-- The cases of a shape that keeps a glyph. -/
theorem family_cases {shape : LigatureShape} (h : shape.family ≠ .plain) :
    (shape.keepsLeft = true ∧ shape.keepsRight = false ∧ shape.family = .after) ∨
      (shape.keepsLeft = false ∧ shape.keepsRight = true ∧ shape.family = .before) ∨
      (shape.keepsLeft = true ∧ shape.keepsRight = true ∧ shape.family = .between) := by
  obtain ⟨left, right, skip⟩ := shape
  cases left <;> cases right
  · exact absurd rfl h
  · exact .inr (.inl ⟨rfl, rfl, rfl⟩)
  · exact .inl ⟨rfl, rfl, rfl⟩
  · exact .inr (.inr ⟨rfl, rfl, rfl⟩)

theorem expansion_of_plain {shape : LigatureShape} (h : shape.family = .plain)
    (first second result : String) : shape.expansion first second result = [result] := by
  obtain ⟨left, right, skip⟩ := shape
  cases left <;> cases right <;> first | rfl | cases h

theorem around_replacement {shape : LigatureShape} (h : shape.family ≠ .plain)
    (first second result : String) :
    (shape.context first second).around (shape.replacement second result) =
      shape.expansion first second result := by
  rcases family_cases h with ⟨hl, hr, hf⟩ | ⟨hl, hr, hf⟩ | ⟨hl, hr, hf⟩ <;>
    simp [PairContext.around, context, replacement, expansion, hl, hr, hf]

/-- The lookups without features. -/
theorem feature_of_not_plain {shape : LigatureShape} (h : shape.family ≠ .plain)
    (suffix : String) : (shape.family.spec suffix).feature = none := by
  rcases family_cases h with ⟨-, -, hf⟩ | ⟨-, -, hf⟩ | ⟨-, -, hf⟩ <;> rw [hf] <;> rfl

/-- A lookup has rules for a glyph from one pair only. -/
theorem pair_eq_of_lookup_eq {shape shape' : LigatureShape} {first second first' second' : String}
    (h : shape.family ≠ .plain)
    (hlookup : (shape'.context first' second').lookup = (shape.context first second).lookup)
    (hmarked : (shape'.context first' second').marked = (shape.context first second).marked) :
    first' = first ∧ second' = second := by
  obtain ⟨hfamily, hsuffix⟩ := LookupFamily.eq_of_name_eq hlookup
  rcases family_cases h with ⟨-, -, hf⟩ | ⟨-, -, hf⟩ | ⟨-, -, hf⟩ <;>
    rw [hf] at hfamily <;>
    simp only [suffix, hf, hfamily] at hsuffix <;>
    simp only [PairContext.marked, context, hf, hfamily] at hmarked
  · exact ⟨hsuffix, hmarked⟩
  · exact ⟨hmarked, hsuffix⟩
  · have hsecond : second' = second := hmarked
    subst hsecond
    exact ⟨by simpa using hsuffix, rfl⟩

theorem blankless_context (shape : LigatureShape) {first second : String}
    (hfirst : ' ' ∉ first.toList) (hsecond : ' ' ∉ second.toList) :
    (shape.context first second).Blankless := by
  have hstem : ' ' ∉ shape.family.stem.toList := by cases shape.family <;> decide
  have hsuffix : ' ' ∉ (shape.suffix first second).toList := by
    unfold suffix
    split
    · exact hfirst
    · exact hsecond
    · simp [hfirst, hsecond]
  refine ⟨hfirst, hsecond, ?_⟩
  rw [context, LookupFamily.spec, String.toList_append, List.mem_append]
  exact not_or.mpr ⟨hstem, hsuffix⟩

end LigatureShape

namespace NamedLigature

/-- The rule of a ligature that keeps no glyph. -/
def plainEntry (cfg : Settings) (l : NamedLigature) : RuleEntry :=
  ⟨plainLookup l.feature, subtableName (plainLookup l.feature).subtableBase cfg.subtableIndex,
    .ligature l.components l.result⟩

/-- The substitution of a ligature that keeps a glyph. -/
def substitutionEntry (cfg : Settings) (l : NamedLigature) (first second : String) : RuleEntry :=
  let k := substitution l.shape first second l.result
  ⟨k.lookup, subtableName k.lookup.subtableBase cfg.subtableIndex, k.rule⟩

/-- The context of a ligature that keeps a glyph. -/
def contextEntry (l : NamedLigature) (first second : String) : RuleEntry :=
  ⟨contextLookup, contextSubtable first second,
    .contextChain (substitution l.shape first second l.result).context⟩

/-- The rules that a ligature puts into lookups. -/
def entries (cfg : Settings) (l : NamedLigature) : List RuleEntry :=
  if !l.shape.keepsLeft && !l.shape.keepsRight then [plainEntry cfg l]
  else
    match l.components with
    | [first, second] => [substitutionEntry cfg l first second, contextEntry l first second]
    | _ => []

theorem value_addTo (cfg : Settings) (l : NamedLigature) (ls : Lookups) :
    (l.addTo cfg ls).value = (l.entries cfg).foldl (Lookups.put cfg.scripts) ls := by
  unfold addTo entries
  split
  · rfl
  · rcases l.components with _ | ⟨first, _ | ⟨second, _ | ⟨third, rest⟩⟩⟩ <;> rfl

/-! ## the rules of a ligature -/

variable {cfg : Settings} {l : NamedLigature} {first second : String} {en : RuleEntry}

theorem isPlain_iff : (!l.shape.keepsLeft && !l.shape.keepsRight) = true ↔
    l.shape.family = .plain := by
  obtain ⟨result, ⟨left, right, skip⟩, components, feature⟩ := l
  cases left <;> cases right <;> simp [LigatureShape.family]

theorem lookup_substitution {shape : LigatureShape} (h : shape.family ≠ .plain)
    (first second result : String) :
    (substitution shape first second result).lookup =
      shape.family.spec (shape.suffix first second) := by
  rcases LigatureShape.family_cases h with ⟨hl, hr, hf⟩ | ⟨hl, hr, hf⟩ | ⟨hl, hr, hf⟩ <;>
    rw [substitution, hl, hr, LigatureShape.suffix, hf] <;> rfl

theorem context_substitution {shape : LigatureShape} (h : shape.family ≠ .plain)
    (first second result : String) :
    (substitution shape first second result).context = (shape.context first second).text := by
  rcases LigatureShape.family_cases h with ⟨hl, hr, hf⟩ | ⟨hl, hr, hf⟩ | ⟨hl, hr, hf⟩ <;>
    rw [substitution, hl, hr, LigatureShape.context, LigatureShape.suffix, hf] <;> rfl

/-- The marked glyph is the one that the substitution is for. -/
theorem replacement_substitution {shape : LigatureShape} (h : shape.family ≠ .plain)
    (first second result glyph : String) :
    (substitution shape first second result).rule.replacement? glyph =
      if (shape.context first second).marked = glyph then some (shape.replacement second result)
      else none := by
  rcases LigatureShape.family_cases h with ⟨hl, hr, hf⟩ | ⟨hl, hr, hf⟩ | ⟨hl, hr, hf⟩ <;>
    rw [substitution, hl, hr, LigatureShape.context, LigatureShape.replacement, hf] <;> rfl

theorem mem_entries_of_plain (h : l.shape.family = .plain) :
    en ∈ l.entries cfg ↔ en = plainEntry cfg l := by
  rw [entries, if_pos (isPlain_iff.mpr h), List.mem_singleton]

theorem mem_entries_of_not_plain (h : l.shape.family ≠ .plain)
    (hpair : l.components = [first, second]) :
    en ∈ l.entries cfg ↔
      en = substitutionEntry cfg l first second ∨ en = contextEntry l first second := by
  rw [entries, if_neg (fun hplain => h (isPlain_iff.mp hplain)), hpair]
  simp

/-- Where a rule of a ligature comes from. -/
theorem cases_of_mem_entries (h : en ∈ l.entries cfg) :
    (l.shape.family = .plain ∧ en = plainEntry cfg l) ∨
      (l.shape.family ≠ .plain ∧ ∃ first second, l.components = [first, second] ∧
        (en = substitutionEntry cfg l first second ∨ en = contextEntry l first second)) := by
  by_cases hplain : l.shape.family = .plain
  · exact .inl ⟨hplain, (mem_entries_of_plain hplain).mp h⟩
  · refine .inr ⟨hplain, ?_⟩
    have hpair : ∃ first second, l.components = [first, second] := by
      rw [entries, if_neg fun h' => hplain (isPlain_iff.mp h')] at h
      split at h
      · next first second hpair => exact ⟨first, second, hpair⟩
      · cases h
    obtain ⟨first, second, hpair⟩ := hpair
    exact ⟨first, second, hpair, (mem_entries_of_not_plain hplain hpair).mp h⟩

/-- Substitutions put one or more glyphs for a single one. -/
theorem rule_substitution_ne {rule : Rule} (hsingle : ∀ g r, .single g r ≠ rule)
    (hmultiple : ∀ g rs, .multiple g rs ≠ rule) (shape : LigatureShape)
    (first second result : String) : (substitution shape first second result).rule ≠ rule := by
  unfold substitution
  split
  · exact hsingle _ _
  · exact hsingle _ _
  · exact hmultiple _ _

/-- A rule for ligatures comes from a ligature that keeps no glyph. -/
theorem ligature_of_mem_entries {glyphs : List String} {result : String} (h : en ∈ l.entries cfg)
    (hrule : en.rule = .ligature glyphs result) :
    l.shape.family = .plain ∧ l.components = glyphs ∧ l.result = result := by
  rcases cases_of_mem_entries h with ⟨hplain, rfl⟩ | ⟨-, first, second, -, rfl | rfl⟩
  · obtain ⟨hcomponents, hresult⟩ := Rule.ligature.inj hrule
    exact ⟨hplain, hcomponents, hresult⟩
  · exact absurd hrule (rule_substitution_ne (by simp) (by simp) l.shape first second l.result)
  · cases hrule

/-- A context comes from a ligature that keeps a glyph. -/
theorem context_of_mem_entries {text : String} (h : en ∈ l.entries cfg)
    (hrule : en.rule = .contextChain text) :
    l.shape.family ≠ .plain ∧ ∃ first second, l.components = [first, second] ∧
      en.subtable = contextSubtable first second ∧ text = (l.shape.context first second).text := by
  rcases cases_of_mem_entries h with ⟨-, rfl⟩ | ⟨hkeeps, first, second, hpair, rfl | rfl⟩
  · cases hrule
  · exact absurd hrule (rule_substitution_ne (by simp) (by simp) l.shape first second l.result)
  · refine ⟨hkeeps, first, second, hpair, rfl, ?_⟩
    rw [← context_substitution hkeeps first second l.result]
    exact (Rule.contextChain.inj hrule).symm

/-- The specification of a lookup is that of a family. -/
theorem spec_of_mem_entries (h : en ∈ l.entries cfg) :
    ∃ family suffix, en.spec = LookupFamily.spec family suffix := by
  rcases cases_of_mem_entries h with ⟨-, rfl⟩ | ⟨hkeeps, first, second, -, rfl | rfl⟩
  · exact ⟨.plain, l.feature, rfl⟩
  · exact ⟨_, _, lookup_substitution hkeeps first second l.result⟩
  · exact ⟨.context, "", rfl⟩

/-- A rule in a lookup that a context calls is a substitution. -/
theorem substitution_of_mem_entries {family : LookupFamily} {suffix : String}
    (h : en ∈ l.entries cfg) (hname : en.spec.name = (family.spec suffix).name)
    (hplain : family ≠ .plain) (hcontext : family ≠ .context) :
    l.shape.family ≠ .plain ∧ ∃ first second, l.components = [first, second] ∧
      en = substitutionEntry cfg l first second ∧
      (l.shape.context first second).lookup = (family.spec suffix).name := by
  rcases cases_of_mem_entries h with ⟨-, rfl⟩ | ⟨hkeeps, first, second, hpair, rfl | rfl⟩
  · have hstem : (LookupFamily.plain.spec l.feature).name = (family.spec suffix).name := hname
    exact absurd (LookupFamily.eq_of_name_eq hstem).1.symm hplain
  · refine ⟨hkeeps, first, second, hpair, rfl, ?_⟩
    rw [← hname, substitutionEntry, lookup_substitution hkeeps]
    rfl
  · have hstem : (LookupFamily.context.spec "").name = (family.spec suffix).name := hname
    exact absurd (LookupFamily.eq_of_name_eq hstem).1.symm hcontext

end NamedLigature

/-! ## lookups of ligatures -/

/-- Lookups made of ligatures for different components. -/
structure Lookups.OfLigatures (cfg : Settings) (named : List NamedLigature) (ls : Lookups) :
    Prop where
  collects : ls.Collects (named.flatMap (NamedLigature.entries cfg))
  spec : ∀ l ∈ ls, ∃ en ∈ named.flatMap (NamedLigature.entries cfg),
    l.name = en.spec.name ∧ l.kind = en.spec.kind ∧ l.feature = en.spec.feature
  distinct : ∀ l ∈ named, ∀ l' ∈ named, l.components = l'.components → l = l'

namespace Lookups.OfLigatures

variable {cfg : Settings} {named : List NamedLigature} {ls : Lookups}

/-- The lookup of a rule, with what its specification says. -/
theorem exists_lookup (h : ls.OfLigatures cfg named) {l : NamedLigature} (hl : l ∈ named)
    {en : RuleEntry} (hen : en ∈ l.entries cfg) :
    ∃ lk ∈ ls, lk.name = en.spec.name ∧ lk.kind = en.spec.kind ∧ lk.feature = en.spec.feature ∧
      en.rule ∈ lk.rules := by
  have hmem := List.mem_flatMap.mpr ⟨l, hl, hen⟩
  obtain ⟨lk, hlk, hname⟩ := h.collects.covers en hmem
  obtain ⟨en', hen', hname', hkind, hfeature⟩ := h.spec lk hlk
  obtain ⟨l', -, hen'⟩ := List.mem_flatMap.mp hen'
  obtain ⟨family, suffix, hspec⟩ := NamedLigature.spec_of_mem_entries hen
  obtain ⟨family', suffix', hspec'⟩ := NamedLigature.spec_of_mem_entries hen'
  have heq : (family.spec suffix).name = (family'.spec suffix').name := by
    rw [← hspec, ← hspec', ← hname']
    exact hname.symm
  obtain ⟨rfl, rfl⟩ := LookupFamily.eq_of_name_eq heq
  have hsame : en'.spec = en.spec := hspec'.trans hspec.symm
  refine ⟨lk, hlk, hname, hsame ▸ hkind, hsame ▸ hfeature, ?_⟩
  exact (h.collects.mem_rules hlk).mpr ⟨en, hmem, hname.symm, rfl⟩

/-- A rule that makes one glyph of others comes from the ligature for them. -/
theorem ligature_of_ligates (h : ls.OfLigatures cfg named) {glyphs : List String} {result : String}
    (hligates : ls.Ligates glyphs result) :
    ∃ l ∈ named, l.shape.family = .plain ∧ l.components = glyphs ∧ l.result = result := by
  obtain ⟨lk, hlk, -, hrule⟩ := hligates
  obtain ⟨en, hen, -, hrule⟩ := (h.collects.mem_rules hlk).mp hrule
  obtain ⟨l, hl, hen⟩ := List.mem_flatMap.mp hen
  exact ⟨l, hl, NamedLigature.ligature_of_mem_entries hen hrule⟩

/-- A context for a pair comes from the ligature for the pair, even if others
share its subtable. -/
theorem ligature_of_context (h : ls.OfLigatures cfg named) {k : PairContext}
    (hk : .contextChain k.text ∈ ls.contexts k.first k.second) :
    ∃ l ∈ named, l.shape.family ≠ .plain ∧ l.components = [k.first, k.second] ∧
      k.text = (l.shape.context k.first k.second).text := by
  obtain ⟨en, hen, -, hsubtable, hrule⟩ := h.collects.mem_rulesIn.mp hk
  obtain ⟨l, hl, hen⟩ := List.mem_flatMap.mp hen
  obtain ⟨hkeeps, first, second, hpair, hsubtable', htext⟩ :=
    NamedLigature.context_of_mem_entries hen hrule
  have hsame : first = k.first ∧ second = k.second := by
    by_contra hne
    have hsub : NamedLigature.contextSubtable (l.shape.context first second).first
        (l.shape.context first second).second =
          NamedLigature.contextSubtable k.first k.second := hsubtable'.symm.trans hsubtable
    exact PairContext.text_ne hsub hne htext.symm
  obtain ⟨rfl, rfl⟩ := hsame
  exact ⟨l, hl, hkeeps, hpair, htext⟩

/-- A ligature that keeps no glyph makes one glyph of its pair. -/
theorem rewrites_whole (h : ls.OfLigatures cfg named) {l : NamedLigature} (hl : l ∈ named)
    {first second : String} (hpair : l.components = [first, second])
    (hplain : l.shape.family = .plain) : Rewrites ls first second [l.result] := by
  refine .whole ?_ ?_
  · intro r
    constructor
    · intro hligates
      obtain ⟨l', hl', -, hpair', hresult⟩ := h.ligature_of_ligates hligates
      rw [← hresult, h.distinct l hl l' hl' (hpair.trans hpair'.symm)]
    · rintro rfl
      have hen : NamedLigature.plainEntry cfg l ∈ l.entries cfg :=
        (NamedLigature.mem_entries_of_plain hplain).mpr rfl
      obtain ⟨lk, hlk, -, hkind, -, hrule⟩ := h.exists_lookup hl hen
      refine ⟨lk, hlk, hkind, ?_⟩
      rw [← hpair]
      exact hrule
  · rintro k rfl rfl hk
    obtain ⟨l', hl', hkeeps, hpair', -⟩ := h.ligature_of_context hk
    have hsame := h.distinct l hl l' hl' (hpair.trans hpair'.symm)
    rw [← hsame] at hkeeps
    exact hkeeps hplain

/-- The lookup that the context of a ligature calls has one rule for the marked
glyph, whatever other ligatures share it. -/
theorem filterMap_replacement (h : ls.OfLigatures cfg named) {l : NamedLigature} (hl : l ∈ named)
    {first second : String} (hpair : l.components = [first, second])
    (hkeeps : l.shape.family ≠ .plain) {lk : Lookup} (hlk : lk ∈ ls)
    (hname : lk.name = (l.shape.context first second).lookup)
    (hrule : (NamedLigature.substitutionEntry cfg l first second).rule ∈ lk.rules) :
    lk.rules.filterMap (·.replacement? (l.shape.context first second).marked) =
      [l.shape.replacement second l.result] := by
  have hcontext : l.shape.family ≠ .context := by
    rcases LigatureShape.family_cases hkeeps with ⟨-, -, hf⟩ | ⟨-, -, hf⟩ | ⟨-, -, hf⟩ <;>
      rw [hf] <;> decide
  -- every rule in the lookup is the substitution of some ligature
  have hsource : ∀ en ∈ named.flatMap (NamedLigature.entries cfg), en.spec.name = lk.name →
      ∃ l' ∈ named, l'.shape.family ≠ .plain ∧ ∃ first' second',
        l'.components = [first', second'] ∧
        en = NamedLigature.substitutionEntry cfg l' first' second' ∧
        (l'.shape.context first' second').lookup = (l.shape.context first second).lookup := by
    intro en hen hen_name
    obtain ⟨l', hl', hen⟩ := List.mem_flatMap.mp hen
    obtain ⟨hkeeps', first', second', hpair', heq, hlookup⟩ :=
      NamedLigature.substitution_of_mem_entries hen (hen_name.trans hname) hkeeps hcontext
    exact ⟨l', hl', hkeeps', first', second', hpair', heq, hlookup⟩
  have hone : ∀ en ∈ named.flatMap (NamedLigature.entries cfg), en.spec.name = lk.name →
      en.subtable = subtableName s!"{lk.name}_subtable" cfg.subtableIndex := by
    intro en hen hen_name
    obtain ⟨l', -, -, first', second', -, rfl, -⟩ := hsource en hen hen_name
    rw [← hen_name]
    rfl
  refine filterMap_eq_singleton (h.collects.nodup_rules hlk hone) hrule ?_ ?_
  · exact (NamedLigature.replacement_substitution hkeeps first second l.result _).trans
      (if_pos rfl)
  · intro rule hmem hne
    obtain ⟨en, hen, hen_name, rfl⟩ := (h.collects.mem_rules hlk).mp hmem
    obtain ⟨l', hl', hkeeps', first', second', hpair', rfl, hlookup⟩ := hsource en hen hen_name
    refine (NamedLigature.replacement_substitution hkeeps' first' second' l'.result _).trans
      (if_neg fun hmarked => hne ?_)
    obtain ⟨rfl, rfl⟩ := LigatureShape.pair_eq_of_lookup_eq hkeeps hlookup hmarked
    rw [h.distinct l hl l' hl' (hpair.trans hpair'.symm)]

/-- A ligature that keeps a glyph is a context for its pair, and a substitution
for the marked glyph. -/
theorem rewrites_inContext (h : ls.OfLigatures cfg named) {l : NamedLigature} (hl : l ∈ named)
    {first second : String} (hpair : l.components = [first, second])
    (hkeeps : l.shape.family ≠ .plain) :
    Rewrites ls first second (l.shape.expansion first second l.result) := by
  have hspec := NamedLigature.lookup_substitution hkeeps first second l.result
  have hsub : NamedLigature.substitutionEntry cfg l first second ∈ l.entries cfg :=
    (NamedLigature.mem_entries_of_not_plain hkeeps hpair).mpr (.inl rfl)
  have hctx : NamedLigature.contextEntry l first second ∈ l.entries cfg :=
    (NamedLigature.mem_entries_of_not_plain hkeeps hpair).mpr (.inr rfl)
  obtain ⟨lk, hlk, hname, -, hfeature, hrule⟩ := h.exists_lookup hl hsub
  have hlookup : lk.name = (l.shape.context first second).lookup := by
    rw [hname, NamedLigature.substitutionEntry, hspec]
    rfl
  rw [← LigatureShape.around_replacement hkeeps]
  refine .inContext ⟨rfl, rfl⟩ ?_ ?_ ?_ ?_ ?_
    (h.filterMap_replacement hl hpair hkeeps hlk hlookup hrule)
  · have hmem : .contextChain (l.shape.context first second).text ∈ ls.contexts first second := by
      refine h.collects.mem_rulesIn.mpr ⟨_, List.mem_flatMap.mpr ⟨l, hl, hctx⟩, rfl, rfl, ?_⟩
      rw [NamedLigature.contextEntry, NamedLigature.context_substitution hkeeps]
    exact List.count_eq_one_of_mem h.collects.nodup_rulesIn hmem
  · rintro k rfl rfl hk
    obtain ⟨l', hl', -, hpair', htext⟩ := h.ligature_of_context hk
    rw [htext, h.distinct l hl l' hl' (hpair.trans hpair'.symm)]
  · intro r hligates
    obtain ⟨l', hl', hplain, hpair', -⟩ := h.ligature_of_ligates hligates
    rw [← h.distinct l hl l' hl' (hpair.trans hpair'.symm)] at hplain
    exact hkeeps hplain
  · rw [← hlookup]
    exact h.collects.find?_eq hlk
  · rw [hfeature, NamedLigature.substitutionEntry, hspec]
    exact LigatureShape.feature_of_not_plain hkeeps _

/-- Lookups of ligatures make of a pair what its ligature says. -/
theorem rewrites (h : ls.OfLigatures cfg named) {l : NamedLigature} (hl : l ∈ named)
    {first second : String} (hpair : l.components = [first, second]) :
    Rewrites ls first second (l.shape.expansion first second l.result) := by
  by_cases hplain : l.shape.family = .plain
  · rw [LigatureShape.expansion_of_plain hplain]
    exact h.rewrites_whole hl hpair hplain
  · exact h.rewrites_inContext hl hpair hplain

/-- If no component has a blank in its name, then a context rule in any subtable
is that of the ligature for its pair. -/
theorem eq_context_of_blankless (h : ls.OfLigatures cfg named)
    (hnames : ∀ l ∈ named, ∀ name ∈ l.components, ' ' ∉ name.toList) {k : PairContext}
    (hk : k.Blankless) {lk : Lookup} (hlk : lk ∈ ls) (hrule : .contextChain k.text ∈ lk.rules) :
    ∃ l ∈ named, l.components = [k.first, k.second] ∧ k = l.shape.context k.first k.second := by
  obtain ⟨en, hen, -, hrule⟩ := (h.collects.mem_rules hlk).mp hrule
  obtain ⟨l, hl, hen⟩ := List.mem_flatMap.mp hen
  obtain ⟨-, first, second, hpair, -, htext⟩ := NamedLigature.context_of_mem_entries hen hrule
  have hblankless := l.shape.blankless_context (hnames l hl first (by simp [hpair]))
    (hnames l hl second (by simp [hpair]))
  have hsame := PairContext.eq_of_text_eq hk hblankless htext
  rw [hsame]
  exact ⟨l, hl, hpair, rfl⟩

end Lookups.OfLigatures

end FontTrace
