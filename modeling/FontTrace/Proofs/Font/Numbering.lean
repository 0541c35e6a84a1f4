import FontTrace.Proofs.Font.Entries
import FontTrace.Proofs.Replay.Lookups
import Mathlib.Data.List.InsertIdx

/-!
# FontTrace.Proofs.Font.Numbering

The index of a run in the names of subtables.  A run with an index makes the lookups of
the same run without one, with the index behind the names of their subtables; only the
subtables of context rules go by the names of their glyphs alone.

* `Lookups.numbered` — lookups with the index in the names of their subtables;
* `changeSubtable_numbered` — changing a subtable goes along with that;
* `follow_inRun`, `lookups_fontOf_inRun` — so do replays, and finished fonts;
* `run_index_apart_iff` — the index keeps runs apart if and only if no ligature of the run
  takes a context.
-/

namespace FontTrace

variable {σ : Type}

/-- The settings for the run with the given index. -/
def Settings.inRun (cfg : Settings) (index : Option Nat) : Settings :=
  { cfg with subtableIndex := index }

/-! ## names with an index -/

section Names

variable {base base' : String} {i j : Nat}

theorem subtableName_some (base : String) (i : Nat) :
    subtableName base (some i) = base ++ ("_" ++ toString i) := by
  rw [← String.append_assoc]
  rfl

theorem subtableName_inj {index : Option Nat} :
    subtableName base index = subtableName base' index ↔ base = base' := by
  cases index with
  | none => exact Iff.rfl
  | some i => rw [subtableName_some, subtableName_some, String.append_left_inj]

/-- Different runs have different names. -/
theorem subtableName_ne_of_ne (h : i ≠ j) (base : String) :
    subtableName base (some i) ≠ subtableName base (some j) := by
  intro hname
  rw [subtableName_some, subtableName_some, String.append_right_inj,
    String.append_right_inj] at hname
  have hdigits := congrArg (fun s => Nat.ofDigitChars 10 s.toList 0) hname
  exact h (by simpa [Nat.toString_eq_ofList_toDigits] using hdigits)

theorem subtableName_ne_base (base : String) (i : Nat) : subtableName base (some i) ≠ base := by
  intro hname
  have hlength := congrArg String.length hname
  rw [subtableName_some, String.length_append, String.length_append] at hlength
  have hone : "_".length = 1 := rfl
  omega

/-- What a subtable of a lookup is called in the run with an index, from its name in the
run without one. -/
def numberedName (index : Option Nat) (lookup name : String) : String :=
  if lookup = NamedLigature.contextLookup.name then name else subtableName name index

theorem numberedName_inj {index : Option Nat} {lookup name name' : String} :
    numberedName index lookup name = numberedName index lookup name' ↔ name = name' := by
  unfold numberedName
  split
  · exact Iff.rfl
  · exact subtableName_inj

theorem numberedName_of_ne {index : Option Nat} {lookup : String}
    (h : lookup ≠ NamedLigature.contextLookup.name) (base : String) :
    numberedName index lookup (subtableName base none) = subtableName base index := if_neg h

end Names

/-! ## lookups with an index -/

/-- A subtable under another name. -/
def Subtable.named (t : Subtable) (name : String) : Subtable := { t with name := name }

/-- A subtable with the index of a run in its name. -/
def Subtable.numbered (index : Option Nat) (lookup : String) (t : Subtable) : Subtable :=
  t.named (numberedName index lookup t.name)

/-- A lookup with the index of a run in the names of its subtables. -/
def Lookup.numbered (index : Option Nat) (l : Lookup) : Lookup :=
  { l with subtables := l.subtables.map (·.numbered index l.name) }

/-- Lookups with the index of a run in the names of their subtables. -/
def Lookups.numbered (index : Option Nat) (ls : Lookups) : Lookups := ls.map (·.numbered index)

/-- A change of a subtable that has nothing to do with its name. -/
def Subtable.Nameless (f : Subtable → Subtable) : Prop :=
  ∀ (t : Subtable) (name : String), f (t.named name) = (f t).named name

section Numbered

variable {index : Option Nat} {f : Subtable → Subtable}

theorem Subtable.Nameless.numbered (hf : Nameless f) (lookup : String) (t : Subtable) :
    (f t).numbered index lookup = f (t.numbered index lookup) := by
  have hname : (f t).name = ((f t).named t.name).name := congrArg Subtable.name (hf t t.name)
  rw [Subtable.numbered, Subtable.numbered, hf, hname]
  rfl

/-- Changing an element, before or behind a map. -/
theorem map_changeOrAppend_comm {α β : Type} {g : α → β} {fresh : α} {f : α → α} {f' : β → β}
    (test : α → Bool) (test' : β → Bool) (htest : ∀ a, test' (g a) = test a)
    (hf : ∀ a, g (f a) = f' (g a)) (xs : List α) :
    (changeOrAppend test fresh f xs).map g = changeOrAppend test' (g fresh) f' (xs.map g) := by
  induction xs with
  | nil => exact congrArg (fun b => [b]) (hf fresh)
  | cons x xs ih =>
      rw [changeOrAppend, List.map_cons, changeOrAppend, htest]
      split
      · rw [List.map_cons, hf]
      · rw [List.map_cons, ih]

theorem Lookup.numbered_changeSubtable (hf : Subtable.Nameless f) (l : Lookup) (name : String) :
    (l.changeSubtable name f).numbered index =
      (l.numbered index).changeSubtable (numberedName index l.name name) f := by
  have htest : ∀ t : Subtable,
      ((t.numbered index l.name).name == numberedName index l.name name) = (t.name == name) := by
    intro t
    rw [Bool.eq_iff_iff, beq_iff_eq, beq_iff_eq]
    exact numberedName_inj
  exact congrArg (fun ts => { l with subtables := ts })
    (map_changeOrAppend_comm (fun t => t.name == name)
      (fun t => t.name == numberedName index l.name name) htest (hf.numbered l.name) l.subtables)

namespace Lookups

theorem find?_numbered (ls : Lookups) (name : String) :
    (ls.numbered index).find? name = (ls.find? name).map (·.numbered index) := by
  rw [find?, find?, numbered, List.find?_map]
  rfl

theorem ensure_numbered (ls : Lookups) (spec : LookupSpec) (scripts : List ScriptLanguages) :
    (ls.ensure spec scripts).numbered index = (ls.numbered index).ensure spec scripts := by
  have hplace : (ls.numbered index).placeFor spec = ls.placeFor spec := by
    unfold placeFor
    rw [numbered, List.length_map]
    congr 2
    funext name
    rw [List.findIdx?_map]
    rfl
  unfold ensure
  rw [find?_numbered, Option.isSome_map, hplace]
  split
  · rfl
  · rw [numbered, List.map_insertIdx]
    rfl

theorem change_numbered {g g' : Lookup → Lookup} {name : String}
    (hg : ∀ l : Lookup, l.name = name → (g l).numbered index = g' (l.numbered index))
    (ls : Lookups) : numbered index (ls.change name g) = (ls.numbered index).change name g' := by
  induction ls with
  | nil => rfl
  | cons l ls ih =>
      show numbered index (change (l :: ls) name g) =
        change (l.numbered index :: numbered index ls) name g'
      have hname : (l.numbered index).name = l.name := rfl
      rw [change, change, hname]
      split
      · next h => exact congrArg (· :: numbered index ls) (hg l h)
      · exact congrArg (l.numbered index :: ·) ih

/-- Changing a subtable goes along with the index. -/
theorem changeSubtable_numbered (index : Option Nat) (hf : Subtable.Nameless f) (ls : Lookups)
    (spec : LookupSpec) (scripts : List ScriptLanguages) (name : String) :
    (ls.changeSubtable spec scripts name f).numbered index =
      (ls.numbered index).changeSubtable spec scripts (numberedName index spec.name name) f := by
  rw [changeSubtable, changeSubtable, ← ensure_numbered]
  refine change_numbered (fun l hl => ?_) _
  rw [Lookup.numbered_changeSubtable hf, hl]

end Lookups

end Numbered

/-! ## rules -/

/-- A rule for the run with an index. -/
def RuleEntry.numbered (index : Option Nat) (en : RuleEntry) : RuleEntry :=
  { en with subtable := numberedName index en.spec.name en.subtable }

section Rules

variable {index : Option Nat} {cfg : Settings}

theorem foldl_put_numbered (scripts : List ScriptLanguages) (entries : List RuleEntry)
    (ls : Lookups) : (entries.foldl (Lookups.put scripts) ls).numbered index =
      (entries.map (·.numbered index)).foldl (Lookups.put scripts) (ls.numbered index) := by
  induction entries generalizing ls with
  | nil => rfl
  | cons en entries ih =>
      have hnameless : Subtable.Nameless (·.addRule en.rule) := fun _ _ => rfl
      rw [List.foldl_cons, ih, Lookups.put,
        Lookups.changeSubtable_numbered index hnameless]
      rfl

/-- A rule that goes into a subtable of the run. -/
theorem numbered_of_ne {spec : LookupSpec} (h : spec.name ≠ NamedLigature.contextLookup.name)
    (base : String) (rule : Rule) :
    RuleEntry.numbered index ⟨spec, subtableName base none, rule⟩ =
      ⟨spec, subtableName base index, rule⟩ := by
  rw [RuleEntry.numbered, numberedName_of_ne h]

theorem spec_name_ne_context {family : LookupFamily} (h : family ≠ .context) (suffix : String) :
    (family.spec suffix).name ≠ NamedLigature.contextLookup.name := by
  intro hname
  have hsame : family = .context ∧ suffix = "" := LookupFamily.eq_of_name_eq hname
  exact h hsame.1

theorem kernLookup_name_ne_context : kernLookup.name ≠ NamedLigature.contextLookup.name := by
  decide

theorem plainLookup_name_ne_context (feature : String) :
    (LookupFamily.plain.spec feature).name ≠ NamedLigature.contextLookup.name :=
  spec_name_ne_context (by decide) feature

theorem alternateLookup_name_ne_context (feature : String) :
    (alternateLookup feature).name ≠ NamedLigature.contextLookup.name :=
  append_ne_append (a := "gsub_single_") (b := "gsub_contextchain") (by decide) (by decide)
    feature ""

/-- The rules of a ligature in the run with an index. -/
theorem entries_inRun_ligature (l : NamedLigature) : l.entries (cfg.inRun index) =
    (l.entries (cfg.inRun none)).map (·.numbered index) := by
  unfold NamedLigature.entries
  split
  · exact congrArg (fun en => [en])
      (numbered_of_ne (plainLookup_name_ne_context l.feature) _ _).symm
  · next hplain =>
    split
    · next first second hpair =>
      have hkeeps : l.shape.family ≠ .plain := fun h => hplain (NamedLigature.isPlain_iff.mpr h)
      have hne : (NamedLigature.substitution l.shape first second l.result).lookup.name ≠
          NamedLigature.contextLookup.name := by
        rw [NamedLigature.lookup_substitution hkeeps]
        refine spec_name_ne_context ?_ _
        rcases LigatureShape.family_cases hkeeps with ⟨-, -, hf⟩ | ⟨-, -, hf⟩ | ⟨-, -, hf⟩ <;>
          rw [hf] <;> decide
      exact congrArg (fun en => [en, NamedLigature.contextEntry l first second])
        (numbered_of_ne hne _ _).symm
    · rfl

/-- The rules of a state in the run with an index. -/
theorem entries_inRun (s : State σ) (ls : Lookups) :
    (s.withLookups ls).entries (cfg.inRun index) =
      (s.entries (cfg.inRun none)).map (·.numbered index) := by
  have hligatures : (s.withLookups ls).ligatureEntries (cfg.inRun index) =
      (s.ligatureEntries (cfg.inRun none)).map (·.numbered index) := by
    rw [State.ligatureEntries, State.ligatureEntries, List.map_flatMap]
    refine List.flatMap_congr fun r _ => ?_
    show (r.named? (cfg.inRun none) s.font).elim [] (NamedLigature.entries (cfg.inRun index)) =
      ((r.named? (cfg.inRun none) s.font).elim [] (NamedLigature.entries (cfg.inRun none))).map _
    cases r.named? (cfg.inRun none) s.font with
    | none => rfl
    | some l => exact entries_inRun_ligature l
  have hkern : ∀ rule, kernEntry (cfg.inRun index) rule =
      (kernEntry (cfg.inRun none) rule).numbered index :=
    fun rule => (numbered_of_ne kernLookup_name_ne_context _ rule).symm
  have hkerns : ∀ kerns, kernEntries (cfg.inRun index) s.font kerns =
      (kernEntries (cfg.inRun none) s.font kerns).map (·.numbered index) := by
    intro kerns
    have hmode : (cfg.inRun index).kerningClasses = (cfg.inRun none).kerningClasses := rfl
    unfold kernEntries
    rw [hmode]
    split
    · split
      · rfl
      · rw [hkern]
        rfl
    · rw [List.map_map]
      exact List.map_congr_left fun rule _ => hkern rule
  have hreplacements : replacementEntries (cfg.inRun index) s.font s.tables.replacements =
      (replacementEntries (cfg.inRun none) s.font s.tables.replacements).map
        (·.numbered index) := by
    rw [replacementEntries, replacementEntries, List.map_map]
    exact List.map_congr_left fun r _ =>
      (numbered_of_ne (alternateLookup_name_ne_context r.feature) _ _).symm
  rw [State.entries, State.entries, List.map_append, List.map_append, ← hligatures,
    ← hreplacements, ← hkerns]
  rfl

end Rules

/-! ## replays -/

/-- The state with the index of a run in its lookups. -/
def State.numbered (index : Option Nat) (s : State σ) : State σ :=
  s.withLookups (s.font.lookups.numbered index)

section Runs

variable {e : Engine σ} {cfg : Settings} {index : Option Nat}

/-- A command in the run with an index. -/
theorem perform_inRun (c : Command) (s : State σ) :
    (perform e (cfg.inRun index) c (s.numbered index)).value =
      ((perform e (cfg.inRun none) c s).value.1.numbered index,
        (perform e (cfg.inRun none) c s).value.2) := by
  by_cases hanchor : c.isAnchor = true
  · cases c with
    | anchor feature a =>
        have hnameless : Subtable.Nameless (·.addAnchorClass a.anchorClass) := fun _ _ => rfl
        have hname : feature.lookup.name ≠ NamedLigature.contextLookup.name := by
          cases feature <;> decide
        have hlookups := Lookups.changeSubtable_numbered index hnameless s.font.lookups
          feature.lookup cfg.scripts (subtableName feature.lookup.subtableBase none)
        rw [numberedName_of_ne hname] at hlookups
        exact congrArg (fun ls =>
          ((perform e (cfg.inRun none) (.anchor feature a) s).value.1.withLookups ls, none))
          hlookups.symm
    | _ => cases hanchor
  · have hanchor : c.isAnchor = false := (Bool.not_eq_true _).mp hanchor
    have hindex : perform e (cfg.inRun index) c = perform e (cfg.inRun none) c := by
      cases c with
      | anchor feature a => cases hanchor
      | _ => rfl
    rw [hindex, State.numbered, perform_withLookups e _ hanchor, State.numbered,
      lookups_perform_of_not_anchor e _ hanchor]

theorem step_inRun (s : State σ) (k : Construct) :
    (State.step e (cfg.inRun index) (s.numbered index) k).value =
      (State.step e (cfg.inRun none) s k).value.numbered index := by
  have hperform : (k.perform e (cfg.inRun index) (s.numbered index)).value =
      ((k.perform e (cfg.inRun none) s).value.1.numbered index,
        (k.perform e (cfg.inRun none) s).value.2) := by
    have hdisabled : k.isDisabled (cfg.inRun index) = k.isDisabled (cfg.inRun none) := rfl
    unfold Construct.perform
    rw [hdisabled]
    split
    · rfl
    · split
      · rfl
      · exact perform_inRun _ s
  rw [value_step, value_step, hperform]
  rfl

/-- A replay in the run with an index. -/
theorem follow_inRun (script : Script) (s : State σ) :
    ((s.numbered index).follow e (cfg.inRun index) script).value =
      (s.follow e (cfg.inRun none) script).value.numbered index := by
  induction script generalizing s with
  | nil => rfl
  | cons k script ih => rw [follow_cons, follow_cons, step_inRun, ih]

theorem run_inRun (engine : σ) (encoding : Encoding) (records : List Record) :
    ((State.initial engine (cfg.inRun index) encoding).run e (cfg.inRun index) records).value =
      ((State.initial engine (cfg.inRun none) encoding).run e (cfg.inRun none)
        records).value.numbered index :=
  follow_inRun (Script.ofRecords records) (State.initial engine (cfg.inRun none) encoding)

/-- The lookups of a font in the run with an index are those of the run without one, with
the index in the names of their subtables. -/
theorem lookups_fontOf_inRun (engine : σ) (encoding : Encoding) (records : List Record) :
    (fontOf e engine (cfg.inRun index) encoding records).value.lookups =
      (fontOf e engine (cfg.inRun none) encoding records).value.lookups.numbered index := by
  show (finish e (cfg.inRun index) _).value.1.lookups =
    (finish e (cfg.inRun none) _).value.1.lookups.numbered index
  rw [lookups_finish_eq_foldl, lookups_finish_eq_foldl, foldl_put_numbered, run_inRun,
    State.numbered, entries_inRun]
  rfl

/-- A font has a subtable of context rules if and only if a ligature takes a context. -/
theorem exists_context_subtable_iff (e : Engine σ) (engine : σ) (cfg : Settings)
    (encoding : Encoding) (records : List Record) :
    (∃ l ∈ (fontOf e engine cfg encoding records).value.lookups,
        l.name = NamedLigature.contextLookup.name ∧ l.subtables ≠ []) ↔
      ∃ l first second, ((State.initial engine cfg encoding).run e cfg records).value.InContext
        cfg l first second := by
  have hafter : ∀ en ∈ ((State.initial engine cfg encoding).run e cfg records).value.entries cfg,
      en.spec.after = none := fun en => after_of_mem_entries
  show (∃ l ∈ (finish e cfg _).value.1.lookups, _) ↔ _
  rw [lookups_finish_eq_foldl]
  constructor
  · rintro ⟨l, hl, hname, -⟩
    rcases Lookups.mem_names_foldl_put (List.mem_map_of_mem hl) with hold | ⟨en, hen, hspec⟩
    · rw [hname] at hold
      exact absurd hold (not_mem_lookups_follow e engine cfg encoding _
        (isSubstitutionName_spec .context ""))
    rw [hname] at hspec
    rcases cases_of_mem_entries hen with hligature | ⟨r, rfl⟩ | ⟨r, -, -, rfl⟩
    · rcases cases_of_mem_ligatureEntries hligature with
        ⟨l, rfl⟩ | ⟨l, first, second, hcontext, -⟩
      · exact absurd hspec (plainLookup_name_ne_context l.feature)
      · exact ⟨l, first, second, hcontext⟩
    · exact absurd hspec kernLookup_name_ne_context
    · exact absurd hspec (alternateLookup_name_ne_context r.feature)
  · rintro ⟨l, first, second, hcontext⟩
    let en := NamedLigature.contextEntry l first second
    have hen : en ∈ State.entries cfg _ :=
      List.mem_append_left _ (List.mem_append_left _ (hcontext.mem_entries (.inr rfl)))
    obtain ⟨lk, t, hlk, ht, -, -⟩ := Lookups.exists_of_mem_rulesIn
      ((Lookups.mem_rulesIn_foldl hafter).mpr (.inr ⟨en, hen, rfl, rfl, rfl⟩))
    exact ⟨lk, List.mem_of_find?_eq_some hlk, key_of_find? hlk, List.ne_nil_of_mem ht⟩

end Runs

/-! ## keeping runs apart -/

/-- The names of the subtables of a font, lookup by lookup. -/
def Font.subtableNames (f : Font) : List (List String) :=
  f.lookups.map fun l => l.subtables.map (·.name)

/-- The name of the subtable at a place. -/
def Font.subtableNameAt? (f : Font) (i j : Nat) : Option String :=
  f.subtableNames[i]?.bind (·[j]?)

/-- Two fonts share no name of a subtable at the same place. -/
def Font.ShareNoName (f f' : Font) : Prop :=
  ∀ i j name, f.subtableNameAt? i j = some name → f'.subtableNameAt? i j ≠ some name

section Apart

variable {e : Engine σ} {cfg : Settings}

theorem subtableNames_fontOf_inRun (index : Option Nat) (engine : σ) (encoding : Encoding)
    (records : List Record) :
    (fontOf e engine (cfg.inRun index) encoding records).value.subtableNames =
      (fontOf e engine (cfg.inRun none) encoding records).value.lookups.map fun l =>
        l.subtables.map fun t => numberedName index l.name t.name := by
  rw [Font.subtableNames, lookups_fontOf_inRun, Lookups.numbered, List.map_map]
  refine List.map_congr_left fun l _ => ?_
  exact List.map_map

theorem numberedName_eq_iff {lookup name : String} {i : Nat} :
    numberedName (some i) lookup name = subtableName name (some i) ↔
      lookup ≠ NamedLigature.contextLookup.name := by
  unfold numberedName
  split
  · next h => simp [h, (subtableName_ne_base name i).symm]
  · next h => simp [h]

theorem numberedName_ne_iff {lookup name : String} {i j : Nat} (hne : i ≠ j) :
    numberedName (some i) lookup name ≠ numberedName (some j) lookup name ↔
      lookup ≠ NamedLigature.contextLookup.name := by
  unfold numberedName
  split
  · next h => simp [h]
  · next h => simp [h, subtableName_ne_of_ne hne name]

/-- The index is behind all names of subtables if and only if none is for contexts. -/
theorem subtableNames_eq_iff (engine : σ) (encoding : Encoding) (records : List Record)
    (i : Nat) :
    (fontOf e engine (cfg.inRun (some i)) encoding records).value.subtableNames =
        (fontOf e engine (cfg.inRun none) encoding records).value.subtableNames.map
          (·.map (subtableName · (some i))) ↔
      ∀ l ∈ (fontOf e engine (cfg.inRun none) encoding records).value.lookups,
        l.name = NamedLigature.contextLookup.name → l.subtables = [] := by
  rw [subtableNames_fontOf_inRun, Font.subtableNames, List.map_map, List.map_inj_left]
  refine forall_congr' fun l => forall_congr' fun _ => ?_
  rw [Function.comp_apply, List.map_map, List.map_inj_left]
  simp only [Function.comp_apply, numberedName_eq_iff]
  constructor
  · intro h hname
    exact List.eq_nil_iff_forall_not_mem.mpr fun t ht => h t ht hname
  · intro h t ht hname
    rw [h hname] at ht
    cases ht

/-- Runs with different indices share no name if and only if no subtable is for contexts. -/
theorem shareNoName_iff (engine : σ) (encoding : Encoding) (records : List Record) {i j : Nat}
    (hne : i ≠ j) :
    (fontOf e engine (cfg.inRun (some i)) encoding records).value.ShareNoName
        (fontOf e engine (cfg.inRun (some j)) encoding records).value ↔
      ∀ l ∈ (fontOf e engine (cfg.inRun none) encoding records).value.lookups,
        l.name = NamedLigature.contextLookup.name → l.subtables = [] := by
  -- A place is that of a subtable in the run without an index, whatever the index is.
  have hplace : ∀ index a b name,
      (fontOf e engine (cfg.inRun index) encoding records).value.subtableNameAt? a b = some name ↔
        ∃ l, (fontOf e engine (cfg.inRun none) encoding records).value.lookups[a]? = some l ∧
          ∃ t, l.subtables[b]? = some t ∧ numberedName index l.name t.name = name := by
    intro index a b name
    rw [Font.subtableNameAt?, subtableNames_fontOf_inRun]
    simp only [Option.bind_eq_some_iff, List.getElem?_map, Option.map_eq_some_iff]
    constructor
    · rintro ⟨names, ⟨l, hl, rfl⟩, hname⟩
      rw [List.getElem?_map, Option.map_eq_some_iff] at hname
      exact ⟨l, hl, hname⟩
    · rintro ⟨l, hl, hname⟩
      refine ⟨_, ⟨l, hl, rfl⟩, ?_⟩
      rw [List.getElem?_map, Option.map_eq_some_iff]
      exact hname
  constructor
  · intro h l hl hname
    refine List.eq_nil_iff_forall_not_mem.mpr fun t ht => ?_
    obtain ⟨a, ha⟩ := List.mem_iff_getElem?.mp hl
    obtain ⟨b, hb⟩ := List.mem_iff_getElem?.mp ht
    have hdiffer : numberedName (some i) l.name t.name ≠ numberedName (some j) l.name t.name := by
      intro heq
      exact h a b _ ((hplace (some i) a b _).mpr ⟨l, ha, t, hb, rfl⟩)
        ((hplace (some j) a b _).mpr ⟨l, ha, t, hb, heq.symm⟩)
    exact absurd hname ((numberedName_ne_iff hne).mp hdiffer)
  · intro h a b name hi hj
    obtain ⟨l, hl, t, ht, rfl⟩ := (hplace (some i) a b name).mp hi
    obtain ⟨l', hl', t', ht', heq⟩ := (hplace (some j) a b _).mp hj
    obtain rfl := Option.some.inj (hl.symm.trans hl')
    obtain rfl := Option.some.inj (ht.symm.trans ht')
    refine (numberedName_ne_iff hne).mpr (fun hname => ?_) heq.symm
    have hnil := h l (List.mem_of_getElem? hl) hname
    rw [hnil] at ht
    cases ht

/-- The index of a run keeps it apart from the same run with another index or without one,
if and only if no ligature of the run takes a context. -/
theorem run_index_apart_iff (e : Engine σ) (engine : σ) (cfg : Settings) (encoding : Encoding)
    (records : List Record) {i j : Nat} (hne : i ≠ j) :
    let font (index : Option Nat) := (fontOf e engine (cfg.inRun index) encoding records).value
    let s := ((State.initial engine (cfg.inRun none) encoding).run e (cfg.inRun none) records).value
    ((font (some i)).subtableNames =
        (font none).subtableNames.map (·.map (subtableName · (some i))) ↔
      ∀ l first second, ¬s.InContext (cfg.inRun none) l first second) ∧
    ((font (some i)).ShareNoName (font (some j)) ↔
      ∀ l first second, ¬s.InContext (cfg.inRun none) l first second) := by
  intro font s
  have hcontexts : (∀ l ∈ (font none).lookups,
      l.name = NamedLigature.contextLookup.name → l.subtables = []) ↔
        ∀ l first second, ¬s.InContext (cfg.inRun none) l first second := by
    have hiff := not_congr (exists_context_subtable_iff e engine (cfg.inRun none) encoding records)
    simpa only [not_exists, not_and, not_not] using hiff
  exact ⟨(subtableNames_eq_iff engine encoding records i).trans hcontexts,
    (shareNoName_iff engine encoding records hne).trans hcontexts⟩

/-- A ligature that keeps none of its characters has its rule in a subtable of the run. -/
theorem run_index_apart_of_plain_ligature :
    let cfg : Settings := { setMathDefaults := false }
    let box (code : String) : Record :=
      ⟨"shipout", none, "10>> " ++ code ++ ">> 0>> 30>> 70>> 2>> 0>> 0>> 0>> 0>> 0"⟩
    let pic : Record := ⟨"pic", none, "\"p\""⟩
    let records : List Record :=
      [⟨"picture", none, "\"p\""⟩, box "102", pic, box "105", pic, box "120", pic,
        ⟨"ligtable", none, "10>> \"f\""⟩, ⟨":", none, "\"i\""⟩, ⟨"=:", none, "120"⟩]
    let font (index : Option Nat) :=
      (fontOf Engine.basic () (cfg.inRun index) .unicode records).value
    3 ≠ 4 ∧ (font none).subtableNames = [["gsub_ligature_liga_subtable"]] ∧
      (font (some 3)).subtableNames = [["gsub_ligature_liga_subtable_3"]] ∧
      (font (some 3)).ShareNoName (font (some 4)) := by
  intro cfg box pic records font
  have hrun : (font none).subtableNames = [["gsub_ligature_liga_subtable"]] ∧
      (font none).lookups.names = ["gsub_ligature_liga"] := by
    decide +kernel
  obtain ⟨hnames, hlookups⟩ := hrun
  have hne : 3 ≠ 4 := by decide
  obtain ⟨hindex, happart⟩ := run_index_apart_iff Engine.basic () cfg .unicode records hne
  have hnone : ∀ l first second, ¬((State.initial () (cfg.inRun none) .unicode).run Engine.basic
      (cfg.inRun none) records).value.InContext (cfg.inRun none) l first second := by
    intro l first second hl
    obtain ⟨lk, hlk, hname, -⟩ := (exists_context_subtable_iff Engine.basic () (cfg.inRun none)
      .unicode records).mpr ⟨l, first, second, hl⟩
    have hmem : lk.name ∈ (font none).lookups.names := List.mem_map_of_mem hlk
    rw [hlookups, hname] at hmem
    exact absurd hmem (by decide)
  refine ⟨hne, hnames, (hindex.mpr hnone).trans ?_, happart.mpr hnone⟩
  show (font none).subtableNames.map _ = _
  rw [hnames]
  decide

/-- A ligature that keeps its first character.  The subtable of its context has one name
in all runs. -/
theorem context_subtable_shared :
    let cfg : Settings := { setMathDefaults := false }
    let box (code : String) : Record :=
      ⟨"shipout", none, "10>> " ++ code ++ ">> 0>> 30>> 70>> 2>> 0>> 0>> 0>> 0>> 0"⟩
    let pic : Record := ⟨"pic", none, "\"p\""⟩
    let records : List Record :=
      [⟨"picture", none, "\"p\""⟩, box "102", pic, box "105", pic, box "120", pic,
        ⟨"ligtable", none, "10>> \"f\""⟩, ⟨":", none, "\"i\""⟩, ⟨"p=:", none, "120"⟩]
    let font (index : Option Nat) :=
      (fontOf Engine.basic () (cfg.inRun index) .unicode records).value
    (font (some 3)).subtableNames =
        [["gsub_single_after_f_subtable_3"], ["gsub_contextchain_subtable_f_i"]] ∧
      (font none).subtableNames.map (·.map (subtableName · (some 3))) =
        [["gsub_single_after_f_subtable_3"], ["gsub_contextchain_subtable_f_i_3"]] ∧
      ¬(font (some 3)).ShareNoName (font (some 4)) := by
  intro cfg box pic records font
  have hrun : (font (some 3)).subtableNames =
        [["gsub_single_after_f_subtable_3"], ["gsub_contextchain_subtable_f_i"]] ∧
      (font none).subtableNames.map (·.map (subtableName · (some 3))) =
        [["gsub_single_after_f_subtable_3"], ["gsub_contextchain_subtable_f_i_3"]] ∧
      (font (some 3)).subtableNameAt? 1 0 = some "gsub_contextchain_subtable_f_i" ∧
      (font (some 4)).subtableNameAt? 1 0 = some "gsub_contextchain_subtable_f_i" := by
    decide +kernel
  obtain ⟨hnames, hclaimed, hthird, hfourth⟩ := hrun
  exact ⟨hnames, hclaimed, fun happart => happart 1 0 _ hthird hfourth⟩

end Apart

end FontTrace
