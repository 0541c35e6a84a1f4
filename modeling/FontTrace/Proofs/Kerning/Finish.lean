import FontTrace.Proofs.Font.Roster
import FontTrace.Proofs.Ligature.Finish
import FontTrace.Proofs.Replay.Effect

/-!
# FontTrace.Proofs.Kerning.Finish

Kerns of a trace in the finished font.  Nothing but the kerns themselves goes
into the subtable for kerning, and what is done in front of them does not change
which glyphs their operands name.

* `kernRules_run` — a replay puts nothing into the subtable for kerning;
* `kernRules_finish` — finishing a font puts into it what the named kerns say.
-/

namespace FontTrace

variable {σ : Type}

/-! ## the subtable for kerning -/

/-- The rules for kerning of a run. -/
def Font.kernRules (cfg : Settings) (f : Font) : List Rule :=
  f.lookups.rulesIn kernLookup.name (subtableName kernLookup.subtableBase cfg.subtableIndex)

theorem kernRules_of_lookups_eq {f f' : Font} (h : f'.lookups = f.lookups) (cfg : Settings) :
    f'.kernRules cfg = f.kernRules cfg := by
  rw [Font.kernRules, Font.kernRules, h]

/-- A rule for kerning as an entry. -/
def kernEntry (cfg : Settings) (r : Rule) : RuleEntry :=
  ⟨kernLookup, subtableName kernLookup.subtableBase cfg.subtableIndex, r⟩

theorem kernRules_addKernRule (cfg : Settings) (f : Font) (r : Rule) :
    (f.addKernRule cfg r).kernRules cfg = addNew (f.kernRules cfg) r := by
  have hlookups : (f.addKernRule cfg r).lookups = f.lookups.put cfg.scripts (kernEntry cfg r) := rfl
  rw [Font.kernRules, hlookups, Lookups.rulesIn_put cfg.scripts f.lookups rfl]
  exact if_pos ⟨rfl, rfl⟩

/-- Rules for substitutions do not come into the subtable for kerning. -/
theorem kernRules_put {cfg : Settings} {f f' : Font} {en : RuleEntry}
    (hlookups : f'.lookups = f.lookups.put cfg.scripts en) (hafter : en.spec.after = none)
    (hname : isSubstitutionName en.spec.name = true) : f'.kernRules cfg = f.kernRules cfg := by
  have hne : en.spec.name ≠ kernLookup.name := by
    intro h
    rw [h] at hname
    exact absurd hname (by decide)
  rw [Font.kernRules, hlookups, Lookups.rulesIn_put cfg.scripts f.lookups hafter]
  exact if_neg fun h => hne h.1

theorem kernRules_putAll (cfg : Settings) (f : Font) {entries : List RuleEntry}
    (h : ∀ en ∈ entries, ∃ family suffix, en.spec = LookupFamily.spec family suffix) :
    (f.putAll cfg entries).kernRules cfg = f.kernRules cfg := by
  induction entries generalizing f with
  | nil => rfl
  | cons en entries ih =>
      obtain ⟨family, suffix, hspec⟩ := h en List.mem_cons_self
      have hname : isSubstitutionName en.spec.name = true := by
        rw [hspec]
        exact isSubstitutionName_spec family suffix
      have hfirst : (f.putAll cfg [en]).kernRules cfg = f.kernRules cfg :=
        kernRules_put rfl (by rw [hspec]; rfl) hname
      rw [← hfirst, ← ih (f.putAll cfg [en]) fun en' hen' => h en' (List.mem_cons_of_mem _ hen')]
      rfl

theorem kernRules_buildLigatures (cfg : Settings) (rules : List LigatureRule) (f : Font) :
    (buildLigatures cfg rules f).value.kernRules cfg = f.kernRules cfg := by
  rw [value_buildLigatures, flatMap_entries]
  exact kernRules_putAll cfg f fun en hen => spec_of_mem_flatMap hen

theorem isSubstitutionName_alternate (feature : String) :
    isSubstitutionName (alternateLookup feature).name = true := by
  have hname : (alternateLookup feature).name.toList =
      "gsub_single_".toList ++ feature.toList := by
    simp [alternateLookup, toString, String.toList_append]
  rw [isSubstitutionName, List.isPrefixOf_iff_prefix, hname]
  exact (show "gsub_".toList <+: "gsub_single_".toList by decide).trans (List.prefix_append _ _)

theorem kernRules_addReplacement (cfg : Settings) (f : Font) (r : Replacement) :
    (addReplacement cfg f r).value.kernRules cfg = f.kernRules cfg := by
  unfold addReplacement
  split
  · exact @kernRules_put cfg f _ ⟨alternateLookup r.feature, _, _⟩ rfl rfl
      (isSubstitutionName_alternate r.feature)
  · rfl

/-! ## named kerns -/

/-- The kerns with the names that a font has for their operands, without those
against the skew character. -/
def namedKerns (cfg : Settings) (kerns : List (KernPair CharRef)) (f : Font) :
    List (KernPair String) :=
  (kerns.filter fun p => !isSkew cfg.accentCode? p).map fun p => (namedPair cfg f p).value

theorem namedKerns_of_sameRoster {f f' : Font} (h : SameRoster f f') (cfg : Settings)
    (kerns : List (KernPair CharRef)) : namedKerns cfg kerns f' = namedKerns cfg kerns f := by
  unfold namedKerns namedPair
  rw [h.resolve]

/-- A kern as a rule, if the font has both glyphs. -/
def pairRule? (f : Font) (p : KernPair String) : Option Rule :=
  if f.hasGlyph p.left && f.hasGlyph p.right then some (.pair p.left p.right p.kern) else none

theorem kernRules_addPairs (cfg : Settings) (pairs : List (KernPair String)) (f : Font) :
    (pairs.foldlM (addPair cfg) f).value.kernRules cfg =
      (pairs.filterMap (pairRule? f)).foldl addNew (f.kernRules cfg) := by
  rw [value_foldlM]
  induction pairs generalizing f with
  | nil => rfl
  | cons p pairs ih =>
      have hroster : pairRule? (addPair cfg f p).value = pairRule? f := by
        unfold addPair
        split <;> rfl
      rw [List.foldl_cons, ih, hroster]
      unfold addPair
      by_cases hboth : (f.hasGlyph p.left && f.hasGlyph p.right) = true
      · have hrule : pairRule? f p = some (.pair p.left p.right p.kern) := if_pos hboth
        rw [if_pos hboth, List.filterMap_cons_some hrule, List.foldl_cons, Noted.value_pure,
          kernRules_addKernRule]
      · have hrule : pairRule? f p = none := if_neg hboth
        rw [if_neg hboth, List.filterMap_cons_none hrule]
        rfl

/-- The rules for kerning behind the kerns, if there were none in front of them. -/
theorem kernRules_buildKerning (cfg : Settings) (kerns : List (KernPair CharRef)) {f : Font}
    (hnone : f.kernRules cfg = []) :
    (buildKerning cfg kerns f).value.kernRules cfg =
      if cfg.kerningClasses then
        if namedKerns cfg kerns f = [] then []
        else [.kerningClasses (KernClasses.ofPairs (namedKerns cfg kerns f)).compact]
      else ((namedKerns cfg kerns f).filterMap (pairRule? f)).foldl addNew [] := by
  unfold buildKerning namedKerns
  dsimp only
  cases hkerns : kerns.filter fun p => !isSkew cfg.accentCode? p with
  | nil => simpa using hnone
  | cons p rest =>
      rw [if_neg (by simp), Noted.value_bind, value_mapM]
      split
      · rw [Noted.value_pure, kernRules_addKernRule, hnone, if_neg (by simp)]
        rfl
      · rw [kernRules_addPairs, hnone]

/-! ## replays -/

namespace Lookups

theorem mem_names_ensure {ls : Lookups} {spec : LookupSpec} {scripts : List ScriptLanguages}
    {other : String} (h : other ∈ (ls.ensure spec scripts).names) :
    other ∈ ls.names ∨ other = spec.name := by
  unfold ensure at h
  split at h
  · exact .inl h
  · obtain ⟨l, hl, rfl⟩ := List.mem_map.mp h
    by_cases hplace : ls.placeFor spec ≤ ls.length
    · rcases (List.mem_insertIdx hplace).mp hl with rfl | hl
      · exact .inr rfl
      · exact .inl (List.mem_map_of_mem hl)
    · rw [List.insertIdx_of_length_lt (Nat.lt_of_not_le hplace)] at hl
      exact .inl (List.mem_map_of_mem hl)

/-- Changing a subtable makes no lookup but its own. -/
theorem mem_names_changeSubtable {ls : Lookups} {spec : LookupSpec}
    {scripts : List ScriptLanguages} {subtable other : String} {f : Subtable → Subtable}
    (h : other ∈ (ls.changeSubtable spec scripts subtable f).names) :
    other ∈ ls.names ∨ other = spec.name := by
  have hkeep : ∀ l : Lookup, (l.changeSubtable subtable f).name = l.name := fun _ => rfl
  rw [changeSubtable, names_change hkeep] at h
  exact mem_names_ensure h

theorem rulesIn_of_not_mem {ls : Lookups} {lookup : String} (h : lookup ∉ ls.names)
    (subtable : String) : ls.rulesIn lookup subtable = [] := by
  have hnone : ls.find? lookup = none := by
    refine List.find?_eq_none.mpr fun l hl hname => h (List.mem_map.mpr ⟨l, hl, ?_⟩)
    exact eq_of_beq hname
  rw [rulesIn, hnone]
  rfl

end Lookups

/-- No command makes the lookup for kerning. -/
theorem no_kernLookup_perform (e : Engine σ) (cfg : Settings) (c : Command) (s : State σ)
    (h : kernLookup.name ∉ s.font.lookups.names) :
    kernLookup.name ∉ (perform e cfg c s).value.1.font.lookups.names := by
  rcases lookups_perform e cfg c s with hsame | ⟨feature, anchorClass, hchanged⟩
  · exact hsame ▸ h
  · rw [hchanged]
    intro hmem
    rcases Lookups.mem_names_changeSubtable hmem with hold | hnew
    · exact h hold
    · cases feature <;> exact absurd hnew (by decide)

/-- A replay puts nothing into the subtable for kerning. -/
theorem kernRules_run (e : Engine σ) (engine : σ) (cfg : Settings) (encoding : Encoding)
    (records : List Record) :
    ((State.initial engine cfg encoding).run e cfg records).value.font.kernRules cfg = [] := by
  have hkeeps := follow_keeps (e := e) (P := fun s => kernLookup.name ∉ s.font.lookups.names)
    (fun _ _ h => h) (no_kernLookup_perform e cfg) (Script.ofRecords records)
    (s := State.initial engine cfg encoding) List.not_mem_nil
  exact Lookups.rulesIn_of_not_mem hkeeps _

/-! ## the finished font -/

/-- Behind the kerns nothing comes into the subtable for kerning. -/
theorem kernRules_finish_eq (e : Engine σ) (cfg : Settings) (s : State σ) :
    (finish e cfg s).value.1.kernRules cfg = (buildTables cfg s).value.kernRules cfg := by
  obtain ⟨info, hfinish⟩ := exists_finish e cfg s
  rw [hfinish]
  calc _ = (s.tables.references.foldlM attachReference
        ((postProcessFont e (buildTables cfg s).value).run s.engine).1).value.kernRules cfg :=
        foldlM_keeps (kernRules_addReplacement cfg) s.tables.replacements _
    _ = ((postProcessFont e (buildTables cfg s).value).run s.engine).1.kernRules cfg :=
        kernRules_of_lookups_eq (lookups_attachReferences s.tables.references _) cfg
    _ = (buildTables cfg s).value.kernRules cfg :=
        kernRules_of_lookups_eq (lookups_postProcessFont e _ s.engine) cfg

/-- The rules for kerning of a finished font. -/
theorem kernRules_finish (e : Engine σ) (cfg : Settings) {s : State σ}
    (hnone : s.font.kernRules cfg = []) :
    let kerns := namedKerns cfg s.tables.kerns s.font
    (finish e cfg s).value.1.kernRules cfg =
      if cfg.kerningClasses then
        if kerns = [] then [] else [.kerningClasses (KernClasses.ofPairs kerns).compact]
      else (kerns.filterMap (pairRule? s.font)).foldl addNew [] := by
  intro kerns
  let f := (placeAccents cfg s.explicit.topAccents s.tables.kerns
    (buildLigatures cfg s.tables.ligatures s.font).value).value
  have hroster : SameRoster s.font f :=
    SameGlyphs.sameRoster <| (sameGlyphs_buildLigatures cfg _ _).trans
      (sameGlyphs_placeAccents (fun _ _ => rfl) cfg _ _ _)
  have hbefore : f.kernRules cfg = [] := by
    rw [kernRules_of_lookups_eq (lookups_placeAccents cfg _ _ _) cfg, kernRules_buildLigatures,
      hnone]
  have hrule : pairRule? f = pairRule? s.font := by
    funext p
    rw [pairRule?, pairRule?, hroster.hasGlyph]
  rw [kernRules_finish_eq, buildTables, Noted.value_bind, Noted.value_bind, Noted.value_bind,
    kernRules_of_lookups_eq (lookups_buildVariants cfg s.tables _) cfg,
    kernRules_buildKerning cfg s.tables.kerns hbefore, namedKerns_of_sameRoster hroster, hrule]

end FontTrace
