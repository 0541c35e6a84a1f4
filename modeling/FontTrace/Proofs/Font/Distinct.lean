import FontTrace.Proofs.Font.Glyphs
import FontTrace.Proofs.Font.Roster

/-!
# FontTrace.Proofs.Font.Distinct

Names in a font are found by searching, so none may be there twice.  Glyphs and
lookups come from many places of a trace; all of them look for the name first.

* `Font.Distinct` — no name of a glyph, of a lookup or of a subtable of one lookup
  twice, and in no subtable a rule or an anchor class twice;
* `Lookups.Distinct.changeSubtable` — the one way in which rules and anchor classes come
  into a font;
* `distinct_follow`, `distinct_finish` — every replay keeps a font distinct, and so does
  finishing it;
* `font_identity` — the fonts of all states of a run, and the finished one.
-/

namespace FontTrace

variable {σ : Type}

/-! ## fonts without anything twice -/

/-- No rule and no anchor class stands in the subtable twice. -/
structure Subtable.Distinct (t : Subtable) : Prop where
  rules : t.rules.Nodup
  anchorClasses : t.anchorClasses.Nodup

/-- No name of a subtable stands in the lookup twice. -/
structure Lookup.Distinct (l : Lookup) : Prop where
  names : (l.subtables.map (·.name)).Nodup
  subtables : ∀ t ∈ l.subtables, t.Distinct

/-- No name of a lookup is there twice. -/
structure Lookups.Distinct (ls : Lookups) : Prop where
  names : ls.names.Nodup
  lookups : ∀ l ∈ ls, l.Distinct

/-- No name of a glyph is in the font twice. -/
structure Font.Distinct (f : Font) : Prop where
  glyphs : (f.glyphs.map (·.name)).Nodup
  lookups : f.lookups.Distinct

/-! ## subtables -/

/-- A change of a subtable that keeps its name and puts nothing in twice. -/
structure Subtable.Careful (f : Subtable → Subtable) : Prop where
  name : ∀ t, (f t).name = t.name
  distinct : ∀ t : Subtable, t.Distinct → (f t).Distinct

theorem Subtable.careful_addRule (r : Rule) : Careful (·.addRule r) where
  name _ := rfl
  distinct _ h := ⟨nodup_addNew h.rules r, h.anchorClasses⟩

theorem Subtable.careful_addAnchorClass (c : String) : Careful (·.addAnchorClass c) where
  name _ := rfl
  distinct _ h := ⟨h.rules, nodup_addNew h.anchorClasses c⟩

theorem Subtable.distinct_of_name (name : String) : Distinct { name := name } :=
  ⟨List.nodup_nil, List.nodup_nil⟩

/-! ## lookups -/

section Lookups

variable {l : Lookup} {ls : Lookups} {f : Subtable → Subtable}

theorem Lookup.Distinct.changeSubtable (h : l.Distinct) (hf : Subtable.Careful f)
    (name : String) : (l.changeSubtable name f).Distinct where
  names := by
    have hfresh : ({ name := name } : Subtable).name = name := rfl
    have hnames : (l.changeSubtable name f).subtables.map (·.name) =
        addNew (l.subtables.map (·.name)) name := map_changeOrAppend hfresh hf.name l.subtables
    rw [hnames]
    exact nodup_addNew h.names name
  subtables t ht := by
    rcases (mem_changeOrAppend h.names).mp ht with ⟨hold, -⟩ | rfl
    · exact h.subtables t hold
    · refine hf.distinct _ ?_
      cases hfind : l.subtables.find? fun t => t.name == name with
      | none => exact Subtable.distinct_of_name name
      | some t => exact h.subtables t (List.mem_of_find?_eq_some hfind)

namespace Lookups

theorem distinct_fresh (spec : LookupSpec) (scripts : List ScriptLanguages) :
    (fresh spec scripts).Distinct :=
  ⟨List.nodup_nil, fun _ ht => absurd ht List.not_mem_nil⟩

/-- A new lookup has a new name, wherever it has to stand. -/
theorem Distinct.ensure (h : ls.Distinct) (spec : LookupSpec) (scripts : List ScriptLanguages) :
    (ls.ensure spec scripts).Distinct := by
  unfold Lookups.ensure
  split
  · exact h
  · next hnone =>
    by_cases hplace : ls.placeFor spec ≤ ls.length
    · have hperm := List.perm_insertIdx (fresh spec scripts) ls hplace
      have hnew : spec.name ∉ ls.names := by
        intro hmem
        obtain ⟨l, hl, hname⟩ := List.mem_map.mp hmem
        exact hnone (List.find?_isSome.mpr ⟨l, hl, beq_of_eq hname⟩)
      refine ⟨(hperm.map Lookup.name).nodup_iff.mpr (List.nodup_cons.mpr ⟨hnew, h.names⟩), ?_⟩
      intro l hl
      rcases List.mem_cons.mp (hperm.mem_iff.mp hl) with rfl | hold
      · exact distinct_fresh spec scripts
      · exact h.lookups l hold
    · -- No place is behind the end; there `insertIdx` would insert nothing.
      rw [List.insertIdx_of_length_lt (Nat.lt_of_not_le hplace)]
      exact h

theorem mem_change {g : Lookup → Lookup} {name : String} {l : Lookup} (h : l ∈ ls.change name g) :
    l ∈ ls ∨ ∃ l' ∈ ls, l = g l' := by
  induction ls with
  | nil => exact .inl h
  | cons k ls ih =>
      unfold change at h
      split at h
      · rcases List.mem_cons.mp h with rfl | hl
        · exact .inr ⟨k, List.mem_cons_self, rfl⟩
        · exact .inl (List.mem_cons_of_mem _ hl)
      · rcases List.mem_cons.mp h with rfl | hl
        · exact .inl List.mem_cons_self
        · rcases ih hl with hold | ⟨l', hl', heq⟩
          · exact .inl (List.mem_cons_of_mem k hold)
          · exact .inr ⟨l', List.mem_cons_of_mem k hl', heq⟩

theorem Distinct.changeSubtable (h : ls.Distinct) (hf : Subtable.Careful f) (spec : LookupSpec)
    (scripts : List ScriptLanguages) (subtable : String) :
    (ls.changeSubtable spec scripts subtable f).Distinct := by
  have hensured := h.ensure spec scripts
  refine ⟨?_, ?_⟩
  · have hkeep : ∀ l : Lookup, (l.changeSubtable subtable f).name = l.name := fun _ => rfl
    rw [Lookups.changeSubtable, names_change hkeep]
    exact hensured.names
  · intro l hl
    rcases mem_change hl with hold | ⟨l', hl', rfl⟩
    · exact hensured.lookups l hold
    · exact (hensured.lookups l' hl').changeSubtable hf subtable

theorem Distinct.put (h : ls.Distinct) (scripts : List ScriptLanguages) (en : RuleEntry) :
    (ls.put scripts en).Distinct :=
  h.changeSubtable (Subtable.careful_addRule en.rule) en.spec scripts en.subtable

end Lookups

end Lookups

/-! ## commands -/

/-- No command puts a lookup, a subtable or an anchor class in twice. -/
theorem distinct_lookups_perform (e : Engine σ) (cfg : Settings) (c : Command) (s : State σ)
    (h : s.font.lookups.Distinct) : (perform e cfg c s).value.1.font.lookups.Distinct := by
  rcases lookups_perform e cfg c s with hsame | ⟨feature, anchorClass, hchanged⟩
  · exact hsame ▸ h
  · rw [hchanged]
    exact h.changeSubtable (Subtable.careful_addAnchorClass anchorClass) _ _ _

/-! ## finishing a font -/

theorem distinct_putAll (cfg : Settings) (entries : List RuleEntry) {ls : Lookups}
    (h : ls.Distinct) : (entries.foldl (Lookups.put cfg.scripts) ls).Distinct := by
  induction entries generalizing ls with
  | nil => exact h
  | cons en entries ih => exact ih (h.put cfg.scripts en)

theorem distinct_addKernRule (cfg : Settings) {f : Font} (h : f.lookups.Distinct) (r : Rule) :
    (f.addKernRule cfg r).lookups.Distinct :=
  h.changeSubtable (Subtable.careful_addRule r) _ _ _

theorem distinct_buildKerning (cfg : Settings) (kerns : List (KernPair CharRef)) {f : Font}
    (h : f.lookups.Distinct) : (buildKerning cfg kerns f).value.lookups.Distinct := by
  unfold buildKerning
  dsimp only
  split
  · exact h
  · rw [Noted.value_bind]
    split
    · exact distinct_addKernRule cfg h _
    · refine foldlM_invariant (P := fun f : Font => f.lookups.Distinct) ?_ _ h
      intro f p hf
      unfold addPair
      split
      · exact distinct_addKernRule cfg hf _
      · exact hf

theorem distinct_addReplacement (cfg : Settings) (f : Font) (r : Replacement)
    (h : f.lookups.Distinct) : (addReplacement cfg f r).value.lookups.Distinct := by
  unfold addReplacement
  split
  · exact h.changeSubtable (Subtable.careful_addRule _) _ _ _
  · exact h

theorem distinct_buildTables (cfg : Settings) {s : State σ} (h : s.font.lookups.Distinct) :
    (buildTables cfg s).value.lookups.Distinct := by
  rw [buildTables, Noted.value_bind, Noted.value_bind, Noted.value_bind, lookups_buildVariants]
  refine distinct_buildKerning cfg _ ?_
  rw [lookups_placeAccents, value_buildLigatures]
  exact distinct_putAll cfg _ h

/-- Finishing a font puts nothing in twice. -/
theorem distinct_finish (e : Engine σ) (cfg : Settings) {s : State σ} (h : s.font.Distinct) :
    (finish e cfg s).value.1.Distinct := by
  refine ⟨?_, ?_⟩
  · have hnames := congrArg (List.map Prod.fst) (sameRoster_finish e cfg s).glyphs
    rw [List.map_map, List.map_map] at hnames
    exact hnames ▸ h.glyphs
  · obtain ⟨info, hfinish⟩ := exists_finish e cfg s
    rw [hfinish]
    refine foldlM_invariant (distinct_addReplacement cfg) _ ?_
    rw [lookups_attachReferences, lookups_postProcessFont]
    exact distinct_buildTables cfg h.lookups

/-! ## runs -/

theorem distinct_follow (e : Engine σ) (engine : σ) (cfg : Settings) (encoding : Encoding)
    (script : Script) :
    ((State.initial engine cfg encoding).follow e cfg script).value.font.Distinct where
  glyphs := glyphs_follow keptByPutting_nodup e cfg script List.nodup_nil
  lookups := follow_keeps (P := fun s => s.font.lookups.Distinct) (fun _ _ h => h)
    (distinct_lookups_perform e cfg) script
    ⟨List.nodup_nil, fun _ hl => absurd hl List.not_mem_nil⟩

/-- A shipment that commits a glyph puts it in, and leaves all other glyphs. -/
theorem putInPlace_step (e : Engine σ) {cfg : Settings} {s : State σ} {k : Construct}
    {g : ShippedGlyph} (h : k.glyph? cfg s = some g) :
    ∃ glyph : Glyph, glyph.name = g.id.name ∧
      PutInPlace glyph s.font.glyphs (State.step e cfg s k).value.font.glyphs := by
  obtain ⟨reasons, hstep⟩ := exists_step_of_glyph e h
  obtain ⟨ps, engine, o, hs⟩ := State.exists_afterGlyph e cfg s g
  refine ⟨s.glyphOf cfg g o, rfl, ?_⟩
  rw [hstep, hs]
  exact putInPlace_putIn s.font.glyphs (s.glyphOf cfg g o)

/-- In every state of a run and in the finished font nothing is there twice, and
a committed glyph only takes its own place or comes last. -/
theorem font_identity (e : Engine σ) (engine : σ) (cfg : Settings) (encoding : Encoding)
    (records : List Record) :
    (∀ script, script <+: Script.ofRecords records →
      ((State.initial engine cfg encoding).follow e cfg script).value.font.Distinct) ∧
    (∀ (s : State σ) (k : Construct) (g : ShippedGlyph), k.glyph? cfg s = some g →
      ∃ glyph : Glyph, glyph.name = g.id.name ∧
        PutInPlace glyph s.font.glyphs (State.step e cfg s k).value.font.glyphs) ∧
    (fontOf e engine cfg encoding records).value.Distinct :=
  ⟨fun script _ => distinct_follow e engine cfg encoding script,
    fun _ _ _ => putInPlace_step e,
    distinct_finish e cfg (distinct_follow e engine cfg encoding (Script.ofRecords records))⟩

end FontTrace
