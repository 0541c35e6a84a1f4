import FontTrace.Proofs.Font.Entries

/-!
# FontTrace.Proofs.Ligature.Sharing

Pairs of glyphs that share a subtable.  The subtable for the contexts of a pair is called
after the two names with `_` in between, and so is the lookup of a ligature that keeps
both glyphs.  Names of glyphs may have `_` themselves, so pairs may be called the same.

* `joined_eq_iff` — two pairs are called the same if they are the same, or overlap;
* `State.InContext.exists_subtable`, `State.InContext.exists_lookup` — where the rules
  of a ligature in context are;
* `context_pairs_apart_iff` — different pairs have rules in different places, unless
  they overlap.
-/

namespace FontTrace

variable {σ : Type}

/-! ## pairs that are called the same -/

/-- The first name of one pair goes on behind that of the other one, as far as `_`, with
what the second name of the other pair starts with. -/
def Overlaps (first second first' second' : String) : Prop :=
  ∃ middle, (first' = first ++ "_" ++ middle ∧ second = middle ++ "_" ++ second') ∨
    (first = first' ++ "_" ++ middle ∧ second' = middle ++ "_" ++ second)

section Overlaps

variable {first second first' second' : String}

theorem Overlaps.symm (h : Overlaps first second first' second') :
    Overlaps first' second' first second := by
  obtain ⟨middle, h | h⟩ := h
  · exact ⟨middle, .inr h⟩
  · exact ⟨middle, .inl h⟩

/-- A first name that goes on behind the other one. -/
theorem overlaps_of_toList {x : List Char} (hfirst : first'.toList = first.toList ++ '_' :: x)
    (hjoined : first ++ "_" ++ second = first' ++ "_" ++ second') :
    Overlaps first second first' second' := by
  have hfirst' : first' = first ++ "_" ++ String.ofList x := by
    apply String.toList_inj.mp
    simpa using hfirst
  refine ⟨String.ofList x, .inl ⟨hfirst', ?_⟩⟩
  simp only [hfirst', String.append_assoc, String.append_right_inj] at hjoined
  rw [hjoined, String.append_assoc]

theorem joined_eq_iff : first ++ "_" ++ second = first' ++ "_" ++ second' ↔
    (first, second) = (first', second') ∨ Overlaps first second first' second' := by
  constructor
  · intro h
    have hlist : first.toList ++ '_' :: second.toList = first'.toList ++ '_' :: second'.toList := by
      simpa using congrArg String.toList h
    rcases splits_of_append_eq hlist with ⟨hfirst, hsecond⟩ | ⟨x, hx⟩ | ⟨x, hx⟩
    · exact .inl (Prod.ext (String.toList_inj.mp hfirst) (String.toList_inj.mp hsecond))
    · exact .inr (overlaps_of_toList hx h)
    · exact .inr (overlaps_of_toList hx h.symm).symm
  · rintro (h | ⟨middle, ⟨rfl, rfl⟩ | ⟨rfl, rfl⟩⟩)
    · cases h
      rfl
    · simp only [String.append_assoc]
    · simp only [String.append_assoc]

/-- Only first names with `_` are those of pairs that overlap. -/
theorem not_overlaps (hfirst : '_' ∉ first.toList) (hfirst' : '_' ∉ first'.toList) :
    ¬Overlaps first second first' second' := by
  rintro ⟨middle, ⟨rfl, -⟩ | ⟨rfl, -⟩⟩
  · exact hfirst' (by simp)
  · exact hfirst (by simp)

end Overlaps

/-! ## where the rules of a ligature are -/

/-- A subtable of a lookup, both by their names. -/
def Lookups.subtableOf? (ls : Lookups) (lookup subtable : String) : Option Subtable :=
  (ls.find? lookup).bind (·.subtable? subtable)

theorem Lookups.exists_subtableOf {ls : Lookups} {lookup subtable : String} {rule : Rule}
    (h : rule ∈ ls.rulesIn lookup subtable) :
    ∃ t, ls.subtableOf? lookup subtable = some t ∧ t.name = subtable ∧ rule ∈ t.rules := by
  change rule ∈ (ls.subtableOf? lookup subtable).elim [] (·.rules) at h
  cases ht : ls.subtableOf? lookup subtable with
  | none =>
      rw [ht] at h
      cases h
  | some t =>
      rw [ht] at h
      obtain ⟨l, -, hl⟩ := Option.bind_eq_some_iff.mp ht
      exact ⟨t, rfl, key_of_find? hl, h⟩

theorem Lookups.mem_of_find? {ls : Lookups} {name : String} {l : Lookup}
    (h : ls.find? name = some l) : l ∈ ls := List.mem_of_find?_eq_some h

/-- Every rule of a state is in the finished font. -/
theorem mem_rulesIn_finish (e : Engine σ) (cfg : Settings) {s : State σ} {en : RuleEntry}
    (h : en ∈ s.entries cfg) :
    en.rule ∈ (finish e cfg s).value.1.lookups.rulesIn en.spec.name en.subtable := by
  rw [lookups_finish_eq_foldl]
  exact (Lookups.mem_rulesIn_foldl fun en' hen' => after_of_mem_entries hen').mpr
    (.inr ⟨en, h, rfl, rfl, rfl⟩)

theorem mem_entries_of_ligatureEntries {cfg : Settings} {s : State σ} {en : RuleEntry}
    (h : en ∈ s.ligatureEntries cfg) : en ∈ s.entries cfg :=
  List.mem_append_left _ (List.mem_append_left _ h)

section InContext

variable (e : Engine σ) {cfg : Settings} {s : State σ} {l : NamedLigature} {first second : String}

/-- The context of a ligature is in the subtable that is called after its pair. -/
theorem State.InContext.exists_subtable (h : s.InContext cfg l first second) :
    ∃ t, (finish e cfg s).value.1.lookups.subtableOf? NamedLigature.contextLookup.name
        (NamedLigature.contextSubtable first second) = some t ∧
      t.name = NamedLigature.contextSubtable first second ∧
      .contextChain (NamedLigature.substitution l.shape first second l.result).context ∈
        t.rules :=
  Lookups.exists_subtableOf
    (mem_rulesIn_finish e cfg (mem_entries_of_ligatureEntries (h.mem_entries (.inr rfl))))

/-- Its substitution is in a lookup of its own name. -/
theorem State.InContext.exists_lookup (h : s.InContext cfg l first second) :
    let k := NamedLigature.substitution l.shape first second l.result
    ∃ lookup, (finish e cfg s).value.1.lookups.find? k.lookup.name = some lookup ∧
      lookup.name = k.lookup.name ∧ k.rule ∈ lookup.rules := by
  obtain ⟨lookup, t, hfind, ht, -, hrule⟩ := Lookups.exists_of_mem_rulesIn
    (mem_rulesIn_finish e cfg (mem_entries_of_ligatureEntries (h.mem_entries (.inl rfl))))
  exact ⟨lookup, hfind, key_of_find? hfind, List.mem_flatMap.mpr ⟨t, ht, hrule⟩⟩

end InContext

namespace NamedLigature

theorem contextSubtable_eq_iff {first second first' second' : String} :
    contextSubtable first second = contextSubtable first' second' ↔
      first ++ "_" ++ second = first' ++ "_" ++ second' := by
  have hname (first second : String) : contextSubtable first second =
      "gsub_contextchain_subtable_" ++ (first ++ "_" ++ second) := by
    rw [← String.append_assoc, ← String.append_assoc]
    rfl
  rw [hname, hname, String.append_right_inj]

/-- Ligatures that keep both glyphs. -/
theorem lookup_eq_iff_of_between {shape shape' : LigatureShape}
    {first second first' second' result result' : String} (h : shape.family = .between)
    (h' : shape'.family = .between) :
    (substitution shape first second result).lookup.name =
        (substitution shape' first' second' result').lookup.name ↔
      first ++ "_" ++ second = first' ++ "_" ++ second' := by
  rw [lookup_substitution (by rw [h]; decide), lookup_substitution (by rw [h']; decide), h, h',
    LigatureShape.suffix, LigatureShape.suffix, h, h']
  exact String.append_right_inj _

end NamedLigature

theorem LigatureShape.family_of_keeps {shape : LigatureShape}
    (h : shape.keepsLeft = true ∧ shape.keepsRight = true) : shape.family = .between := by
  rw [LigatureShape.family, h.1, h.2]

/-- Two things that are found by their names are the same if and only if the names are. -/
theorem found_eq_iff {α : Type} {find : String → Option α} {key : α → String}
    {name name' : String} {a a' : α} (ha : find name = some a) (hkey : key a = name)
    (ha' : find name' = some a') (hkey' : key a' = name') : a = a' ↔ name = name' :=
  ⟨fun h => by rw [← hkey, h, hkey'], fun h => Option.some.inj (ha.symm.trans (h ▸ ha'))⟩

/-- Whatever state is finished, two ligatures in context for different pairs of glyphs:
their contexts are in the subtables that are called after their pairs, and, if they keep
both of their glyphs, their substitutions are in the lookups that are.  These are
different subtables, and different lookups, if and only if the pairs do not overlap. -/
theorem context_pairs_apart_iff (e : Engine σ) (cfg : Settings) {s : State σ}
    {l l' : NamedLigature} {first second first' second' : String}
    (h : s.InContext cfg l first second) (h' : s.InContext cfg l' first' second')
    (hpairs : (first, second) ≠ (first', second')) :
    let ls := (finish e cfg s).value.1.lookups
    let k := NamedLigature.substitution l.shape first second l.result
    let k' := NamedLigature.substitution l'.shape first' second' l'.result
    (∃ t t', ls.subtableOf? "gsub_contextchain"
          (NamedLigature.contextSubtable first second) = some t ∧
        .contextChain k.context ∈ t.rules ∧
      ls.subtableOf? "gsub_contextchain"
          (NamedLigature.contextSubtable first' second') = some t' ∧
        .contextChain k'.context ∈ t'.rules ∧
      (t ≠ t' ↔ ¬Overlaps first second first' second')) ∧
    (l.shape.keepsLeft = true ∧ l.shape.keepsRight = true →
      l'.shape.keepsLeft = true ∧ l'.shape.keepsRight = true →
      ∃ lookup lookup', ls.find? k.lookup.name = some lookup ∧ k.rule ∈ lookup.rules ∧
        ls.find? k'.lookup.name = some lookup' ∧ k'.rule ∈ lookup'.rules ∧
        (lookup ≠ lookup' ↔ ¬Overlaps first second first' second')) := by
  intro ls k k'
  have hoverlap : first ++ "_" ++ second = first' ++ "_" ++ second' ↔
      Overlaps first second first' second' := joined_eq_iff.trans (or_iff_right hpairs)
  constructor
  · obtain ⟨t, ht, hname, hrule⟩ := h.exists_subtable e
    obtain ⟨t', ht', hname', hrule'⟩ := h'.exists_subtable e
    refine ⟨t, t', ht, hrule, ht', hrule', not_congr ?_⟩
    exact (found_eq_iff ht hname ht' hname').trans
      (NamedLigature.contextSubtable_eq_iff.trans hoverlap)
  · intro hboth hboth'
    obtain ⟨lookup, hfind, hname, hrule⟩ := h.exists_lookup e
    obtain ⟨lookup', hfind', hname', hrule'⟩ := h'.exists_lookup e
    refine ⟨lookup, lookup', hfind, hrule, hfind', hrule', not_congr ?_⟩
    exact (found_eq_iff hfind hname hfind' hname').trans
      ((NamedLigature.lookup_eq_iff_of_between (LigatureShape.family_of_keeps hboth)
        (LigatureShape.family_of_keeps hboth')).trans hoverlap)

/-- A font with f, i, l and x, and an x between the first of them and the next two. -/
theorem context_pairs_apart_of_letters :
    let glyph (name : String) (code : Int) : Glyph :=
      { name := name, code := some code, unicode := some code.toNat }
    let ligature (second : Int) : LigatureRule :=
      ⟨.operand (.code 120), ⟨true, true, 0⟩, [.code 102, .code second], "liga"⟩
    let start := State.initial () {} .unicode
    let s := { start with
      font := { start.font with
        glyphs := [glyph "f" 102, glyph "i" 105, glyph "l" 108, glyph "x" 120] }
      tables := { ligatures := [ligature 105, ligature 108] } }
    let ls := (finish Engine.basic {} s).value.1.lookups
    (∃ t t', ls.subtableOf? "gsub_contextchain" (NamedLigature.contextSubtable "f" "i") = some t ∧
      ls.subtableOf? "gsub_contextchain" (NamedLigature.contextSubtable "f" "l") = some t' ∧
      t ≠ t') ∧
    ∃ lookup lookup', .multiple "i" ["x", "i"] ∈ lookup.rules ∧ lookup ∈ ls ∧
      .multiple "l" ["x", "l"] ∈ lookup'.rules ∧ lookup' ∈ ls ∧ lookup ≠ lookup' := by
  intro glyph ligature start s ls
  let named (second : String) : NamedLigature := ⟨"x", ⟨true, true, 0⟩, ["f", second], "liga"⟩
  have hfi : (ligature 105).named? {} s.font = some (named "i") := by decide +kernel
  have hfl : (ligature 108).named? {} s.font = some (named "l") := by decide +kernel
  have hfirst : s.InContext {} (named "i") "f" "i" :=
    ⟨⟨ligature 105, List.mem_cons_self, hfi⟩, .inl rfl, rfl⟩
  have hsecond : s.InContext {} (named "l") "f" "l" :=
    ⟨⟨ligature 108, List.mem_cons_of_mem _ List.mem_cons_self, hfl⟩, .inl rfl, rfl⟩
  have hapart : ¬Overlaps "f" "i" "f" "l" := not_overlaps (by decide) (by decide)
  obtain ⟨hsubtables, hlookups⟩ :=
    context_pairs_apart_iff Engine.basic {} hfirst hsecond (by decide)
  obtain ⟨t, t', ht, -, ht', -, hsubtables⟩ := hsubtables
  obtain ⟨lookup, lookup', hfind, hrule, hfind', hrule', hlookups⟩ :=
    hlookups ⟨rfl, rfl⟩ ⟨rfl, rfl⟩
  have hmem : lookup ∈ ls := Lookups.mem_of_find? hfind
  have hmem' : lookup' ∈ ls := Lookups.mem_of_find? hfind'
  refine ⟨⟨t, t', ht, ht', hsubtables.mpr hapart⟩, ?_⟩
  exact ⟨lookup, lookup', hrule, hmem, hrule', hmem', hlookups.mpr hapart⟩

/-- Glyphs with the names f, i, f_f and f_i: two pairs of them have their contexts in one
subtable, and their substitutions in one lookup. -/
theorem context_pairs_share_of_underscore :
    let cfg : Settings := { setMathDefaults := false, extensions := { glyph := true } }
    let box (code : String) : Record :=
      ⟨"shipout", none, "10>> " ++ code ++ ">> 0>> 30>> 70>> 2>> 0>> 0>> 0>> 0>> 0"⟩
    let pic : Record := ⟨"pic", none, "\"p\""⟩
    let records : List Record :=
      [⟨"picture", none, "\"p\""⟩, box "102", pic, box "105", pic, box "120", pic,
        ⟨"glyph_name", none, "\"f_f\""⟩, box "27", pic, ⟨"glyph_name", none, "\"f_i\""⟩,
        box "28", pic, ⟨"ligtable", none, "10>> \"f\""⟩, ⟨":", none, "28"⟩,
        ⟨"p=:p", none, "120"⟩, ⟨"ligtable", none, "10>> 27"⟩, ⟨":", none, "\"i\""⟩,
        ⟨"p=:p", none, "120"⟩]
    let ls := (fontOf Engine.basic () cfg .unicode records).value.lookups
    ("f", "f_i") ≠ ("f_f", "i") ∧
    ls.names = ["gsub_multiple_between_f_f_i", "gsub_contextchain"] ∧
    ls.rulesIn "gsub_contextchain" "gsub_contextchain_subtable_f_f_i" =
      [.contextChain "f | f_i @<gsub_multiple_between_f_f_i> |",
        .contextChain "f_f | i @<gsub_multiple_between_f_f_i> |"] ∧
    ls.rulesIn "gsub_multiple_between_f_f_i" "gsub_multiple_between_f_f_i_subtable" =
      [.multiple "f_i" ["x", "f_i"], .multiple "i" ["x", "i"]] := by
  decide +kernel

end FontTrace
