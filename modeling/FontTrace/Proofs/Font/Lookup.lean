import FontTrace.Font.Lookup
import Mathlib.Data.List.Induction
import Mathlib.Data.List.Nodup

/-!
# FontTrace.Proofs.Font.Lookup

What is in the lookups of a font after rules were put into them one by one,
each into the lookup and the subtable that it names.

Lookups, and the subtables of a lookup, are lists in which every name has one
element, and an element holds what belongs to its name:

* `Grouped` — a list of elements that hold the members of their groups;
* `Grouped.concat` — one more member;
* `collects_foldl` — lookups hold the rules that were put into them, and no others.
-/

namespace FontTrace

theorem mem_addNew {α : Type} [DecidableEq α] {xs : List α} {x y : α} :
    y ∈ addNew xs x ↔ y ∈ xs ∨ y = x := by
  unfold addNew
  split
  · next h =>
    constructor
    · exact .inl
    · rintro (hy | rfl)
      · exact hy
      · exact h
  · rw [List.mem_append, List.mem_singleton]

theorem mem_foldl_addNew {α : Type} [DecidableEq α] {xs acc : List α} {y : α} :
    y ∈ xs.foldl addNew acc ↔ y ∈ acc ∨ y ∈ xs := by
  induction xs generalizing acc with
  | nil => simp
  | cons x xs ih => simp [ih, mem_addNew, or_assoc]

/-! ## elements with names -/

section Keyed

variable {α β : Type} {key : α → String} {name : String} {fresh : α} {f : α → α}

theorem map_changeOrAppend (hfresh : key fresh = name) (hf : ∀ a, key (f a) = key a)
    (xs : List α) :
    (changeOrAppend (fun a => key a == name) fresh f xs).map key = addNew (xs.map key) name := by
  induction xs with
  | nil => rw [changeOrAppend, List.map_singleton, hf, hfresh]; rfl
  | cons x xs ih =>
      by_cases h : key x = name
      · simp [changeOrAppend, addNew, h, hf]
      · have hne : ¬name = key x := fun h' => h h'.symm
        simp only [changeOrAppend, beq_iff_eq, h, if_false, List.map_cons, ih, addNew,
          List.mem_cons, hne, false_or]
        split <;> rfl

/-- A name stands for one element: the changed one takes the place of the one
that had its name. -/
theorem mem_changeOrAppend {xs : List α} (h : (xs.map key).Nodup) {a : α} :
    a ∈ changeOrAppend (fun a => key a == name) fresh f xs ↔
      (a ∈ xs ∧ key a ≠ name) ∨ a = f ((xs.find? fun a => key a == name).getD fresh) := by
  induction xs with
  | nil => simp [changeOrAppend]
  | cons x xs ih =>
      rw [List.map_cons, List.nodup_cons] at h
      by_cases hx : key x = name
      · have hothers : ∀ b ∈ xs, key b ≠ name := by
          intro b hb hname
          exact h.1 (List.mem_map.mpr ⟨b, hb, hname.trans hx.symm⟩)
        simp only [changeOrAppend, hx, beq_self_eq_true, if_true, List.find?_cons, List.mem_cons,
          Option.getD_some]
        constructor
        · rintro (rfl | ha)
          · exact .inr rfl
          · exact .inl ⟨.inr ha, hothers a ha⟩
        · rintro (⟨rfl | ha, hne⟩ | ha)
          · exact absurd hx hne
          · exact .inr ha
          · exact .inl ha
      · have hbeq : (key x == name) = false := beq_false_of_ne hx
        rw [changeOrAppend, hbeq, List.find?_cons, hbeq]
        simp only [Bool.false_eq_true, if_false, List.mem_cons, ih h.2]
        constructor
        · rintro (rfl | ⟨ha, hne⟩ | ha)
          · exact .inl ⟨.inl rfl, hx⟩
          · exact .inl ⟨.inr ha, hne⟩
          · exact .inr ha
        · rintro (⟨rfl | ha, hne⟩ | ha)
          · exact .inl rfl
          · exact .inr (.inl ⟨ha, hne⟩)
          · exact .inr (.inr ha)

theorem find?_of_mem {xs : List α} (h : (xs.map key).Nodup) {a : α} (ha : a ∈ xs) :
    (xs.find? fun b => key b == key a) = some a := by
  induction xs with
  | nil => cases ha
  | cons x xs ih =>
      rw [List.map_cons, List.nodup_cons] at h
      rw [List.find?_cons]
      rcases List.mem_cons.mp ha with rfl | ha
      · rw [beq_self_eq_true]
      · have hne : key x ≠ key a := fun hx => h.1 (List.mem_map.mpr ⟨a, ha, hx.symm⟩)
        rw [beq_false_of_ne hne]
        exact ih h.2 ha

theorem key_of_find? {xs : List α} {a : α} (h : (xs.find? fun b => key b == name) = some a) :
    key a = name :=
  eq_of_beq (List.find?_some (p := fun b => key b == name) h)

/-- The changed element is found under its name, and all others are as they were. -/
theorem find?_changeOrAppend (hfresh : key fresh = name) (hf : ∀ a, key (f a) = key a)
    (xs : List α) (other : String) :
    (changeOrAppend (fun a => key a == name) fresh f xs).find? (fun a => key a == other) =
      if name = other then some (f ((xs.find? fun a => key a == name).getD fresh))
      else xs.find? fun a => key a == other := by
  induction xs with
  | nil => by_cases h : name = other <;> simp [changeOrAppend, hf, hfresh, h]
  | cons x xs ih =>
      by_cases hx : key x = name
      · by_cases h : name = other <;> simp [changeOrAppend, hx, hf, h]
      · by_cases h : key x = other
        · have hne : ¬name = other := fun h' => hx (h.trans h'.symm)
          simp [changeOrAppend, h, hne, Ne.symm hne]
        · simp [changeOrAppend, hx, h, ih]

/-- A change among the elements that pass a test. -/
theorem filter_changeOrAppend {p : α → Bool} (hp : ∀ a, key a = name → p a = true)
    (hf : ∀ a, p (f a) = p a) (hfresh : p fresh = true) (xs : List α) :
    (changeOrAppend (fun a => key a == name) fresh f xs).filter p =
      changeOrAppend (fun a => key a == name) fresh f (xs.filter p) := by
  induction xs with
  | nil => simp [changeOrAppend, hf, hfresh]
  | cons x xs ih =>
      by_cases hx : key x = name
      · simp [changeOrAppend, hx, hp x hx, hf]
      · by_cases hpx : p x = true
        · simp [changeOrAppend, hx, hpx, ih]
        · simp [changeOrAppend, hx, hpx, ih]

/-- A change among the elements that do not pass a test. -/
theorem filter_changeOrAppend_of_false {p : α → Bool} {xs : List α}
    (hp : ∀ a ∈ xs, key a = name → p a = false) (hf : ∀ a, p (f a) = p a)
    (hfresh : p fresh = false) :
    (changeOrAppend (fun a => key a == name) fresh f xs).filter p = xs.filter p := by
  induction xs with
  | nil => simp [changeOrAppend, hf, hfresh]
  | cons x xs ih =>
      have hrest := ih fun a ha => hp a (List.mem_cons_of_mem x ha)
      by_cases hx : key x = name
      · simp [changeOrAppend, hx, hp x List.mem_cons_self hx, hf]
      · rw [changeOrAppend, if_neg (by simpa using hx), List.filter_cons, List.filter_cons, hrest]

/-- Elements with names that hold groups of members: there is an element for
the group of every member, and no other. -/
structure Grouped (group : β → String) (key : α → String) (holds : List β → α → Prop)
    (members : List β) (xs : List α) : Prop where
  nodup : (xs.map key).Nodup
  covers : ∀ b ∈ members, ∃ a ∈ xs, key a = group b
  source : ∀ a ∈ xs, ∃ b ∈ members, group b = key a
  holds : ∀ a ∈ xs, holds (members.filter fun b => group b = key a) a

variable {group : β → String} {holds : List β → α → Prop}

theorem Grouped.nil : Grouped group key holds [] ([] : List α) where
  nodup := List.nodup_nil
  covers _ h := absurd h List.not_mem_nil
  source _ h := absurd h List.not_mem_nil
  holds _ h := absurd h List.not_mem_nil

/-- The element for a group so far, or a new one for a group without members. -/
theorem Grouped.find?_getD {members : List β} {xs : List α} {b : β}
    (h : Grouped group key holds members xs) (hfresh : key fresh = group b)
    (hnew : holds [] fresh) :
    key ((xs.find? fun a => key a == group b).getD fresh) = group b ∧
      holds (members.filter fun b' => group b' = group b)
        ((xs.find? fun a => key a == group b).getD fresh) := by
  cases hfind : xs.find? fun a => key a == group b with
  | some a =>
      have hkey : key a = group b := key_of_find? hfind
      have ha := h.holds a (List.mem_of_find?_eq_some hfind)
      rw [hkey] at ha
      exact ⟨hkey, ha⟩
  | none =>
      have hnone : (members.filter fun b' => group b' = group b) = [] := by
        rw [List.filter_eq_nil_iff]
        intro b' hb' hgroup
        obtain ⟨a, ha, hkey⟩ := h.covers b' hb'
        exact List.find?_eq_none.mp hfind a ha
          (beq_iff_eq.mpr (hkey.trans (of_decide_eq_true hgroup)))
      rw [hnone]
      exact ⟨hfresh, hnew⟩

/-- One more member, which goes into the element of its group, or into a new
one if it is the first of the group. -/
theorem Grouped.concat {members : List β} {xs : List α} {b : β}
    (h : Grouped group key holds members xs) (hfresh : key fresh = group b)
    (hf : ∀ a, key (f a) = key a) (hnew : holds [] fresh)
    (hstep : ∀ members a, holds members a → holds (members ++ [b]) (f a)) :
    Grouped group key holds (members ++ [b])
      (changeOrAppend (fun a => key a == group b) fresh f xs) := by
  have hkeys := map_changeOrAppend hfresh hf xs
  have hfilter : ∀ name, (members ++ [b]).filter (fun b => group b = name) =
      members.filter (fun b => group b = name) ++ if group b = name then [b] else [] := by
    intro name
    rw [List.filter_append, List.filter_singleton, Bool.cond_decide]
  have hold := h.find?_getD hfresh hnew
  refine ⟨?_, ?_, ?_, ?_⟩
  · rw [hkeys]
    exact nodup_addNew h.nodup _
  · intro b' hb'
    have hmem : group b' ∈ addNew (xs.map key) (group b) := by
      rw [mem_addNew]
      rcases List.mem_append.mp hb' with hb' | hb'
      · obtain ⟨a, ha, hkey⟩ := h.covers b' hb'
        exact .inl (List.mem_map.mpr ⟨a, ha, hkey⟩)
      · exact .inr (congrArg group (List.mem_singleton.mp hb'))
    rw [← hkeys] at hmem
    exact List.mem_map.mp hmem
  · intro a ha
    have hmem := List.mem_map_of_mem (f := key) ha
    rw [hkeys, mem_addNew] at hmem
    rcases hmem with hmem | hmem
    · obtain ⟨a', ha', hkey⟩ := List.mem_map.mp hmem
      obtain ⟨b', hb', hgroup⟩ := h.source a' ha'
      exact ⟨b', List.mem_append_left _ hb', hgroup.trans hkey⟩
    · exact ⟨b, List.mem_append_right _ (List.mem_singleton_self b), hmem.symm⟩
  · intro a ha
    rw [hfilter]
    rcases (mem_changeOrAppend h.nodup).mp ha with ⟨ha, hne⟩ | rfl
    · rw [if_neg (Ne.symm hne), List.append_nil]
      exact h.holds a ha
    · rw [hf, hold.1, if_pos rfl]
      exact hstep _ _ hold.2

end Keyed

/-! ## rules one by one -/

/-- A rule, and where it goes. -/
structure RuleEntry where
  spec : LookupSpec
  subtable : String
  rule : Rule
deriving DecidableEq, Repr

/-- The lookup of an entry. -/
def RuleEntry.lookup (en : RuleEntry) : String := en.spec.name

/-- The lookups with one more rule. -/
def Lookups.put (scripts : List ScriptLanguages) (ls : Lookups) (en : RuleEntry) : Lookups :=
  ls.changeSubtable en.spec scripts en.subtable (·.addRule en.rule)

namespace Lookups

theorem names_change {f : Lookup → Lookup} (hf : ∀ l, (f l).name = l.name) (ls : Lookups)
    (name : String) : (ls.change name f).names = ls.names := by
  induction ls with
  | nil => rfl
  | cons l ls ih =>
      unfold change
      split
      · simp [names, hf]
      · exact congrArg (l.name :: ·) ih

theorem change_eq_of_mem {ls : Lookups} {name : String} {fresh : Lookup} {f : Lookup → Lookup}
    (h : (find? ls name).isSome) :
    change ls name f = changeOrAppend (fun l => l.name == name) fresh f ls := by
  induction ls with
  | nil => cases h
  | cons l ls ih =>
      by_cases hl : l.name = name
      · simp [change, changeOrAppend, hl]
      · have hrest : (find? ls name).isSome := by
          rw [find?, List.find?_cons, beq_false_of_ne hl] at h
          exact h
        simp [change, changeOrAppend, hl, ih hrest]

theorem change_concat {ls : Lookups} {name : String} {fresh : Lookup} {f : Lookup → Lookup}
    (hfresh : fresh.name = name) (h : (find? ls name).isNone) :
    change (ls ++ [fresh]) name f = changeOrAppend (fun l => l.name == name) fresh f ls := by
  induction ls with
  | nil => simp [change, changeOrAppend, hfresh]
  | cons l ls ih =>
      rw [find?, List.find?_cons] at h
      by_cases hl : l.name = name
      · rw [hl, beq_self_eq_true] at h
        cases h
      · rw [beq_false_of_ne hl] at h
        simp [change, changeOrAppend, hl, ih h]

/-- A lookup that has no place of its own is made at the end. -/
theorem changeSubtable_eq {spec : LookupSpec} (h : spec.after = none) (ls : Lookups)
    (scripts : List ScriptLanguages) (subtable : String) (f : Subtable → Subtable) :
    ls.changeSubtable spec scripts subtable f =
      changeOrAppend (fun l => l.name == spec.name) (fresh spec scripts)
        (·.changeSubtable subtable f) ls := by
  unfold changeSubtable ensure
  cases hfind : find? ls spec.name with
  | some l =>
      show change ls spec.name _ = _
      exact change_eq_of_mem (by rw [hfind]; rfl)
  | none =>
      rw [placeFor, h]
      show change (ls.insertIdx ls.length (fresh spec scripts)) spec.name _ = _
      rw [List.insertIdx_length_self]
      exact change_concat rfl (by rw [hfind]; rfl)

end Lookups

/-! ## what lookups hold -/

/-- A subtable holds the rules of its entries, each once. -/
structure Subtable.Collects (entries : List RuleEntry) (t : Subtable) : Prop where
  nodup : t.rules.Nodup
  mem_iff : ∀ rule, rule ∈ t.rules ↔ ∃ en ∈ entries, en.rule = rule

/-- A lookup holds its entries in subtables. -/
def Lookup.Collects (entries : List RuleEntry) (l : Lookup) : Prop :=
  Grouped RuleEntry.subtable Subtable.name Subtable.Collects entries l.subtables

/-- Lookups that hold entries. -/
def Lookups.Collects (entries : List RuleEntry) (ls : Lookups) : Prop :=
  Grouped RuleEntry.lookup Lookup.name Lookup.Collects entries ls

theorem Subtable.Collects.concat {entries : List RuleEntry} {t : Subtable} (h : t.Collects entries)
    (en : RuleEntry) : (t.addRule en.rule).Collects (entries ++ [en]) where
  nodup := nodup_addNew h.nodup _
  mem_iff rule := by
    show rule ∈ addNew t.rules en.rule ↔ _
    rw [mem_addNew, h.mem_iff]
    simp only [List.mem_append, List.mem_singleton]
    constructor
    · rintro (⟨en', hen', hrule⟩ | hrule)
      · exact ⟨en', .inl hen', hrule⟩
      · exact ⟨en, .inr rfl, hrule.symm⟩
    · rintro ⟨en', hen' | rfl, hrule⟩
      · exact .inl ⟨en', hen', hrule⟩
      · exact .inr hrule.symm

theorem Lookup.Collects.concat {entries : List RuleEntry} {l : Lookup} (h : l.Collects entries)
    (en : RuleEntry) :
    (l.changeSubtable en.subtable (·.addRule en.rule)).Collects (entries ++ [en]) :=
  Grouped.concat h rfl (fun _ => rfl) ⟨List.nodup_nil, fun rule => by simp⟩
    fun _ _ ht => ht.concat en

theorem Lookups.Collects.concat {entries : List RuleEntry} {ls : Lookups} (h : ls.Collects entries)
    (scripts : List ScriptLanguages) {en : RuleEntry} (hen : en.spec.after = none) :
    (ls.put scripts en).Collects (entries ++ [en]) := by
  rw [put, changeSubtable_eq hen]
  exact Grouped.concat h rfl (fun _ => rfl) Grouped.nil fun _ _ hl => hl.concat en

/-- Lookups hold the rules that were put into them. -/
theorem collects_foldl (scripts : List ScriptLanguages) {entries : List RuleEntry}
    (h : ∀ en ∈ entries, en.spec.after = none) :
    Lookups.Collects entries (entries.foldl (Lookups.put scripts) []) := by
  induction entries using List.reverseRecOn with
  | nil => exact Grouped.nil
  | append_singleton entries en ih =>
      rw [List.foldl_append]
      exact (ih fun en' hen' => h en' (List.mem_append_left _ hen')).concat scripts
        (h en (List.mem_append_right _ (List.mem_singleton_self en)))

/-- A lookup is what one of its entries asked for. -/
theorem spec_of_mem_foldl (scripts : List ScriptLanguages) {entries : List RuleEntry}
    (h : ∀ en ∈ entries, en.spec.after = none) {l : Lookup}
    (hl : l ∈ entries.foldl (Lookups.put scripts) []) :
    ∃ en ∈ entries,
      l.name = en.spec.name ∧ l.kind = en.spec.kind ∧ l.feature = en.spec.feature := by
  induction entries using List.reverseRecOn generalizing l with
  | nil => cases hl
  | append_singleton entries en ih =>
      have hentries : ∀ en' ∈ entries, en'.spec.after = none :=
        fun en' hen' => h en' (List.mem_append_left _ hen')
      have hen := List.mem_append_right entries (List.mem_singleton_self en)
      -- what is already there came from an entry before
      have hbefore : ∀ l ∈ entries.foldl (Lookups.put scripts) [], ∃ en' ∈ entries ++ [en],
          l.name = en'.spec.name ∧ l.kind = en'.spec.kind ∧ l.feature = en'.spec.feature := by
        intro l hl
        obtain ⟨en', hen', hspec⟩ := ih hentries hl
        exact ⟨en', List.mem_append_left _ hen', hspec⟩
      rw [List.foldl_append, List.foldl_cons, List.foldl_nil, Lookups.put,
        Lookups.changeSubtable_eq (h en hen),
        mem_changeOrAppend (collects_foldl scripts hentries).nodup] at hl
      rcases hl with ⟨hl, -⟩ | rfl
      · exact hbefore l hl
      · cases hfind : List.find? (fun l => l.name == en.spec.name)
            (entries.foldl (Lookups.put scripts) []) with
        | some l => exact hbefore l (List.mem_of_find?_eq_some hfind)
        | none => exact ⟨en, hen, rfl, rfl, rfl⟩

/-! ## reading the rules -/

/-- All rules of a lookup. -/
def Lookup.rules (l : Lookup) : List Rule := l.subtables.flatMap (·.rules)

/-- The rules of a subtable; none if it is not there. -/
def Lookups.rulesIn (ls : Lookups) (lookup subtable : String) : List Rule :=
  ((ls.find? lookup).bind (·.subtable? subtable)).elim [] (·.rules)

theorem Lookup.subtable?_changeSubtable (l : Lookup) (name other : String)
    {f : Subtable → Subtable} (hf : ∀ t, (f t).name = t.name) :
    (l.changeSubtable name f).subtable? other =
      if name = other then some (f ((l.subtable? name).getD { name := name }))
      else l.subtable? other := by
  have hfresh : ({ name := name } : Subtable).name = name := rfl
  exact find?_changeOrAppend hfresh hf l.subtables other

theorem Lookups.find?_put (scripts : List ScriptLanguages) (ls : Lookups) {en : RuleEntry}
    (hen : en.spec.after = none) (name : String) :
    (ls.put scripts en).find? name =
      if en.spec.name = name then
        some (((ls.find? en.spec.name).getD (fresh en.spec scripts)).changeSubtable en.subtable
          (·.addRule en.rule))
      else ls.find? name := by
  have hfresh : (fresh en.spec scripts).name = en.spec.name := rfl
  have hkeep : ∀ l : Lookup,
      (l.changeSubtable en.subtable (·.addRule en.rule)).name = l.name := fun _ => rfl
  rw [put, changeSubtable_eq hen]
  exact find?_changeOrAppend hfresh hkeep ls name

/-- One more rule goes into the subtable that it names, and into no other. -/
theorem Lookups.rulesIn_put (scripts : List ScriptLanguages) (ls : Lookups) {en : RuleEntry}
    (hen : en.spec.after = none) (lookup subtable : String) :
    (ls.put scripts en).rulesIn lookup subtable =
      if en.spec.name = lookup ∧ en.subtable = subtable then
        addNew (ls.rulesIn lookup subtable) en.rule
      else ls.rulesIn lookup subtable := by
  have haddRule : ∀ t : Subtable, (t.addRule en.rule).name = t.name := fun _ => rfl
  unfold rulesIn
  rw [find?_put scripts ls hen]
  by_cases hlookup : en.spec.name = lookup
  · rw [if_pos hlookup, Option.bind_some, Lookup.subtable?_changeSubtable _ _ _ haddRule, hlookup]
    by_cases hsubtable : en.subtable = subtable
    · rw [if_pos hsubtable, if_pos ⟨rfl, hsubtable⟩, hsubtable]
      cases hl : ls.find? lookup with
      | none => rfl
      | some l =>
          rw [Option.getD_some, Option.bind_some]
          cases l.subtable? subtable <;> rfl
    · rw [if_neg hsubtable, if_neg fun h => hsubtable h.2]
      cases hl : ls.find? lookup with
      | none => rfl
      | some l => rfl
  · rw [if_neg hlookup, if_neg fun h => hlookup h.1]

theorem Lookup.Collects.mem_rules {entries : List RuleEntry} {l : Lookup} (h : l.Collects entries)
    {rule : Rule} : rule ∈ l.rules ↔ ∃ en ∈ entries, en.rule = rule := by
  rw [Lookup.rules, List.mem_flatMap]
  constructor
  · rintro ⟨t, ht, hrule⟩
    obtain ⟨en, hen, hrule⟩ := ((h.holds t ht).mem_iff rule).mp hrule
    exact ⟨en, List.mem_of_mem_filter hen, hrule⟩
  · rintro ⟨en, hen, hrule⟩
    obtain ⟨t, ht, hname⟩ := h.covers en hen
    refine ⟨t, ht, ((h.holds t ht).mem_iff rule).mpr ⟨en, ?_, hrule⟩⟩
    exact List.mem_filter.mpr ⟨hen, decide_eq_true hname.symm⟩

/-- A lookup all of whose entries go into one subtable has no rule twice. -/
theorem Lookup.Collects.nodup_rules {entries : List RuleEntry} {l : Lookup} {subtable : String}
    (h : l.Collects entries) (hone : ∀ en ∈ entries, en.subtable = subtable) :
    l.rules.Nodup := by
  have hname : ∀ t ∈ l.subtables, t.name = subtable := by
    intro t ht
    obtain ⟨en, hen, hname⟩ := h.source t ht
    exact hname.symm.trans (hone en hen)
  have hnodup := h.nodup
  have hrules := fun t ht => (h.holds t ht).nodup
  rw [Lookup.rules]
  revert hname hnodup hrules
  rcases l.subtables with _ | ⟨t, _ | ⟨t', ts⟩⟩
  · exact fun _ _ _ => List.nodup_nil
  · intro _ _ hrules
    rw [List.flatMap_singleton]
    exact hrules t (List.mem_singleton_self t)
  · intro hname hnodup _
    have heq : t.name = t'.name := by rw [hname t (by simp), hname t' (by simp)]
    simp [heq] at hnodup

theorem Lookups.Collects.mem_rules {entries : List RuleEntry} {ls : Lookups}
    (h : ls.Collects entries) {l : Lookup} (hl : l ∈ ls) {rule : Rule} :
    rule ∈ l.rules ↔ ∃ en ∈ entries, en.spec.name = l.name ∧ en.rule = rule := by
  rw [(h.holds l hl).mem_rules]
  simp only [List.mem_filter, decide_eq_true_eq, and_assoc]
  exact Iff.rfl

theorem Lookups.Collects.nodup_rules {entries : List RuleEntry} {ls : Lookups}
    (h : ls.Collects entries) {l : Lookup} (hl : l ∈ ls) {subtable : String}
    (hone : ∀ en ∈ entries, en.spec.name = l.name → en.subtable = subtable) : l.rules.Nodup :=
  (h.holds l hl).nodup_rules fun en hen =>
    hone en (List.mem_of_mem_filter hen) (of_decide_eq_true (List.mem_filter.mp hen).2)

theorem Lookups.Collects.mem_rulesIn {entries : List RuleEntry} {ls : Lookups}
    (h : ls.Collects entries) {lookup subtable : String} {rule : Rule} :
    rule ∈ ls.rulesIn lookup subtable ↔
      ∃ en ∈ entries, en.spec.name = lookup ∧ en.subtable = subtable ∧ en.rule = rule := by
  constructor
  · intro hrule
    unfold rulesIn at hrule
    cases hl : ls.find? lookup with
    | none => rw [hl] at hrule; cases hrule
    | some l =>
        rw [hl, Option.bind_some] at hrule
        have hname : l.name = lookup := key_of_find? hl
        cases ht : l.subtable? subtable with
        | none => rw [ht] at hrule; cases hrule
        | some t =>
            rw [ht] at hrule
            have hcollects := (h.holds l (List.mem_of_find?_eq_some hl)).holds t
              (List.mem_of_find?_eq_some ht)
            obtain ⟨en, hen, hrule⟩ := (hcollects.mem_iff rule).mp hrule
            simp only [List.mem_filter, decide_eq_true_eq] at hen
            have htname : t.name = subtable := key_of_find? ht
            exact ⟨en, hen.1.1, hen.1.2.trans hname, hen.2.trans htname, hrule⟩
  · rintro ⟨en, hen, rfl, rfl, rfl⟩
    obtain ⟨l, hl, hname⟩ := h.covers en hen
    have hentry : en ∈ entries.filter fun en' => en'.lookup = l.name :=
      List.mem_filter.mpr ⟨hen, decide_eq_true hname.symm⟩
    obtain ⟨t, ht, htname⟩ := (h.holds l hl).covers en hentry
    have hfind : ls.find? en.spec.name = some l := by
      have hfind := find?_of_mem h.nodup hl
      rw [hname] at hfind
      exact hfind
    have htfind : l.subtable? en.subtable = some t := by
      have htfind := find?_of_mem (h.holds l hl).nodup ht
      rw [htname] at htfind
      exact htfind
    rw [rulesIn, hfind, Option.bind_some, htfind]
    refine (((h.holds l hl).holds t ht).mem_iff _).mpr ⟨en, ?_, rfl⟩
    exact List.mem_filter.mpr ⟨hentry, decide_eq_true htname.symm⟩

theorem Lookups.Collects.find?_eq {entries : List RuleEntry} {ls : Lookups}
    (h : ls.Collects entries) {l : Lookup} (hl : l ∈ ls) : ls.find? l.name = some l :=
  find?_of_mem h.nodup hl

theorem Lookups.Collects.nodup_rulesIn {entries : List RuleEntry} {ls : Lookups}
    (h : ls.Collects entries) {lookup subtable : String} : (ls.rulesIn lookup subtable).Nodup := by
  unfold rulesIn
  cases hl : ls.find? lookup with
  | none => exact List.nodup_nil
  | some l =>
      rw [Option.bind_some]
      cases ht : l.subtable? subtable with
      | none => exact List.nodup_nil
      | some t =>
          exact ((h.holds l (List.mem_of_find?_eq_some hl)).holds t
            (List.mem_of_find?_eq_some ht)).nodup

end FontTrace
