import FontTrace.Proofs.Font.Lookup

/-!
# FontTrace.Proofs.Font.LookupOrder

The order of lookups while they are asked for, one after the other.  The order decides which rules
are tried first, so a call may put a new lookup in between others, but it changes nothing about
those that are there.

* `LookupCall` — a call for a lookup, or for a subtable of one;
* `exists_place` — where a new lookup goes;
* `LookupCall.Refines`, `refines_perform` — what one call does to the list;
* `lookup_order_refined` — the same after any calls, with what any later calls leave of it.
-/

namespace FontTrace

/-- A lookup without its subtables. -/
def Lookup.bare (l : Lookup) : Lookup := { l with subtables := [] }

namespace Lookups

/-- The place of the lookup that a specification names, as it is before the lookup is made. -/
def placeOf (ls : Lookups) (spec : LookupSpec) : Nat :=
  (ls.findIdx? fun l => l.name == spec.name).getD (ls.placeFor spec)

section Ensure

variable {ls : Lookups} {spec : LookupSpec}

theorem mem_names_iff {name : String} : name ∈ ls.names ↔ (ls.find? name).isSome = true := by
  simp [names, find?, List.find?_isSome]

theorem map_bare_names (ls : Lookups) : (ls.map Lookup.bare).map (·.name) = ls.names := by
  simp [names, Lookup.bare]

/-- A new lookup goes right behind the one that it has to follow, or else to the end. -/
theorem exists_place (ls : Lookups) (spec : LookupSpec) :
    ∃ front back, ls = front ++ back ∧ ls.placeFor spec = front.length ∧
      ((∃ before l, front = before ++ [l] ∧ spec.after = some l.name) ∨
        back = [] ∧ ∀ name ∈ spec.after, name ∉ ls.names) := by
  cases hplace : spec.after.bind fun name => ls.findIdx? fun l => l.name == name with
  | none =>
      refine ⟨ls, [], by simp, by rw [placeFor, hplace], .inr ⟨rfl, fun name hname => ?_⟩⟩
      have hnone := Option.bind_eq_none_iff.mp hplace name hname
      rw [List.findIdx?_eq_none_iff] at hnone
      simpa [names] using hnone
  | some i =>
      obtain ⟨name, hafter, hfound⟩ := Option.bind_eq_some_iff.mp hplace
      obtain ⟨hi, hname, -⟩ := List.findIdx?_eq_some_iff_getElem.mp hfound
      refine ⟨ls.take (i + 1), ls.drop (i + 1), (List.take_append_drop _ _).symm, ?_, .inl ?_⟩
      · have hplaceFor : ls.placeFor spec = i + 1 := by rw [placeFor, hplace]
        rw [hplaceFor, List.length_take_of_le hi]
      · refine ⟨ls.take i, ls[i], List.take_succ_eq_append_getElem hi, ?_⟩
        rw [hafter, eq_of_beq hname]

theorem ensure_of_mem (h : spec.name ∈ ls.names) (scripts : List ScriptLanguages) :
    ls.ensure spec scripts = ls := by
  rw [ensure, if_pos (mem_names_iff.mp h)]

theorem insertIdx_length_append {α : Type} (front back : List α) (a : α) :
    (front ++ back).insertIdx front.length a = front ++ a :: back := by
  induction front with
  | nil => rfl
  | cons x front ih => exact congrArg (x :: ·) ih

/-- A new lookup leaves what stands in front of it and behind it. -/
theorem ensure_of_not_mem {front back : Lookups} (h : spec.name ∉ ls.names)
    (hls : ls = front ++ back) (hplace : ls.placeFor spec = front.length)
    (scripts : List ScriptLanguages) :
    ls.ensure spec scripts = front ++ fresh spec scripts :: back := by
  rw [ensure, if_neg (mt mem_names_iff.mpr h), hplace, hls, insertIdx_length_append]

theorem placeOf_of_not_mem (h : spec.name ∉ ls.names) : ls.placeOf spec = ls.placeFor spec := by
  have hnone : (ls.findIdx? fun l => l.name == spec.name) = none := by
    rw [List.findIdx?_eq_none_iff]
    simpa [names] using h
  rw [placeOf, hnone, Option.getD_none]

/-- What a change keeps of every lookup it keeps of the list. -/
theorem map_change {β : Type} {g : Lookup → β} {f : Lookup → Lookup} (hf : ∀ l, g (f l) = g l)
    (ls : Lookups) (name : String) : (ls.change name f).map g = ls.map g := by
  induction ls with
  | nil => rfl
  | cons l ls ih =>
      unfold change
      split
      · rw [List.map_cons, List.map_cons, hf]
      · exact congrArg (g l :: ·) ih

/-- The first lookup with a name is the one that is found at its place. -/
theorem getElem?_eq_find? {i : Nat} {name : String} {l : Lookup} (hi : ls[i]? = some l)
    (hname : l.name = name) (hnodup : ls.names.Nodup) : ls.find? name = some l :=
  hname ▸ find?_of_mem hnodup (List.mem_of_getElem? hi)

end Ensure

end Lookups

/-! ## calls -/

/-- A call for a lookup, or for a subtable with what becomes of it. -/
inductive LookupCall where
  | ensure (spec : LookupSpec) (scripts : List ScriptLanguages)
  | subtable (spec : LookupSpec) (scripts : List ScriptLanguages) (name : String)
      (change : Subtable → Subtable)

namespace LookupCall

/-- The lookup that is asked for. -/
def spec : LookupCall → LookupSpec
  | ensure spec _ | subtable spec _ _ _ => spec

/-- The scripts of the lookup, if it is new. -/
def scripts : LookupCall → List ScriptLanguages
  | ensure _ scripts | subtable _ scripts _ _ => scripts

/-- The lookups after the call. -/
def perform (ls : Lookups) : LookupCall → Lookups
  | ensure spec scripts => ls.ensure spec scripts
  | subtable spec scripts name change => ls.changeSubtable spec scripts name change

/-- What a call does to the order of the lookups. -/
structure Refines (ls : Lookups) (c : LookupCall) (ls' : Lookups) : Prop where
  /-- What was there is there, in its order and with its kind, feature and scripts. -/
  keeps : (ls.map Lookup.bare).Sublist (ls'.map Lookup.bare)
  length_le : ls'.length ≤ ls.length + 1
  nodup : ls'.names.Nodup
  /-- The lookup at the place that was computed before is the one with the name. -/
  returned : ∃ l, ls'[ls.placeOf c.spec]? = some l ∧ l.name = c.spec.name ∧
    ls'.find? c.spec.name = some l
  /-- A lookup that is there is not made again. -/
  same : c.spec.name ∈ ls.names → ls'.map Lookup.bare = ls.map Lookup.bare
  /-- A new lookup stands directly behind the one that it has to follow. -/
  behind : c.spec.name ∉ ls.names → ∀ name ∈ c.spec.after, name ∈ ls.names →
    ∃ front l back, l.name = name ∧ ls.map Lookup.bare = front ++ l :: back ∧
      ls'.map Lookup.bare = front ++ l :: Lookups.fresh c.spec c.scripts :: back
  /-- Any other one comes last. -/
  last : c.spec.name ∉ ls.names → (∀ name ∈ c.spec.after, name ∉ ls.names) →
    ls'.map Lookup.bare = ls.map Lookup.bare ++ [Lookups.fresh c.spec c.scripts]

section Step

variable {ls : Lookups}

/-- A subtable makes no difference to the lookups. -/
theorem map_bare_perform (ls : Lookups) (c : LookupCall) :
    (c.perform ls).map Lookup.bare = (ls.ensure c.spec c.scripts).map Lookup.bare := by
  cases c with
  | ensure spec scripts => rfl
  | subtable spec scripts name change =>
      have hkeep : ∀ l : Lookup, (l.changeSubtable name change).bare = l.bare := fun _ => rfl
      exact Lookups.map_change hkeep _ _

theorem names_eq_of_map_bare {ls ls' : Lookups} (h : ls'.map Lookup.bare = ls.map Lookup.bare) :
    ls'.names = ls.names := by
  rw [← Lookups.map_bare_names, h, Lookups.map_bare_names]

/-- The lookup at a place, as far as its name goes. -/
theorem exists_getElem? {ls' front : Lookups} {l : Lookup} {back : Lookups} {i : Nat}
    (h : ls'.map Lookup.bare = front ++ l :: back) (hi : i = front.length) :
    ∃ l', ls'[i]? = some l' ∧ l'.name = l.name := by
  have hget : (ls'.map Lookup.bare)[i]? = some l := by
    rw [h, hi, List.getElem?_append_right (Nat.le_refl _), Nat.sub_self, List.getElem?_cons_zero]
  rw [List.getElem?_map] at hget
  obtain ⟨l', hl', rfl⟩ := Option.map_eq_some_iff.mp hget
  exact ⟨l', hl', rfl⟩

theorem refines_of_mem {c : LookupCall} (h : ls.names.Nodup) (hmem : c.spec.name ∈ ls.names) :
    Refines ls c (c.perform ls) := by
  have hbare : (c.perform ls).map Lookup.bare = ls.map Lookup.bare := by
    rw [map_bare_perform, Lookups.ensure_of_mem hmem]
  have hnodup : (c.perform ls).names.Nodup := names_eq_of_map_bare hbare ▸ h
  refine ⟨hbare ▸ List.Sublist.refl _, ?_, hnodup, ?_, fun _ => hbare, absurd hmem, absurd hmem⟩
  · have hlength := congrArg List.length hbare
    simp only [List.length_map] at hlength
    omega
  · obtain ⟨i, hi⟩ : ∃ i, (ls.findIdx? fun l => l.name == c.spec.name) = some i := by
      refine Option.isSome_iff_exists.mp (List.findIdx?_isSome ▸ ?_)
      simpa [Lookups.names] using hmem
    obtain ⟨hlt, hname, -⟩ := List.findIdx?_eq_some_iff_getElem.mp hi
    have hplace : ls.placeOf c.spec = i := by rw [Lookups.placeOf, hi, Option.getD_some]
    have hsplit : (c.perform ls).map Lookup.bare =
        (ls.take i).map Lookup.bare ++ ls[i].bare :: (ls.drop (i + 1)).map Lookup.bare := by
      rw [hbare, ← List.map_cons, ← List.map_append, List.getElem_cons_drop, List.take_append_drop]
    obtain ⟨l, hl, hlname⟩ := exists_getElem? hsplit (i := i) (by simp; omega)
    have hlname : l.name = c.spec.name := hlname.trans (eq_of_beq hname)
    exact ⟨l, hplace ▸ hl, hlname, Lookups.getElem?_eq_find? hl hlname hnodup⟩

theorem refines_of_not_mem {c : LookupCall} (h : ls.names.Nodup) (hnew : c.spec.name ∉ ls.names) :
    Refines ls c (c.perform ls) := by
  obtain ⟨front, back, hls, hplace, hwhere⟩ := Lookups.exists_place ls c.spec
  have hbare : (c.perform ls).map Lookup.bare =
      front.map Lookup.bare ++ Lookups.fresh c.spec c.scripts :: back.map Lookup.bare := by
    rw [map_bare_perform, Lookups.ensure_of_not_mem hnew hls hplace, List.map_append,
      List.map_cons]
    rfl
  have hperm : (c.perform ls).names.Perm (c.spec.name :: ls.names) := by
    rw [← Lookups.map_bare_names, ← Lookups.map_bare_names, hbare, hls, List.map_append,
      List.map_append, List.map_append, List.map_cons]
    exact List.perm_middle
  have hnodup : (c.perform ls).names.Nodup := hperm.nodup_iff.mpr (List.nodup_cons.mpr ⟨hnew, h⟩)
  refine ⟨?_, ?_, hnodup, ?_, fun hmem => absurd hmem hnew, fun _ name hname hmem => ?_,
    fun _ habsent => ?_⟩
  · rw [hbare, hls, List.map_append]
    exact (List.sublist_cons_self _ _).append_left _
  · have hlength := hperm.length_eq
    simp only [Lookups.names, List.length_map, List.length_cons] at hlength
    omega
  · obtain ⟨l, hl, hlname⟩ := exists_getElem? hbare (List.length_map _).symm
    rw [← hplace, ← Lookups.placeOf_of_not_mem hnew] at hl
    exact ⟨l, hl, hlname, Lookups.getElem?_eq_find? hl hlname hnodup⟩
  · rcases hwhere with ⟨before, l, rfl, hafter⟩ | ⟨-, habsent⟩
    · obtain rfl : l.name = name := Option.some.inj (hafter.symm.trans hname)
      exact ⟨before.map Lookup.bare, l.bare, back.map Lookup.bare, rfl, by simp [hls],
        by simp [hbare]⟩
    · exact absurd hmem (habsent name hname)
  · rcases hwhere with ⟨before, l, rfl, hafter⟩ | ⟨rfl, -⟩
    · exact absurd (by simp [hls, Lookups.names]) (habsent l.name hafter)
    · rw [hbare, hls]
      simp

/-- What one call does. -/
theorem refines_perform (h : ls.names.Nodup) (c : LookupCall) : Refines ls c (c.perform ls) := by
  by_cases hmem : c.spec.name ∈ ls.names
  · exact refines_of_mem h hmem
  · exact refines_of_not_mem h hmem

end Step

/-! ## any number of calls -/

section Calls

variable {ls : Lookups}

theorem nodup_performAll (h : ls.names.Nodup) (calls : List LookupCall) :
    (calls.foldl perform ls).names.Nodup := by
  induction calls generalizing ls with
  | nil => exact h
  | cons c calls ih => exact ih (refines_perform h c).nodup

/-- What is there stays there, in its order. -/
theorem sublist_performAll (h : ls.names.Nodup) (calls : List LookupCall) :
    (ls.map Lookup.bare).Sublist ((calls.foldl perform ls).map Lookup.bare) := by
  induction calls generalizing ls with
  | nil => exact List.Sublist.refl _
  | cons c calls ih =>
      have hstep := refines_perform h c
      exact hstep.keeps.trans (ih hstep.nodup)

/-- After any calls one more refines the order, and what any later calls make of it has what was
there in the same order: a new lookup stays behind the one that it had to follow. -/
theorem lookup_order_refined (h : ls.names.Nodup) (earlier : List LookupCall) (c : LookupCall)
    (later : List LookupCall) :
    let now := earlier.foldl perform ls
    let next := c.perform now
    let ever := later.foldl perform next
    now.names.Nodup ∧ Refines now c next ∧ ever.names.Nodup ∧
      (next.map Lookup.bare).Sublist (ever.map Lookup.bare) ∧
      (c.spec.name ∉ now.names → ∀ name ∈ c.spec.after, name ∈ now.names →
        [name, c.spec.name].Sublist ever.names) := by
  intro now next ever
  have hnow : now.names.Nodup := nodup_performAll h earlier
  have hnext : Refines now c next := refines_perform hnow c
  have hever : (next.map Lookup.bare).Sublist (ever.map Lookup.bare) :=
    sublist_performAll hnext.nodup later
  refine ⟨hnow, hnext, nodup_performAll hnext.nodup later, hever, fun hnew name hname hmem => ?_⟩
  obtain ⟨front, l, back, rfl, -, hbare⟩ := hnext.behind hnew name hname hmem
  have hpair : [l, Lookups.fresh c.spec c.scripts].Sublist (next.map Lookup.bare) := by
    rw [hbare]
    exact ((List.nil_sublist back).cons_cons _ |>.cons_cons _).trans
      (List.sublist_append_right front _)
  have hnames := (hpair.trans hever).map (·.name)
  rw [Lookups.map_bare_names] at hnames
  exact hnames

/-- Lookups for marks, and one more that is asked for later on and put in between. -/
theorem lookup_order_refined_marks :
    let base : LookupCall := .ensure ⟨"gpos_mark2base", .gposMarkToBase, some "mark", none⟩ []
    let pair : LookupCall := .ensure ⟨"gpos_pair", .gposPair, some "kern", none⟩ []
    let mark : LookupCall :=
      .ensure ⟨"gpos_mark2mark", .gposMarkToMark, some "mkmk", some "gpos_mark2base"⟩ []
    let other : LookupCall :=
      .subtable ⟨"gsub_single", .gsubSingle, none, some "gpos_mark2base"⟩ [] "subtable"
        (·.addAnchorClass "top")
    let now := [base, pair].foldl perform []
    let next := mark.perform now
    let ever := [other].foldl perform next
    (Lookups.names []).Nodup ∧ Refines now mark next ∧
      ["gpos_mark2base", "gpos_mark2mark"].Sublist ever.names ∧
      next.names = ["gpos_mark2base", "gpos_mark2mark", "gpos_pair"] ∧
      ever.names = ["gpos_mark2base", "gsub_single", "gpos_mark2mark", "gpos_pair"] := by
  intro base pair mark other now next ever
  have hempty : (Lookups.names []).Nodup := List.nodup_nil
  obtain ⟨-, hrefines, -, -, hbehind⟩ := lookup_order_refined hempty [base, pair] mark [other]
  exact ⟨hempty, hrefines, hbehind (by decide) "gpos_mark2base" rfl (by decide), by decide,
    by decide⟩

end Calls

end LookupCall

end FontTrace
