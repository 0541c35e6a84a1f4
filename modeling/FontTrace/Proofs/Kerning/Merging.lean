import FontTrace.Font.KernClass
import Mathlib.Data.List.Nodup

/-!
# FontTrace.Proofs.Kerning.Merging

What merging does to classes with keys.  The classes with one key become one
class, in the place of the first of them, so the three things that a class is
made of can be told apart:

* `keyed_mergeEqual` — a glyph keeps its key;
* `glyphs_mergeEqual_perm` — no glyph is lost, and none gets into a second class;
* `nodup_keys_mergeEqual` — a key has one class left, so glyphs with the same
  key share it (`shareClass_mergeEqual`);
* `mergeEqual_of_nodup` — where no key occurs twice, nothing changes.
-/

namespace FontTrace.KernClasses

/-- Two glyphs are in the same class. -/
def ShareClass (classes : List (List String)) (g g' : String) : Prop :=
  ∃ c ∈ classes, g ∈ c ∧ g' ∈ c

variable {κ : Type}

/-- A glyph is in a class with a key. -/
def Keyed (rows : List (List String × κ)) (g : String) (key : κ) : Prop :=
  ∃ c, (c, key) ∈ rows ∧ g ∈ c

theorem keyed_cons {c : List String} {key : κ} {rows : List (List String × κ)} {g : String}
    {key' : κ} :
    Keyed ((c, key) :: rows) g key' ↔ (key' = key ∧ g ∈ c) ∨ Keyed rows g key' := by
  constructor
  · rintro ⟨c', hmem, hg⟩
    rcases List.mem_cons.mp hmem with heq | hmem
    · obtain ⟨rfl, rfl⟩ := Prod.mk.inj heq
      exact .inl ⟨rfl, hg⟩
    · exact .inr ⟨c', hmem, hg⟩
  · rintro (⟨rfl, hg⟩ | ⟨c', hmem, hg⟩)
    · exact ⟨c, List.mem_cons_self, hg⟩
    · exact ⟨c', List.mem_cons_of_mem _ hmem, hg⟩

variable [DecidableEq κ]

/-- Merging collects the classes with the key behind the first one. -/
theorem absorb_eq (key : κ) (glyphs : List String) (rows : List (List String × κ)) :
    absorb key glyphs rows =
      (glyphs ++ (rows.filter fun row => row.2 = key).flatMap (·.1),
        rows.filter fun row => row.2 ≠ key) := by
  induction rows generalizing glyphs with
  | nil => simp [absorb]
  | cons row rows ih =>
      obtain ⟨c, key'⟩ := row
      by_cases h : key = key'
      · subst h
        simp [absorb, ih]
      · have h' : ¬key' = key := fun heq => h heq.symm
        simp [absorb, h, h', ih]

theorem mergeEqual_cons (c : List String) (key : κ) (rows : List (List String × κ)) :
    mergeEqual ((c, key) :: rows) =
      (c ++ (rows.filter fun row => row.2 = key).flatMap (·.1), key) ::
        mergeEqual (rows.filter fun row => row.2 ≠ key) := by
  rw [mergeEqual, absorb_eq]

/-- Merging goes on with the classes whose keys were not seen yet. -/
theorem mergeEqual_induction {motive : List (List String × κ) → Prop} (nil : motive [])
    (cons : ∀ c key rows, motive (rows.filter fun row => row.2 ≠ key) → motive ((c, key) :: rows))
    (rows : List (List String × κ)) : motive rows := by
  induction rows using mergeEqual.induct with
  | case1 => exact nil
  | case2 c key rows ih =>
      rw [absorb_eq] at ih
      exact cons c key rows ih

theorem keyed_filter {rows : List (List String × κ)} {g : String} {key key' : κ} :
    Keyed (rows.filter fun row => row.2 ≠ key) g key' ↔ key' ≠ key ∧ Keyed rows g key' := by
  simp only [Keyed, List.mem_filter, decide_eq_true_eq]
  constructor
  · rintro ⟨c, ⟨hmem, hne⟩, hg⟩
    exact ⟨hne, c, hmem, hg⟩
  · rintro ⟨hne, c, hmem, hg⟩
    exact ⟨c, ⟨hmem, hne⟩, hg⟩

theorem mem_flatMap_filter {rows : List (List String × κ)} {g : String} {key : κ} :
    g ∈ (rows.filter fun row => row.2 = key).flatMap (·.1) ↔ Keyed rows g key := by
  simp only [Keyed, List.mem_flatMap, List.mem_filter, decide_eq_true_eq]
  constructor
  · rintro ⟨⟨c, key'⟩, ⟨hmem, rfl⟩, hg⟩
    exact ⟨c, hmem, hg⟩
  · rintro ⟨c, hmem, hg⟩
    exact ⟨(c, key), ⟨hmem, rfl⟩, hg⟩

/-- A glyph keeps its key. -/
theorem keyed_mergeEqual {rows : List (List String × κ)} {g : String} {key : κ} :
    Keyed (mergeEqual rows) g key ↔ Keyed rows g key := by
  induction rows using mergeEqual_induction with
  | nil => rw [mergeEqual]
  | cons c key' rows ih =>
      rw [mergeEqual_cons, keyed_cons, keyed_cons, ih, keyed_filter, List.mem_append,
        mem_flatMap_filter]
      by_cases h : key = key'
      · subst h
        simp
      · simp [h]

/-- Merging moves glyphs, and neither loses nor doubles one. -/
theorem glyphs_mergeEqual_perm (rows : List (List String × κ)) :
    ((mergeEqual rows).flatMap (·.1)).Perm (rows.flatMap (·.1)) := by
  induction rows using mergeEqual_induction with
  | nil => rw [mergeEqual]
  | cons c key rows ih =>
      rw [mergeEqual_cons, List.flatMap_cons, List.flatMap_cons, List.append_assoc]
      have hkept := ih.append_left ((rows.filter fun row => row.2 = key).flatMap (·.1))
      have hall := List.filter_append_perm (fun row => decide (row.2 = key)) rows
      have hglyphs := hall.flatMap_right (·.1)
      rw [List.flatMap_append] at hglyphs
      refine (hkept.trans ?_).append_left c
      simpa using hglyphs

theorem keys_mergeEqual_subset (rows : List (List String × κ)) :
    (mergeEqual rows).map (·.2) ⊆ rows.map (·.2) := by
  induction rows using mergeEqual_induction with
  | nil => rw [mergeEqual]; exact List.Subset.refl _
  | cons c key rows ih =>
      rw [mergeEqual_cons, List.map_cons, List.map_cons]
      refine List.cons_subset_cons key (List.Subset.trans ih ?_)
      exact (List.filter_sublist.map _).subset

/-- A key has one class left. -/
theorem nodup_keys_mergeEqual (rows : List (List String × κ)) :
    ((mergeEqual rows).map (·.2)).Nodup := by
  induction rows using mergeEqual_induction with
  | nil => rw [mergeEqual]; exact List.nodup_nil
  | cons c key rows ih =>
      rw [mergeEqual_cons, List.map_cons, List.nodup_cons]
      refine ⟨fun hmem => ?_, ih⟩
      obtain ⟨row, hrow, heq⟩ := List.mem_map.mp (keys_mergeEqual_subset _ hmem)
      exact absurd heq (of_decide_eq_true (List.mem_filter.mp hrow).2)

/-- Where no key occurs twice, there is nothing to merge. -/
theorem mergeEqual_of_nodup {rows : List (List String × κ)} (h : (rows.map (·.2)).Nodup) :
    mergeEqual rows = rows := by
  induction rows with
  | nil => rw [mergeEqual]
  | cons row rows ih =>
      obtain ⟨c, key⟩ := row
      rw [List.map_cons, List.nodup_cons] at h
      have hne : ∀ row ∈ rows, row.2 ≠ key := fun row hrow heq =>
        h.1 (List.mem_map.mpr ⟨row, hrow, heq⟩)
      have hnone : rows.filter (fun row => row.2 = key) = [] := by
        simpa [List.filter_eq_nil_iff] using hne
      have hall : rows.filter (fun row => row.2 ≠ key) = rows := by
        simpa [List.filter_eq_self] using hne
      rw [mergeEqual_cons, hnone, hall, ih h.2, List.flatMap_nil, List.append_nil]

/-- Glyphs get into the same class if they have the same key. -/
theorem shareClass_mergeEqual {rows : List (List String × κ)} {g g' : String} :
    ShareClass ((mergeEqual rows).map (·.1)) g g' ↔
      ∃ key, Keyed rows g key ∧ Keyed rows g' key := by
  constructor
  · rintro ⟨c, hc, hg, hg'⟩
    obtain ⟨⟨c, key⟩, hmem, rfl⟩ := List.mem_map.mp hc
    exact ⟨key, keyed_mergeEqual.mp ⟨c, hmem, hg⟩, keyed_mergeEqual.mp ⟨c, hmem, hg'⟩⟩
  · rintro ⟨key, hg, hg'⟩
    obtain ⟨c, hmem, hg⟩ := keyed_mergeEqual.mpr hg
    obtain ⟨c', hmem', hg'⟩ := keyed_mergeEqual.mpr hg'
    have heq := List.inj_on_of_nodup_map (nodup_keys_mergeEqual rows) hmem hmem' rfl
    obtain ⟨rfl, -⟩ := Prod.mk.inj heq
    exact ⟨c, List.mem_map.mpr ⟨(c, key), hmem, rfl⟩, hg, hg'⟩

theorem ne_nil_of_mem_mergeEqual {rows : List (List String × κ)}
    (h : ∀ row ∈ rows, row.1 ≠ []) : ∀ row ∈ mergeEqual rows, row.1 ≠ [] := by
  induction rows using mergeEqual_induction with
  | nil => rw [mergeEqual]; exact h
  | cons c key rows ih =>
      rw [mergeEqual_cons, List.forall_mem_cons]
      rw [List.forall_mem_cons] at h
      exact ⟨fun hnil => h.1 (List.append_eq_nil_iff.mp hnil).1,
        ih fun row hrow => h.2 row (List.mem_filter.mp hrow).1⟩

end FontTrace.KernClasses
