import FontTrace.Proofs.Kerning.Merging
import FontTrace.Proofs.Kerning.Pairs

/-!
# FontTrace.Proofs.Kerning.Compaction

Compacting a table of kerning classes changes nothing that can be read from it,
and leaves the smallest table from which that can be read.

Columns are merged like rows, in the table that is turned over
(`mergeColumns_eq`), so everything is proved of rows.  It holds of the tables
in which every glyph has one class on each side (`WellFormed`); the table of a
list of pairs is one.

* `WellFormed.offset?_mergeRows` — no offset changes;
* `WellFormed.shareClass_mergeRows` — glyphs get into one class if no glyph of
  the other side tells them apart;
* `WellFormed.nodup_offsets` — where only such glyphs share a class, rows differ.
-/

namespace FontTrace.KernClasses

/-! ## partitions -/

/-- Classes with a glyph in each of them, and no glyph in two. -/
structure IsPartition (classes : List (List String)) : Prop where
  ne_nil : ∀ c ∈ classes, c ≠ []
  nodup : classes.flatten.Nodup

section Partition

variable {classes : List (List String)} {g : String}

theorem eq_of_mem_classes (h : classes.flatten.Nodup) {i j : Nat} {c c' : List String}
    (hi : classes[i]? = some c) (hj : classes[j]? = some c') (hg : g ∈ c) (hg' : g ∈ c') :
    i = j := by
  rw [List.nodup_flatten, List.pairwise_iff_getElem] at h
  obtain ⟨hlt, rfl⟩ := List.getElem?_eq_some_iff.mp hi
  obtain ⟨hlt', rfl⟩ := List.getElem?_eq_some_iff.mp hj
  rcases Nat.lt_trichotomy i j with hij | hij | hij
  · exact absurd hg' (h.2 i j hlt hlt' hij hg)
  · exact hij
  · exact absurd hg (h.2 j i hlt' hlt hij hg')

theorem exists_memberOf? (h : g ∈ classes.flatten) : ∃ i, memberOf? classes g = some i := by
  obtain ⟨c, hc, hg⟩ := List.mem_flatten.mp h
  rw [← Option.isSome_iff_exists, memberOf?, List.findIdx?_isSome, List.any_eq_true]
  exact ⟨c, hc, List.contains_iff_mem.mpr hg⟩

theorem memberOf?_eq_some_iff (h : classes.flatten.Nodup) {i : Nat} :
    memberOf? classes g = some i ↔ ∃ c, classes[i]? = some c ∧ g ∈ c := by
  have hclass : ∀ {j}, memberOf? classes g = some j → ∃ c, classes[j]? = some c ∧ g ∈ c := by
    intro j hj
    obtain ⟨hlt, hcontains, -⟩ := List.findIdx?_eq_some_iff_getElem.mp hj
    exact ⟨classes[j], List.getElem?_eq_getElem hlt, List.contains_iff_mem.mp hcontains⟩
  refine ⟨hclass, fun ⟨c, hi, hg⟩ => ?_⟩
  obtain ⟨j, hj⟩ := exists_memberOf? (List.mem_flatten.mpr ⟨c, List.mem_of_getElem? hi, hg⟩)
  obtain ⟨c', hj', hg'⟩ := hclass hj
  rw [hj, eq_of_mem_classes h hj' hi hg' hg]

/-- A class and its key have the same place. -/
theorem keyed_zip {κ : Type} (h : classes.flatten.Nodup) {keys : List κ} {key : κ} :
    Keyed (classes.zip keys) g key ↔ ∃ i, memberOf? classes g = some i ∧ keys[i]? = some key := by
  constructor
  · rintro ⟨c, hmem, hg⟩
    obtain ⟨i, hi⟩ := List.mem_iff_getElem?.mp hmem
    obtain ⟨hclass, hkey⟩ := List.getElem?_zip_eq_some.mp hi
    exact ⟨i, (memberOf?_eq_some_iff h).mpr ⟨c, hclass, hg⟩, hkey⟩
  · rintro ⟨i, hi, hkey⟩
    obtain ⟨c, hclass, hg⟩ := (memberOf?_eq_some_iff h).mp hi
    exact ⟨c, List.mem_iff_getElem?.mpr ⟨i, List.getElem?_zip_eq_some.mpr ⟨hclass, hkey⟩⟩, hg⟩

/-- A glyph of a partition is in exactly one class. -/
theorem IsPartition.existsUnique (h : IsPartition classes) (hg : g ∈ classes.flatten) :
    ∃! i : Nat, ∃ c, classes[i]? = some c ∧ g ∈ c := by
  obtain ⟨i, hi⟩ := exists_memberOf? hg
  refine ⟨i, (memberOf?_eq_some_iff h.nodup).mp hi, fun j hj => ?_⟩
  have hj' := (memberOf?_eq_some_iff h.nodup).mpr hj
  rw [hi] at hj'
  exact (Option.some.inj hj').symm

theorem isPartition_singletons {glyphs : List String} (h : glyphs.Nodup) :
    IsPartition (glyphs.map ([·])) where
  ne_nil := by simp
  nodup := by simpa [← List.flatMap_def] using h

end Partition

/-- Tables with an offset for every two classes, and one class on each side for
every glyph. -/
structure WellFormed (t : KernClasses) : Prop where
  height : t.offsets.length = t.leftClasses.length
  width : ∀ row ∈ t.offsets, row.length = t.rightClasses.length
  left : IsPartition t.leftClasses
  right : IsPartition t.rightClasses

theorem wellFormed_ofPairs (pairs : List (KernPair String)) : (ofPairs pairs).WellFormed := by
  rw [ofPairs_eq_tabulated]
  refine ⟨?_, ?_, isPartition_singletons (nodup_firsts _), isPartition_singletons (nodup_firsts _)⟩
  · simp [tabulated]
  · simp [tabulated]

/-! ## rows -/

section Rows

variable {t : KernClasses} {l l' r : String} {row : List Int}

/-- A glyph reads its row. -/
theorem offset?_of_keyed (h : t.leftClasses.flatten.Nodup)
    (hrow : Keyed (t.leftClasses.zip t.offsets) l row) :
    t.offset? l r = (memberOf? t.rightClasses r).bind (row[·]?) := by
  obtain ⟨i, hi, hrow⟩ := (keyed_zip h).mp hrow
  simp [offset?, hi, hrow]

theorem offset?_eq_none (h : l ∉ t.leftClasses.flatten) : t.offset? l r = none := by
  have hnone : memberOf? t.leftClasses l = none := by
    rw [memberOf?, List.findIdx?_eq_none_iff]
    intro c hc
    rw [← Bool.not_eq_true, List.contains_iff_mem]
    exact fun hl => h (List.mem_flatten.mpr ⟨c, hc, hl⟩)
  simp [offset?, hnone]

theorem zip_mergeRows (t : KernClasses) :
    t.mergeRows.leftClasses.zip t.mergeRows.offsets =
      mergeEqual (t.leftClasses.zip t.offsets) :=
  (List.zip_of_prod rfl rfl).symm

namespace WellFormed

theorem map_fst_zip (h : t.WellFormed) :
    (t.leftClasses.zip t.offsets).map (·.1) = t.leftClasses :=
  List.map_fst_zip (Nat.le_of_eq h.height.symm)

theorem map_snd_zip (h : t.WellFormed) : (t.leftClasses.zip t.offsets).map (·.2) = t.offsets :=
  List.map_snd_zip (Nat.le_of_eq h.height)

theorem exists_keyed (h : t.WellFormed) (hl : l ∈ t.leftClasses.flatten) :
    ∃ row ∈ t.offsets, Keyed (t.leftClasses.zip t.offsets) l row := by
  obtain ⟨i, hi⟩ := exists_memberOf? hl
  obtain ⟨c, hc, -⟩ := (memberOf?_eq_some_iff h.left.nodup).mp hi
  have hlt : i < t.offsets.length := h.height ▸ (List.getElem?_eq_some_iff.mp hc).1
  have hget := List.getElem?_eq_getElem hlt
  exact ⟨t.offsets[i], List.getElem_mem hlt, (keyed_zip h.left.nodup).mpr ⟨i, hi, hget⟩⟩

theorem glyphs_mergeRows_perm (h : t.WellFormed) :
    t.mergeRows.leftClasses.flatten.Perm t.leftClasses.flatten := by
  have hperm := glyphs_mergeEqual_perm (t.leftClasses.zip t.offsets)
  rw [List.flatMap_def, List.flatMap_def, h.map_fst_zip] at hperm
  exact hperm

/-- Merging rows keeps one class for every glyph. -/
theorem mergeRows (h : t.WellFormed) : t.mergeRows.WellFormed where
  height := by rw [KernClasses.mergeRows, List.length_map, List.length_map]
  width := by
    intro row hrow
    have hmem := keys_mergeEqual_subset _ hrow
    rw [h.map_snd_zip] at hmem
    exact h.width row hmem
  left := by
    refine ⟨?_, h.glyphs_mergeRows_perm.nodup_iff.mpr h.left.nodup⟩
    intro c hc
    obtain ⟨row, hrow, rfl⟩ := List.mem_map.mp hc
    refine ne_nil_of_mem_mergeEqual (fun row hrow => ?_) row hrow
    exact h.left.ne_nil row.1 (List.of_mem_zip hrow).1
  right := h.right

/-- Merging rows changes no offset. -/
theorem offset?_mergeRows (h : t.WellFormed) (l r : String) :
    t.mergeRows.offset? l r = t.offset? l r := by
  by_cases hl : l ∈ t.leftClasses.flatten
  · obtain ⟨row, -, hrow⟩ := h.exists_keyed hl
    have hmerged : Keyed (t.mergeRows.leftClasses.zip t.mergeRows.offsets) l row := by
      rw [zip_mergeRows]
      exact keyed_mergeEqual.mpr hrow
    rw [offset?_of_keyed h.left.nodup hrow, offset?_of_keyed h.mergeRows.left.nodup hmerged]
    rfl
  · have hmerged := mt h.glyphs_mergeRows_perm.mem_iff.mp hl
    rw [offset?_eq_none hl, offset?_eq_none hmerged]

/-- Rows in which all right glyphs read the same are equal. -/
theorem row_ext (h : t.WellFormed) {row row' : List Int} (hrow : row ∈ t.offsets)
    (hrow' : row' ∈ t.offsets)
    (hread : ∀ r ∈ t.rightClasses.flatten, (memberOf? t.rightClasses r).bind (row[·]?) =
      (memberOf? t.rightClasses r).bind (row'[·]?)) : row = row' := by
  have hlength := (h.width row hrow).trans (h.width row' hrow').symm
  refine List.ext_getElem hlength fun j hj hj' => ?_
  have hlt : j < t.rightClasses.length := h.width row hrow ▸ hj
  obtain ⟨r, hr⟩ := List.exists_mem_of_ne_nil _ (h.right.ne_nil _ (List.getElem_mem hlt))
  have hclass : memberOf? t.rightClasses r = some j :=
    (memberOf?_eq_some_iff h.right.nodup).mpr ⟨_, List.getElem?_eq_getElem hlt, hr⟩
  have heq := hread r (List.mem_flatten.mpr ⟨_, List.getElem_mem hlt, hr⟩)
  rw [hclass, Option.bind_some, Option.bind_some, List.getElem?_eq_getElem hj,
    List.getElem?_eq_getElem hj'] at heq
  exact Option.some.inj heq

/-- Glyphs get into one class if no glyph of the other side tells them apart. -/
theorem shareClass_mergeRows (h : t.WellFormed) (hl : l ∈ t.leftClasses.flatten)
    (hl' : l' ∈ t.leftClasses.flatten) :
    ShareClass t.mergeRows.leftClasses l l' ↔
      ∀ r ∈ t.rightClasses.flatten, t.offset? l r = t.offset? l' r := by
  rw [KernClasses.mergeRows, shareClass_mergeEqual]
  constructor
  · rintro ⟨row, hrow, hrow'⟩ r -
    rw [offset?_of_keyed h.left.nodup hrow, offset?_of_keyed h.left.nodup hrow']
  · intro hread
    obtain ⟨row, hmem, hrow⟩ := h.exists_keyed hl
    obtain ⟨row', hmem', hrow'⟩ := h.exists_keyed hl'
    have heq : row = row' := by
      refine h.row_ext hmem hmem' fun r hr => ?_
      rw [← offset?_of_keyed h.left.nodup hrow, ← offset?_of_keyed h.left.nodup hrow']
      exact hread r hr
    exact ⟨row, hrow, heq ▸ hrow'⟩

/-- Where glyphs share a class unless they are told apart, rows differ. -/
theorem nodup_offsets (h : t.WellFormed)
    (hshare : ∀ l ∈ t.leftClasses.flatten, ∀ l' ∈ t.leftClasses.flatten,
      (∀ r ∈ t.rightClasses.flatten, t.offset? l r = t.offset? l' r) →
        ShareClass t.leftClasses l l') : t.offsets.Nodup := by
  have hglyph : ∀ (i : Nat) (row : List Int), t.offsets[i]? = some row → ∃ l c,
      t.leftClasses[i]? = some c ∧ l ∈ c ∧ l ∈ t.leftClasses.flatten ∧
      Keyed (t.leftClasses.zip t.offsets) l row := by
    intro i row hi
    have hlt : i < t.leftClasses.length := h.height ▸ (List.getElem?_eq_some_iff.mp hi).1
    obtain ⟨l, hl⟩ := List.exists_mem_of_ne_nil _ (h.left.ne_nil _ (List.getElem_mem hlt))
    have hclass := List.getElem?_eq_getElem hlt
    refine ⟨l, _, hclass, hl, List.mem_flatten.mpr ⟨_, List.getElem_mem hlt, hl⟩, ?_⟩
    rw [keyed_zip h.left.nodup]
    exact ⟨i, (memberOf?_eq_some_iff h.left.nodup).mpr ⟨_, hclass, hl⟩, hi⟩
  rw [List.nodup_iff_getElem?_ne_getElem?]
  intro i j hij hj heq
  obtain ⟨row, hrow⟩ : ∃ row, t.offsets[j]? = some row := ⟨_, List.getElem?_eq_getElem hj⟩
  obtain ⟨l, c, hc, hlc, hl, hkeyed⟩ := hglyph i row (heq.trans hrow)
  obtain ⟨l', c', hc', hlc', hl', hkeyed'⟩ := hglyph j row hrow
  have hread : ∀ r ∈ t.rightClasses.flatten, t.offset? l r = t.offset? l' r := by
    intro r _
    rw [offset?_of_keyed h.left.nodup hkeyed, offset?_of_keyed h.left.nodup hkeyed']
  obtain ⟨d, hd, hld, hld'⟩ := hshare l hl l' hl' hread
  obtain ⟨k, hk⟩ := List.mem_iff_getElem?.mp hd
  have hik := eq_of_mem_classes h.left.nodup hc hk hlc hld
  have hjk := eq_of_mem_classes h.left.nodup hc' hk hlc' hld'
  omega

theorem mergeRows_of_nodup (h : t.WellFormed) (hrows : t.offsets.Nodup) : t.mergeRows = t := by
  have hmerged : mergeEqual (t.leftClasses.zip t.offsets) = t.leftClasses.zip t.offsets :=
    mergeEqual_of_nodup (by rwa [h.map_snd_zip])
  rw [KernClasses.mergeRows, hmerged, h.map_fst_zip, h.map_snd_zip]

end WellFormed

end Rows

/-! ## columns -/

/-- The table read from right to left. -/
def turned (t : KernClasses) : KernClasses where
  leftClasses := t.rightClasses
  rightClasses := t.leftClasses
  offsets := columns t.rightClasses.length t.offsets

theorem getElem?_columns {width : Nat} (rows : List (List Int)) {j : Nat} (h : j < width) :
    (columns width rows)[j]? = some (rows.map fun row => row.getD j 0) := by
  rw [columns, List.getElem?_map, List.getElem?_range h, Option.map_some]

theorem length_columns (width : Nat) (rows : List (List Int)) :
    (columns width rows).length = width := by
  rw [columns, List.length_map, List.length_range]

namespace WellFormed

variable {t : KernClasses}

theorem turned (h : t.WellFormed) : t.turned.WellFormed where
  height := length_columns _ _
  width := by
    intro column hcolumn
    obtain ⟨j, -, rfl⟩ := List.mem_map.mp hcolumn
    rw [List.length_map, h.height]
    rfl
  left := h.right
  right := h.left

/-- Turning a table over twice gives it back. -/
theorem turned_turned (h : t.WellFormed) : t.turned.turned = t := by
  obtain ⟨lefts, rights, offsets⟩ := t
  have hoffsets : columns lefts.length (columns rights.length offsets) = offsets := by
    have hrows : offsets.length = lefts.length := h.height
    refine List.ext_getElem (by rw [length_columns, hrows]) fun i hi hi' => ?_
    have hlength : offsets[i].length = rights.length := h.width _ (List.getElem_mem hi')
    have hrow := getElem?_columns (columns rights.length offsets) (hrows ▸ hi')
    rw [List.getElem?_eq_getElem hi, Option.some.injEq] at hrow
    rw [hrow]
    refine List.ext_getElem (by rw [List.length_map, length_columns, hlength]) fun j hj hj' => ?_
    simp [columns, hi', hj']
  exact congrArg (KernClasses.mk lefts rights) hoffsets

/-- An offset is the same from both sides. -/
theorem offset?_turned (h : t.WellFormed) (l r : String) :
    t.turned.offset? r l = t.offset? l r := by
  cases hl : memberOf? t.leftClasses l with
  | none => simp [offset?, KernClasses.turned, hl]
  | some i =>
      cases hr : memberOf? t.rightClasses r with
      | none => simp [offset?, KernClasses.turned, hl, hr]
      | some j =>
          obtain ⟨c, hc, -⟩ := (memberOf?_eq_some_iff h.left.nodup).mp hl
          obtain ⟨c', hc', -⟩ := (memberOf?_eq_some_iff h.right.nodup).mp hr
          have hi : i < t.offsets.length := h.height ▸ (List.getElem?_eq_some_iff.mp hc).1
          have hj := (List.getElem?_eq_some_iff.mp hc').1
          have hlength : j < t.offsets[i].length :=
            (h.width _ (List.getElem_mem hi)).symm ▸ hj
          simp [offset?, KernClasses.turned, hl, hr, getElem?_columns t.offsets hj, hi, hlength]

/-- Merging columns is merging the rows of the table turned over. -/
theorem mergeColumns_eq (h : t.WellFormed) : t.mergeColumns = t.turned.mergeRows.turned := by
  rw [KernClasses.mergeColumns, h.height]
  rfl

theorem mergeColumns (h : t.WellFormed) : t.mergeColumns.WellFormed := by
  rw [h.mergeColumns_eq]
  exact h.turned.mergeRows.turned

/-- Merging columns changes no offset. -/
theorem offset?_mergeColumns (h : t.WellFormed) (l r : String) :
    t.mergeColumns.offset? l r = t.offset? l r := by
  rw [h.mergeColumns_eq, h.turned.mergeRows.offset?_turned, h.turned.offset?_mergeRows,
    h.offset?_turned]

end WellFormed

/-! ## compacting -/

namespace WellFormed

variable {t : KernClasses}

theorem compact (h : t.WellFormed) : t.compact.WellFormed := h.mergeRows.mergeColumns

theorem offset?_compact (h : t.WellFormed) (l r : String) :
    t.compact.offset? l r = t.offset? l r := by
  rw [KernClasses.compact, h.mergeRows.offset?_mergeColumns, h.offset?_mergeRows]

theorem leftGlyphs_compact_perm (h : t.WellFormed) :
    t.compact.leftClasses.flatten.Perm t.leftClasses.flatten :=
  h.glyphs_mergeRows_perm

theorem rightGlyphs_compact_perm (h : t.WellFormed) :
    t.compact.rightClasses.flatten.Perm t.rightClasses.flatten := by
  rw [KernClasses.compact, h.mergeRows.mergeColumns_eq]
  exact h.mergeRows.turned.glyphs_mergeRows_perm

theorem shareClass_compact_left (h : t.WellFormed) {l l' : String}
    (hl : l ∈ t.leftClasses.flatten) (hl' : l' ∈ t.leftClasses.flatten) :
    ShareClass t.compact.leftClasses l l' ↔
      ∀ r ∈ t.rightClasses.flatten, t.offset? l r = t.offset? l' r :=
  h.shareClass_mergeRows hl hl'

/-- Columns are compared after rows were merged, which makes no difference: the
glyphs of a row read the same in every column. -/
theorem shareClass_compact_right (h : t.WellFormed) {r r' : String}
    (hr : r ∈ t.rightClasses.flatten) (hr' : r' ∈ t.rightClasses.flatten) :
    ShareClass t.compact.rightClasses r r' ↔
      ∀ l ∈ t.leftClasses.flatten, t.offset? l r = t.offset? l r' := by
  have hmem : r ∈ t.mergeRows.turned.leftClasses.flatten := hr
  have hmem' : r' ∈ t.mergeRows.turned.leftClasses.flatten := hr'
  have hmerged := h.mergeRows.turned.shareClass_mergeRows hmem hmem'
  simp only [h.mergeRows.offset?_turned, h.offset?_mergeRows] at hmerged
  rw [KernClasses.compact, h.mergeRows.mergeColumns_eq]
  refine hmerged.trans (forall_congr' fun l => ?_)
  exact imp_congr_left h.glyphs_mergeRows_perm.mem_iff

/-- No two rows are equal. -/
theorem nodup_offsets_compact (h : t.WellFormed) : t.compact.offsets.Nodup := by
  refine h.compact.nodup_offsets fun l hl l' hl' hread => ?_
  rw [h.leftGlyphs_compact_perm.mem_iff] at hl hl'
  refine (h.shareClass_compact_left hl hl').mpr fun r hr => ?_
  rw [← h.offset?_compact, ← h.offset?_compact]
  exact hread r (h.rightGlyphs_compact_perm.mem_iff.mpr hr)

/-- No two columns are equal. -/
theorem nodup_columns_compact (h : t.WellFormed) : t.compact.turned.offsets.Nodup := by
  refine h.compact.turned.nodup_offsets fun r hr r' hr' hread => ?_
  have hmem : r ∈ t.rightClasses.flatten := h.rightGlyphs_compact_perm.mem_iff.mp hr
  have hmem' : r' ∈ t.rightClasses.flatten := h.rightGlyphs_compact_perm.mem_iff.mp hr'
  refine (h.shareClass_compact_right hmem hmem').mpr fun l hl => ?_
  have heq := hread l (h.leftGlyphs_compact_perm.mem_iff.mpr hl)
  rw [h.compact.offset?_turned, h.compact.offset?_turned, h.offset?_compact,
    h.offset?_compact] at heq
  exact heq

/-- A compact table stays as it is. -/
theorem compact_compact (h : t.WellFormed) : t.compact.compact = t.compact := by
  rw [KernClasses.compact, h.compact.mergeRows_of_nodup h.nodup_offsets_compact,
    h.compact.mergeColumns_eq, h.compact.turned.mergeRows_of_nodup h.nodup_columns_compact,
    h.compact.turned_turned]

end WellFormed

/-! ## the table of a list of pairs -/

section Pairs

variable {pairs : List (KernPair String)}

theorem leftGlyphs_ofPairs :
    (ofPairs pairs).leftClasses.flatten = firsts (pairs.map (·.left)) := by
  rw [ofPairs_eq_tabulated, tabulated, ← List.flatMap_def, List.flatMap_singleton']

theorem rightGlyphs_ofPairs :
    (ofPairs pairs).rightClasses.flatten = firsts (pairs.map (·.right)) := by
  rw [ofPairs_eq_tabulated, tabulated, ← List.flatMap_def, List.flatMap_singleton']

theorem forall_leftGlyphs {P : String → Prop} :
    (∀ l ∈ (ofPairs pairs).leftClasses.flatten, P l) ↔ ∀ p ∈ pairs, P p.left := by
  simp only [leftGlyphs_ofPairs, mem_firsts, List.forall_mem_map]

theorem forall_rightGlyphs {P : String → Prop} :
    (∀ r ∈ (ofPairs pairs).rightClasses.flatten, P r) ↔ ∀ p ∈ pairs, P p.right := by
  simp only [rightGlyphs_ofPairs, mem_firsts, List.forall_mem_map]

end Pairs

/-- The table of a list of pairs says what the pairs say, and goes on saying it
when it is compacted. -/
theorem compact_lossless (pairs : List (KernPair String)) (left right : String) :
    (ofPairs pairs).offset? left right = kernOf? pairs left right ∧
      (ofPairs pairs).compact.offset? left right = kernOf? pairs left right := by
  have hpairs := offset?_ofPairs pairs left right
  refine ⟨hpairs, ?_⟩
  rw [(wellFormed_ofPairs pairs).offset?_compact, hpairs]

/-- The smallest table for a list of pairs: glyphs share a class unless a glyph
of the other side tells them apart. -/
structure IsNormalForm (pairs : List (KernPair String)) (t : KernClasses) : Prop where
  height : t.offsets.length = t.leftClasses.length
  width : ∀ row ∈ t.offsets, row.length = t.rightClasses.length
  left_unique : ∀ p ∈ pairs, ∃! i : Nat, ∃ c, t.leftClasses[i]? = some c ∧ p.left ∈ c
  right_unique : ∀ p ∈ pairs, ∃! j : Nat, ∃ c, t.rightClasses[j]? = some c ∧ p.right ∈ c
  left_share : ∀ p ∈ pairs, ∀ q ∈ pairs, ShareClass t.leftClasses p.left q.left ↔
    ∀ s ∈ pairs, (ofPairs pairs).offset? p.left s.right = (ofPairs pairs).offset? q.left s.right
  right_share : ∀ p ∈ pairs, ∀ q ∈ pairs, ShareClass t.rightClasses p.right q.right ↔
    ∀ s ∈ pairs, (ofPairs pairs).offset? s.left p.right = (ofPairs pairs).offset? s.left q.right
  rows_distinct : t.offsets.Nodup
  columns_distinct : ∀ i < t.rightClasses.length, ∀ j < t.rightClasses.length,
    (∀ row ∈ t.offsets, row[i]? = row[j]?) → i = j

/-- Compacting ends in the normal form, and has nothing to do there. -/
theorem compact_normalForm (pairs : List (KernPair String)) :
    IsNormalForm pairs (ofPairs pairs).compact ∧
      (ofPairs pairs).compact.compact = (ofPairs pairs).compact := by
  have h := wellFormed_ofPairs pairs
  have hleft := forall_leftGlyphs.mp fun l (hl : l ∈ (ofPairs pairs).leftClasses.flatten) => hl
  have hright := forall_rightGlyphs.mp fun r (hr : r ∈ (ofPairs pairs).rightClasses.flatten) => hr
  refine ⟨?_, h.compact_compact⟩
  constructor
  case height => exact h.compact.height
  case width => exact h.compact.width
  case left_unique =>
    intro p hp
    exact h.compact.left.existsUnique (h.leftGlyphs_compact_perm.mem_iff.mpr (hleft p hp))
  case right_unique =>
    intro p hp
    exact h.compact.right.existsUnique (h.rightGlyphs_compact_perm.mem_iff.mpr (hright p hp))
  case left_share =>
    intro p hp q hq
    rw [h.shareClass_compact_left (hleft p hp) (hleft q hq)]
    exact forall_rightGlyphs
  case right_share =>
    intro p hp q hq
    rw [h.shareClass_compact_right (hright p hp) (hright q hq)]
    exact forall_leftGlyphs
  case rows_distinct => exact h.nodup_offsets_compact
  case columns_distinct =>
    intro i hi j hj hequal
    have hcolumns := h.nodup_columns_compact
    rw [KernClasses.turned] at hcolumns
    refine (List.getElem?_inj (by rwa [length_columns]) hcolumns).mp ?_
    rw [getElem?_columns _ hi, getElem?_columns _ hj, Option.some.injEq, List.map_inj_left]
    intro row hrow
    rw [List.getD_eq_getElem?_getD, List.getD_eq_getElem?_getD, hequal row hrow]

/-- `A` and `L` have equal rows, and `V` and `W` equal columns in the rows that are left. -/
example :
    (ofPairs [⟨"A", "V", -80⟩, ⟨"L", "V", -80⟩, ⟨"T", "o", -40⟩, ⟨"A", "W", -80⟩,
      ⟨"L", "W", -80⟩]).compact = ⟨[["A", "L"], ["T"]], [["V", "W"], ["o"]], [[-80, 0], [0, -40]]⟩ := by
  decide +kernel

end FontTrace.KernClasses
