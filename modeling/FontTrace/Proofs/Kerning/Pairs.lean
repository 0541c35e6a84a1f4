import FontTrace.Font.KernClass
import FontTrace.Proofs.Font.Lookup

/-!
# FontTrace.Proofs.Kerning.Pairs

The table of a list of pairs, before any classes are merged.  Rows and columns
come into it in any order while it is filled in, so it is compared with a table
that is written down at once, from the glyphs on both sides and a function that
gives the offsets:

* `lastKern` — what a list of pairs says about two glyphs;
* `add_tabulated` — one more pair changes the function at one place;
* `ofPairs_eq_tabulated` — the table of a list of pairs is that of `lastKern`.
-/

namespace FontTrace

/-- The members of a list, each at its first place. -/
def firsts (xs : List String) : List String := xs.foldl addNew []

theorem firsts_concat (xs : List String) (x : String) :
    firsts (xs ++ [x]) = addNew (firsts xs) x :=
  List.foldl_concat addNew [] x xs

theorem mem_firsts {xs : List String} {x : String} : x ∈ firsts xs ↔ x ∈ xs := by
  rw [firsts, mem_foldl_addNew]
  simp

theorem nodup_firsts (xs : List String) : (firsts xs).Nodup := by
  induction xs using List.reverseRecOn with
  | nil => exact List.nodup_nil
  | append_singleton xs y ih =>
      rw [firsts_concat]
      exact nodup_addNew ih y

namespace KernClasses

/-! ## what pairs say -/

/-- The kern of the last pair of two glyphs, or zero if they are no pair. -/
def lastKern (pairs : List (KernPair String)) (left right : String) : Int :=
  ((pairs.filter fun p => p.left = left ∧ p.right = right).getLast?.map (·.kern)).getD 0

theorem lastKern_concat (pairs : List (KernPair String)) (p : KernPair String)
    (left right : String) :
    lastKern (pairs ++ [p]) left right =
      if p.left = left ∧ p.right = right then p.kern else lastKern pairs left right := by
  unfold lastKern
  rw [List.filter_append, List.filter_singleton]
  by_cases h : p.left = left ∧ p.right = right
  · simp [h]
  · simp [h]

/-- Glyphs that are on no side of a pair are no pair. -/
theorem lastKern_eq_zero {pairs : List (KernPair String)} {left right : String}
    (h : left ∉ pairs.map (·.left) ∨ right ∉ pairs.map (·.right)) :
    lastKern pairs left right = 0 := by
  have hnone : (pairs.filter fun p => p.left = left ∧ p.right = right) = [] := by
    rw [List.filter_eq_nil_iff]
    intro p hp hpair
    obtain ⟨hleft, hright⟩ := of_decide_eq_true hpair
    rcases h with h | h
    · exact h (List.mem_map.mpr ⟨p, hp, hleft⟩)
    · exact h (List.mem_map.mpr ⟨p, hp, hright⟩)
  rw [lastKern, hnone]
  rfl

/-! ## tables written down at once -/

/-- The table with a class for every glyph and the offsets that a function gives. -/
def tabulated (lefts rights : List String) (kern : String → String → Int) : KernClasses where
  leftClasses := lefts.map ([·])
  rightClasses := rights.map ([·])
  offsets := lefts.map fun l => rights.map (kern l)

theorem classOf?_singletons (glyphs : List String) (g : String) :
    classOf? (glyphs.map ([·])) g = glyphs.findIdx? (· == g) := by
  rw [classOf?, List.findIdx?_map]
  rfl

theorem isSome_classOf?_singletons {glyphs : List String} {g : String} :
    (classOf? (glyphs.map ([·])) g).isSome ↔ g ∈ glyphs := by
  rw [classOf?_singletons, List.findIdx?_isSome, List.any_beq']
  exact List.elem_iff

theorem exists_classOf?_singletons {glyphs : List String} {g : String} (h : g ∈ glyphs) :
    ∃ i, classOf? (glyphs.map ([·])) g = some i ∧ glyphs[i]? = some g := by
  obtain ⟨i, hi⟩ := Option.isSome_iff_exists.mp (isSome_classOf?_singletons.mpr h)
  refine ⟨i, hi, ?_⟩
  rw [classOf?_singletons, List.findIdx?_eq_some_iff_getElem] at hi
  obtain ⟨hlt, hbeq, -⟩ := hi
  rw [List.getElem?_eq_getElem hlt, eq_of_beq hbeq]

theorem memberOf?_singletons (glyphs : List String) (g : String) :
    memberOf? (glyphs.map ([·])) g = classOf? (glyphs.map ([·])) g := by
  rw [classOf?_singletons, memberOf?, List.findIdx?_map]
  congr 1
  funext x
  simp [Bool.beq_eq_decide_eq, eq_comm]

section Tabulated

variable {lefts rights : List String} {kern : String → String → Int} {g : String}

theorem withRow_tabulated (h : g ∉ lefts → ∀ r ∈ rights, kern g r = 0) :
    (tabulated lefts rights kern).withRow g = tabulated (addNew lefts g) rights kern := by
  have hclass : (classOf? (tabulated lefts rights kern).leftClasses g).isSome ↔ g ∈ lefts :=
    isSome_classOf?_singletons
  by_cases hmem : g ∈ lefts
  · rw [withRow, if_pos (hclass.mpr hmem), addNew, if_pos hmem]
  · have hzeros : rights.map (kern g) = List.replicate rights.length 0 := by
      rw [List.map_eq_replicate_iff]
      exact h hmem
    rw [withRow, if_neg (mt hclass.mp hmem), addNew, if_neg hmem]
    simp [tabulated, hzeros]

theorem withColumn_tabulated (h : g ∉ rights → ∀ l ∈ lefts, kern l g = 0) :
    (tabulated lefts rights kern).withColumn g = tabulated lefts (addNew rights g) kern := by
  have hclass : (classOf? (tabulated lefts rights kern).rightClasses g).isSome ↔ g ∈ rights :=
    isSome_classOf?_singletons
  by_cases hmem : g ∈ rights
  · rw [withColumn, if_pos (hclass.mpr hmem), addNew, if_pos hmem]
  · rw [withColumn, if_neg (mt hclass.mp hmem), addNew, if_neg hmem]
    have hzero : ∀ l ∈ lefts, 0 = kern l g := fun l hl => (h hmem l hl).symm
    simpa [tabulated] using hzero

/-- An offset that is set is a place where the function gives another value. -/
theorem modify_tabulated (hlefts : lefts.Nodup) (hrights : rights.Nodup) {l r : String}
    {i j : Nat} (hi : lefts[i]? = some l) (hj : rights[j]? = some r) (x : Int) :
    ((lefts.map fun l => rights.map (kern l)).modify i fun row => row.set j x) =
      lefts.map fun l' => rights.map fun r' => if l = l' ∧ r = r' then x else kern l' r' := by
  have hlt : i < lefts.length := (List.getElem?_eq_some_iff.mp hi).1
  have hlt' : j < rights.length := (List.getElem?_eq_some_iff.mp hj).1
  refine List.ext_getElem (by simp) fun m hm hm' => ?_
  rw [List.length_map] at hm'
  rw [List.getElem_modify, List.getElem_map, List.getElem_map]
  have hrow : i = m ↔ l = lefts[m] := by
    rw [← List.getElem?_inj hlt hlefts, hi, List.getElem?_eq_getElem hm', Option.some.injEq]
  by_cases hl : l = lefts[m]
  · rw [if_pos (hrow.mpr hl)]
    refine List.ext_getElem (by simp) fun n hn hn' => ?_
    rw [List.length_map] at hn'
    have hcolumn : j = n ↔ r = rights[n] := by
      rw [← List.getElem?_inj hlt' hrights, hj, List.getElem?_eq_getElem hn', Option.some.injEq]
    rw [List.getElem_set, List.getElem_map, List.getElem_map]
    simp only [hcolumn, hl, true_and]
  · rw [if_neg (mt hrow.mp hl)]
    simp only [hl, false_and, if_false]

/-- One more pair, in a table that gives zeros for the glyphs it does not have. -/
theorem add_tabulated (hlefts : lefts.Nodup) (hrights : rights.Nodup)
    (hzero : ∀ l r, l ∉ lefts ∨ r ∉ rights → kern l r = 0) (p : KernPair String) :
    (tabulated lefts rights kern).add p =
      tabulated (addNew lefts p.left) (addNew rights p.right) fun l r =>
        if p.left = l ∧ p.right = r then p.kern else kern l r := by
  have hfull : ((tabulated lefts rights kern).withRow p.left).withColumn p.right =
      tabulated (addNew lefts p.left) (addNew rights p.right) kern := by
    rw [withRow_tabulated fun h r _ => hzero _ r (.inl h),
      withColumn_tabulated fun h l _ => hzero l _ (.inr h)]
  obtain ⟨i, hclass, hi⟩ := exists_classOf?_singletons
    (mem_addNew.mpr (.inr rfl) : p.left ∈ addNew lefts p.left)
  obtain ⟨j, hclass', hj⟩ := exists_classOf?_singletons
    (mem_addNew.mpr (.inr rfl) : p.right ∈ addNew rights p.right)
  rw [add, hfull]
  simp only [tabulated, hclass, hclass']
  rw [modify_tabulated (nodup_addNew hlefts p.left) (nodup_addNew hrights p.right) hi hj]

/-- Reading a table that was written down at once. -/
theorem offset?_tabulated (l r : String) :
    (tabulated lefts rights kern).offset? l r =
      if l ∈ lefts ∧ r ∈ rights then some (kern l r) else none := by
  have hleft : memberOf? (lefts.map ([·])) l = classOf? (lefts.map ([·])) l :=
    memberOf?_singletons lefts l
  have hright : memberOf? (rights.map ([·])) r = classOf? (rights.map ([·])) r :=
    memberOf?_singletons rights r
  by_cases hl : l ∈ lefts
  · obtain ⟨i, hi, hli⟩ := exists_classOf?_singletons hl
    by_cases hr : r ∈ rights
    · obtain ⟨j, hj, hrj⟩ := exists_classOf?_singletons hr
      simp [offset?, tabulated, hleft, hright, hi, hj, hli, hrj, hl, hr]
    · have hnone := mt isSome_classOf?_singletons.mp hr
      rw [Option.not_isSome_iff_eq_none] at hnone
      simp [offset?, tabulated, hleft, hright, hi, hnone, hr]
  · have hnone := mt isSome_classOf?_singletons.mp hl
    rw [Option.not_isSome_iff_eq_none] at hnone
    simp [offset?, tabulated, hleft, hnone, hl]

end Tabulated

/-- The table of a list of pairs has a row for every left glyph and a column
for every right one, and holds what the pairs say last. -/
theorem ofPairs_eq_tabulated (pairs : List (KernPair String)) :
    ofPairs pairs =
      tabulated (firsts (pairs.map (·.left))) (firsts (pairs.map (·.right))) (lastKern pairs) := by
  induction pairs using List.reverseRecOn with
  | nil => rfl
  | append_singleton pairs p ih =>
      have hzero : ∀ l r, l ∉ firsts (pairs.map (·.left)) ∨ r ∉ firsts (pairs.map (·.right)) →
          lastKern pairs l r = 0 := by
        intro l r h
        rw [mem_firsts, mem_firsts] at h
        exact lastKern_eq_zero h
      have hkern : lastKern (pairs ++ [p]) = fun l r =>
          if p.left = l ∧ p.right = r then p.kern else lastKern pairs l r := by
        funext l r
        exact lastKern_concat pairs p l r
      rw [ofPairs, List.foldl_concat, ← ofPairs, ih,
        add_tabulated (nodup_firsts _) (nodup_firsts _) hzero, List.map_append, List.map_append,
        List.map_singleton, List.map_singleton, firsts_concat, firsts_concat, hkern]

/-- What a list of pairs says about two glyphs, which is nothing unless there
are pairs with the one on the left and pairs with the other on the right. -/
def kernOf? (pairs : List (KernPair String)) (left right : String) : Option Int :=
  if (∃ p ∈ pairs, p.left = left) ∧ ∃ p ∈ pairs, p.right = right then
    some (lastKern pairs left right)
  else none

/-- The table of a list of pairs says what the pairs say. -/
theorem offset?_ofPairs (pairs : List (KernPair String)) (left right : String) :
    (ofPairs pairs).offset? left right = kernOf? pairs left right := by
  rw [ofPairs_eq_tabulated, offset?_tabulated, kernOf?]
  simp only [mem_firsts, List.mem_map]

end KernClasses

end FontTrace
