import FontTrace.Number.Order

/-!
# FontTrace.Proofs.Number.Least

The first of the least elements of a list.  A search that goes through the list and keeps what
it has until something smaller comes ends with it, if the elements are in an order; they need
be in one only as far as they are in the list, so that what is not a number can be kept out.

* `FirstLeast` — all elements before are larger, and none behind is smaller;
* `FirstLeast.next` — one step of the search;
* `firstLeast_of_leastBy?` — the whole search;
* `leastBy?_cons_of_le` — a list that starts with a least element.
-/

namespace FontTrace

variable {α : Type} {le : α → α → Bool} {xs : List α} {m : α}

/-- The first of the least elements of a list: what stands before it is larger, and nothing
behind it is smaller. -/
def FirstLeast (le : α → α → Bool) (xs : List α) (m : α) : Prop :=
  ∃ before after, xs = before ++ m :: after ∧
    (∀ x ∈ before, le x m = false) ∧ ∀ x ∈ after, le m x = true

namespace FirstLeast

theorem singleton (m : α) : FirstLeast le [m] m := ⟨[], [], rfl, nofun, nofun⟩

theorem mem (h : FirstLeast le xs m) : m ∈ xs := by
  obtain ⟨before, after, rfl, -, -⟩ := h
  exact List.mem_append_right before List.mem_cons_self

/-- What is in the search, as far as the order goes. -/
theorem le_of_mem (total : ∀ a b, le a b = true ∨ le b a = true) (h : FirstLeast le xs m)
    {x : α} (hx : x ∈ xs) : le m x = true := by
  obtain ⟨before, after, rfl, hbefore, hafter⟩ := h
  rcases List.mem_append.mp hx with hx | hx
  · exact (total m x).resolve_right (by rw [hbefore x hx]; exact Bool.false_ne_true)
  · rcases List.mem_cons.mp hx with rfl | hx
    · exact (total x x).elim id id
    · exact hafter x hx

/-- One step of the search: the next element takes the place of the least one if it is smaller. -/
theorem next {P : α → Prop} (trans : ∀ a b c, P b → le a b = true → le b c = true → le a c = true)
    (total : ∀ a b, le a b = true ∨ le b a = true) (hxs : ∀ x ∈ xs, P x) {b : α} (hb : P b)
    (h : FirstLeast le xs m) : FirstLeast le (xs ++ [b]) (if le m b then m else b) := by
  obtain ⟨before, after, rfl, hbefore, hafter⟩ := id h
  cases hle : le m b with
  | true =>
      refine ⟨before, after ++ [b], by simp, hbefore, ?_⟩
      intro x hx
      rcases List.mem_append.mp hx with hx | hx
      · exact hafter x hx
      · obtain rfl := List.mem_singleton.mp hx
        exact hle
  | false =>
      refine ⟨before ++ m :: after, [], rfl, ?_, nofun⟩
      intro x hx
      -- an element as small as the next one would make the least one as small
      refine Bool.eq_false_iff.mpr fun hxb => ?_
      have hmb : le m b = true := trans m x b (hxs x hx) (h.le_of_mem total hx) hxb
      exact Bool.false_ne_true (hle.symm.trans hmb)

end FirstLeast

theorem leastBy?_eq_none_iff : leastBy? le xs = none ↔ xs = [] := by
  cases xs with
  | nil => exact iff_of_true rfl rfl
  | cons x xs => exact iff_of_false nofun nofun

/-- The search ends with the first of the least elements. -/
theorem firstLeast_of_leastBy? {P : α → Prop}
    (trans : ∀ a b c, P b → le a b = true → le b c = true → le a c = true)
    (total : ∀ a b, le a b = true ∨ le b a = true) (hxs : ∀ x ∈ xs, P x)
    (h : leastBy? le xs = some m) : FirstLeast le xs m := by
  have hsearch (as : List α) : ∀ (seen : List α) (m : α), (∀ x ∈ seen ++ as, P x) →
      FirstLeast le seen m →
      FirstLeast le (seen ++ as) (as.foldl (fun m b => if le m b then m else b) m) := by
    induction as with
    | nil =>
        intro seen m _ hm
        rwa [List.append_nil]
    | cons b as ih =>
        intro seen m hP hm
        have hstep := hm.next trans total (fun x hx => hP x (List.mem_append_left _ hx))
          (hP b (List.mem_append_right seen List.mem_cons_self))
        have hlist : seen ++ b :: as = seen ++ [b] ++ as := by simp
        rw [hlist] at hP ⊢
        exact ih (seen ++ [b]) _ hP hstep
  cases xs with
  | nil => cases h
  | cons a as =>
      obtain rfl := Option.some.inj h
      exact hsearch as [a] a hxs (.singleton a)

/-- A list that starts with a least element. -/
theorem leastBy?_cons_of_le {a : α} {as : List α} (h : ∀ x ∈ as, le a x = true) :
    leastBy? le (a :: as) = some a := by
  induction as with
  | nil => rfl
  | cons b bs ih =>
      have hnext : leastBy? le (a :: b :: bs) = leastBy? le ((if le a b then a else b) :: bs) := rfl
      rw [hnext, if_pos (h b List.mem_cons_self)]
      exact ih fun x hx => h x (List.mem_cons_of_mem b hx)

end FontTrace
