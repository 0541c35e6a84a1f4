/-!
# FontTrace.Table

Tables from names to values as lists of pairs, no name twice as long as they
are filled by `put`.

* `find?_put` — after `put` the name has the new value and all others their old one;
* `names_put_of_mem`, `names_put_of_not_mem` — a name keeps its place, and a new
  name comes last.
-/

namespace FontTrace

/-- A table from `κ` to `β`. -/
abbrev Table (κ β : Type) := List (κ × β)

namespace Table

variable {κ β : Type} [DecidableEq κ]

/-- The value of a name. -/
def find? (t : Table κ β) (k : κ) : Option β :=
  match t with
  | [] => none
  | (k', v) :: t => if k' = k then some v else find? t k

/-- The table with a new value for a name. -/
def put (t : Table κ β) (k : κ) (v : β) : Table κ β :=
  match t with
  | [] => [(k, v)]
  | (k', v') :: t => if k' = k then (k, v) :: t else (k', v') :: put t k v

/-- The names in the table. -/
def names (t : Table κ β) : List κ := t.map (·.1)

/-- Whether a name is in the table. -/
def has (t : Table κ β) (k : κ) : Bool := (find? t k).isSome

@[simp] theorem find?_nil (k : κ) : find? ([] : Table κ β) k = none := rfl

theorem find?_put (t : Table κ β) (k k' : κ) (v : β) :
    find? (put t k v) k' = if k = k' then some v else find? t k' := by
  induction t with
  | nil => simp [put, find?]
  | cons p t ih =>
    obtain ⟨a, b⟩ := p
    by_cases h : a = k
    · subst h
      by_cases h' : a = k' <;> simp [put, find?, h']
    · by_cases h' : a = k'
      · subst h'
        simp [put, find?, h, Ne.symm h]
      · simp [put, find?, h, h', ih]

@[simp] theorem find?_put_self (t : Table κ β) (k : κ) (v : β) : find? (put t k v) k = some v := by
  simp [find?_put]

theorem find?_put_of_ne (t : Table κ β) {k k' : κ} (h : k ≠ k') (v : β) :
    find? (put t k v) k' = find? t k' := by
  simp [find?_put, h]

theorem names_put_of_mem (t : Table κ β) {k : κ} (v : β) (h : k ∈ names t) :
    names (put t k v) = names t := by
  induction t with
  | nil => simp [names] at h
  | cons p t ih =>
    obtain ⟨a, b⟩ := p
    by_cases ha : a = k
    · simp [put, names, ha]
    · have hk : k ∈ names t := by
        simpa [names, Ne.symm ha] using h
      have := ih hk
      simp only [names] at this
      simp [put, names, ha, this]

theorem names_put_of_not_mem (t : Table κ β) {k : κ} (v : β) (h : k ∉ names t) :
    names (put t k v) = names t ++ [k] := by
  induction t with
  | nil => simp [put, names]
  | cons p t ih =>
    obtain ⟨a, b⟩ := p
    simp only [names, List.map_cons, List.mem_cons, not_or] at h
    have := ih h.2
    simp only [names] at this
    simp [put, names, Ne.symm h.1, this]

end Table

end FontTrace
