/-!
# FontTrace.Text.CharRanges

Sets of characters as runs of code points, the form in which Unicode gives its
properties.

* `CharRanges.has_iff` — a character is in the set if it lies in one of the runs.
-/

namespace FontTrace

/-- A set of characters: the first and the last code point of every run. -/
abbrev CharRanges := List (Nat × Nat)

namespace CharRanges

/-- Whether a character is in the set. -/
def has (rs : CharRanges) (c : Char) : Bool :=
  rs.any fun (first, last) => first ≤ c.toNat && c.toNat ≤ last

theorem has_iff {rs : CharRanges} {c : Char} :
    rs.has c = true ↔ ∃ r ∈ rs, r.1 ≤ c.toNat ∧ c.toNat ≤ r.2 := by
  simp [has]

end CharRanges

end FontTrace
