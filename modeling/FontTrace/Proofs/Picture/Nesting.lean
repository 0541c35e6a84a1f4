import FontTrace.Engine.Basic
import FontTrace.Proofs.Number.Negation
import Mathlib.Algebra.Group.Even
import Mathlib.Data.Nat.Basic

/-!
# FontTrace.Proofs.Picture.Nesting

Contours oriented by how deep they are nested.  Depths are those in the outline as it was, whatever
became of the contours in front, and a contour is turned round or stays as it is.

* `nestingDepth_eq` — the depth of a point as a number of other contours;
* `orientAt_cases` — what becomes of one contour, and when it is turned round;
* `isClockwise_orientAt_iff` — how it runs then, if its area changes the sign when it is reversed;
* `correctDirection_by_nesting` — every outline, contour by contour.
-/

namespace FontTrace

section Nesting

variable {o : Outline} {c d : Contour} {i : Nat} {p : Point}

/-! ## depths -/

theorem countP_zipIdx_of_lt {α : Type} (f : α → Bool) (xs : List α) {i k : Nat} (h : i < k) :
    ((xs.zipIdx k).countP fun x => x.2 != i && f x.1) = xs.countP f := by
  induction xs generalizing k with
  | nil => rfl
  | cons x xs ih =>
      have hne : (k != i) = true := by simpa using Nat.ne_of_gt h
      simp [List.zipIdx_cons, List.countP_cons, ih (Nat.lt_succ_of_lt h), hne]

/-- The place of an element does not matter for the others. -/
theorem countP_zipIdx_eq {α : Type} (f : α → Bool) (xs : List α) (i k : Nat) :
    ((xs.zipIdx k).countP fun x => x.2 != k + i && f x.1) = (xs.eraseIdx i).countP f := by
  induction xs generalizing i k with
  | nil => rfl
  | cons x xs ih =>
      cases i with
      | zero =>
          simpa [List.zipIdx_cons, List.countP_cons] using
            countP_zipIdx_of_lt f xs (Nat.lt_succ_self k)
      | succ i =>
          have hplace : k + (i + 1) = k + 1 + i := by omega
          have hne : (k != k + 1 + i) = true := by simp; omega
          rw [hplace]
          simp [List.zipIdx_cons, List.countP_cons, ih, hne]

/-- How deep a point is, as the number of the other contours around it. -/
theorem nestingDepth_eq (o : Outline) (i : Nat) (p : Point) :
    nestingDepth o i p = (o.eraseIdx i).countP (·.encloses p) := by
  simpa [nestingDepth] using countP_zipIdx_eq (·.encloses p) o i 0

/-! ## one contour -/

theorem isOriented_iff : c.isOriented = true ↔
    c.closed = true ∧ ¬c.signedArea.abs < smallestArea := by
  simp [Contour.isOriented]

/-- A contour without an orientation, or without a point on the curve, stays as it is; any other
one is turned round if it does not run as its depth says. -/
theorem orientAt_cases (o : Outline) (c : Contour) (i : Nat) :
    ((c.isOriented = false ∨ c.firstPoint? = none) ∧ orientAt o c i = c) ∨
    ∃ p, c.isOriented = true ∧ c.firstPoint? = some p ∧
      orientAt o c i =
        if c.isClockwise = (nestingDepth o i p % 2 == 0) then c else c.reversed := by
  unfold orientAt
  cases hfirst : c.firstPoint? with
  | none => exact .inl ⟨.inr rfl, rfl⟩
  | some p =>
      cases horiented : c.isOriented with
      | false => exact .inl ⟨.inl rfl, by simp⟩
      | true =>
          refine .inr ⟨p, rfl, rfl, ?_⟩
          by_cases hruns : c.isClockwise = (nestingDepth o i p % 2 == 0) <;> simp [hruns]

/-- Reversed, a contour runs the other way, if its area changes the sign. -/
theorem isClockwise_reversed_iff (horiented : c.isOriented = true)
    (hsign : (c.reversed.signedArea == -c.signedArea) = true) :
    c.reversed.isClockwise = true ↔ ¬c.isClockwise = true := by
  have hnumber : c.signedArea.isNaN = false := by
    rw [← isNaN_neg]
    exact isNaN_eq_false_of_beq hsign
  have hpos : 0 < smallestArea := by decide +kernel
  simp only [Contour.isClockwise, decide_eq_true_iff]
  rw [lt_iff_of_beq hsign]
  exact neg_lt_zero_iff hpos hnumber (isOriented_iff.mp horiented).2

theorem isClockwise_orientAt_iff (horiented : c.isOriented = true) (hp : c.firstPoint? = some p)
    (hsign : (c.reversed.signedArea == -c.signedArea) = true) :
    (orientAt o c i).isClockwise = true ↔ Even (nestingDepth o i p) := by
  rcases orientAt_cases o c i with ⟨hstays | hstays, -⟩ | ⟨q, -, hq, hturned⟩
  · exact absurd (hstays.symm.trans horiented) Bool.false_ne_true
  · cases hstays.symm.trans hp
  · obtain rfl := Option.some.inj (hq.symm.trans hp)
    rw [hturned, Nat.even_iff]
    split
    · next hruns => rw [hruns, beq_iff_eq]
    · next hruns =>
      rw [isClockwise_reversed_iff horiented hsign]
      cases hclockwise : c.isClockwise <;> simpa [hclockwise] using hruns

/-! ## the outline -/

/-- What becomes of the contour at a place of an outline. -/
structure OrientedIn (o : Outline) (i : Nat) (c d : Contour) : Prop where
  turned : d = c ∨ d = c.reversed
  opened : c.closed = false → d = c
  small : c.signedArea.abs < smallestArea → d = c
  /-- Only other contours count, as they were. -/
  clockwise_iff : c.closed = true → ¬c.signedArea.abs < smallestArea →
    (c.reversed.signedArea == -c.signedArea) = true → ∀ p, c.firstPoint? = some p →
      (d.isClockwise = true ↔ Even ((o.eraseIdx i).countP (·.encloses p)))

theorem orientedIn_orientAt (o : Outline) (c : Contour) (i : Nat) :
    OrientedIn o i c (orientAt o c i) := by
  have hstays (h : c.isOriented = false) : orientAt o c i = c := by
    rcases orientAt_cases o c i with ⟨-, hsame⟩ | ⟨p, horiented, -, -⟩
    · exact hsame
    · exact absurd (h.symm.trans horiented) Bool.false_ne_true
  refine ⟨?_, fun hopen => hstays ?_, fun hsmall => hstays ?_, fun hclosed hlarge hsign p hp => ?_⟩
  · rcases orientAt_cases o c i with ⟨-, hsame⟩ | ⟨p, -, -, hturned⟩
    · exact .inl hsame
    · rw [hturned]
      exact ite_eq_or_eq ..
  · simp [Contour.isOriented, hopen]
  · simp [Contour.isOriented, hsmall]
  · rw [← nestingDepth_eq]
    exact isClockwise_orientAt_iff (isOriented_iff.mpr ⟨hclosed, hlarge⟩) hp hsign

theorem getElem?_orientByNesting (o : Outline) (i : Nat) :
    (orientByNesting o)[i]? = o[i]?.map (orientAt o · i) := by
  simp [orientByNesting, List.getElem?_zipIdx, Function.comp_def]

/-- The engine keeps the number of contours and their order, and orients each of them by how many
others are around its first point on the curve. -/
theorem correctDirection_by_nesting (o : Outline) :
    ∃ ds : Outline, Engine.basic.correctDirection o = pure ds ∧ ds.length = o.length ∧
      ∀ i c, o[i]? = some c → ∃ d, ds[i]? = some d ∧ OrientedIn o i c d := by
  refine ⟨orientByNesting o, rfl, by simp [orientByNesting], fun i c hc => ?_⟩
  refine ⟨orientAt o c i, ?_, orientedIn_orientAt o c i⟩
  rw [getElem?_orientByNesting, hc, Option.map_some]

/-- A square inside another one, beside an open path. -/
def nestedSquares : Outline :=
  [.rectangle ⟨0, 0, 100, 100⟩, ⟨[.on ⟨0, 0⟩, .on ⟨50, 50⟩], false⟩, .rectangle ⟨10, 10, 20, 20⟩]

/-- The inner square becomes a hole. -/
theorem correctDirection_of_nestedSquares :
    ∃ ds c d, Engine.basic.correctDirection nestedSquares = pure ds ∧ nestedSquares[2]? = some c ∧
      ds[2]? = some d ∧ c.isClockwise = true ∧ d = c.reversed ∧ ¬d.isClockwise = true := by
  obtain ⟨ds, hds, -, hall⟩ := correctDirection_by_nesting nestedSquares
  obtain ⟨d, hd, h⟩ := hall 2 (.rectangle ⟨10, 10, 20, 20⟩) rfl
  have hclockwise : (Contour.rectangle ⟨10, 10, 20, 20⟩).isClockwise = true := by decide +kernel
  have hruns := h.clockwise_iff rfl (by decide +kernel) (by decide +kernel) ⟨10, 10⟩
    (by decide +kernel)
  have hdepth : (nestedSquares.eraseIdx 2).countP (·.encloses ⟨10, 10⟩) = 1 := by decide +kernel
  rw [hdepth] at hruns
  have hturns : ¬d.isClockwise = true := fun hd => absurd (hruns.mp hd) (by decide)
  refine ⟨ds, _, d, hds, rfl, hd, hclockwise, ?_, hturns⟩
  exact h.turned.resolve_left fun hsame => hturns (hsame ▸ hclockwise)

end Nesting

end FontTrace
