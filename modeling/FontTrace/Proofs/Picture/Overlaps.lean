import FontTrace.Proofs.Geometry.CommonBox
import FontTrace.Proofs.Picture.Culling
import FontTrace.Proofs.Replay.Step

/-!
# FontTrace.Proofs.Picture.Overlaps

Keeping what so many contours cover, with the engine of boxes.  The contours of a choice
come in one after the other; where they have no rectangle in common any more, all of them
are gone, and the next one starts anew.

* `mem_choices_iff` — the choices of an outline are its sublists of the given length;
* `standsFor_survivors` — what a choice leaves behind depends on the contours that survive in
  it alone;
* `cull_keeping_eq_nil_iff` — a picture is empty behind the cull if and only if no choice has
  survivors, which says that none of two contours has an area in common, but says less of
  three and more.
-/

namespace FontTrace

/-! ## choices -/

theorem mem_choices_iff {α : Type} {k : Nat} {xs ys : List α} :
    ys ∈ choices k xs ↔ ys.Sublist xs ∧ ys.length = k := by
  induction xs generalizing k ys with
  | nil =>
      cases k with
      | zero => simp [choices]
      | succ k =>
          simp only [choices, List.not_mem_nil, List.sublist_nil, false_iff, not_and]
          rintro rfl
          simp
  | cons x xs ih =>
      cases k with
      | zero => cases ys <;> simp [choices]
      | succ k =>
          rw [choices]
          split
          · next hshort =>
              simp only [List.not_mem_nil, false_iff, not_and]
              intro hsub
              have hlength := hsub.length_le
              rw [List.length_cons] at hlength
              omega
          · simp only [List.mem_append, List.mem_map, ih, List.sublist_cons_iff]
            constructor
            · rintro (⟨zs, ⟨hsub, hlength⟩, rfl⟩ | ⟨hsub, hlength⟩)
              · exact ⟨.inr ⟨zs, rfl, hsub⟩, congrArg Nat.succ hlength⟩
              · exact ⟨.inl hsub, hlength⟩
            · rintro ⟨hsub | ⟨zs, rfl, hsub⟩, hlength⟩
              · exact .inr ⟨hsub, hlength⟩
              · exact .inl ⟨zs, ⟨hsub, Nat.succ.inj hlength⟩, rfl⟩

/-! ## survivors -/

/-- The contours that count after one more: none, if they share no area with it. -/
def counted (left : List Contour) (c : Contour) : List Contour :=
  if sharesArea (left ++ [c]) then left ++ [c] else []

/-- The contours of a choice that still count at its end. -/
def survivors : List Contour → List Contour
  | [] => []
  | c :: cs => cs.foldl counted [c]

/-- The common part after one more contour. -/
def cutDown (common : Outline) (c : Contour) : Outline := boxIntersection (common ++ [c])

/-- The common part of a choice, without the log. -/
def commonBoxes : List Contour → Outline
  | [] => []
  | c :: cs => cs.foldl cutDown [c]

/-- A common part stands for the contours that it was cut down from. -/
structure StandsFor (common left : Outline) : Prop where
  box : commonBox? common = commonBox? left
  empty : common = [] ↔ left = []

theorem StandsFor.cutDown {common left : Outline} (h : StandsFor common left) (c : Contour) :
    StandsFor (FontTrace.cutDown common c) (counted left c) := by
  have hbox : commonBox? (common ++ [c]) = commonBox? (left ++ [c]) := by
    rw [commonBox?_concat, commonBox?_concat, h.box]
  have hshares : sharesArea (common ++ [c]) = sharesArea (left ++ [c]) := by
    rw [sharesArea, hbox, sharesArea]
  rw [FontTrace.cutDown, counted]
  by_cases harea : sharesArea (left ++ [c]) = true
  · obtain ⟨b, hkept, hb, hrectangle⟩ := boxIntersection_of_sharesArea (hshares.trans harea)
    rw [if_pos harea, hkept]
    exact ⟨by rw [commonBox?_singleton, hrectangle, ← hbox, hb], by simp⟩
  · rw [if_neg harea,
      boxIntersection_of_not_sharesArea (hshares.trans (Bool.eq_false_iff.mpr harea))]
    exact ⟨rfl, Iff.rfl⟩

theorem standsFor_survivors (cs : List Contour) : StandsFor (commonBoxes cs) (survivors cs) := by
  have hfold : ∀ (cs : List Contour) {common left : Outline}, StandsFor common left →
      StandsFor (cs.foldl cutDown common) (cs.foldl counted left) := by
    intro cs
    induction cs with
    | nil => exact fun h => h
    | cons c cs ih => exact fun h => ih (h.cutDown c)
  cases cs with
  | nil => exact ⟨rfl, Iff.rfl⟩
  | cons c cs => exact hfold cs ⟨rfl, Iff.rfl⟩

/-! ## the engine of boxes -/

theorem value_commonPart (cs : List Contour) (log : CallLog) :
    (commonPart Engine.recording cs log).value.1 = commonBoxes cs := by
  cases cs with
  | nil => rfl
  | cons c cs =>
      rw [commonPart, commonBoxes]
      generalize [c] = common
      induction cs generalizing common log with
      | nil => rfl
      | cons d cs ih => exact ih (log.add .intersect) (cutDown common d)

/-- What all choices leave, joined into one rectangle. -/
def overlapBox (depth : Nat) (o : Outline) : Outline :=
  boxUnion ((choices depth o).flatMap commonBoxes)

theorem value_foldlM_commonPart (choices : List (List Contour)) (kept : Outline) (log : CallLog) :
    ((choices.foldlM (fun kept cs => do return kept ++ (← commonPart Engine.recording cs)) kept :
      StateT CallLog Noted Outline) log).value.1 = kept ++ choices.flatMap commonBoxes := by
  induction choices generalizing kept log with
  | nil =>
      rw [List.flatMap_nil, List.append_nil]
      rfl
  | cons cs choices ih =>
      rw [List.foldlM_cons, List.flatMap_cons, ← List.append_assoc, ← value_commonPart cs log]
      exact ih _ _

theorem value_keepOverlaps (depth : Nat) (weight : Int) (o : Outline) (log : CallLog) :
    (keepOverlaps Engine.recording depth weight o log).value.1 =
      (List.replicate weight.natAbs
        (if weight < 0 then (overlapBox depth o).reversed else overlapBox depth o)).flatten := by
  have hkept := value_foldlM_commonPart (choices depth o) [] log
  rw [List.nil_append] at hkept
  rw [overlapBox, ← hkept]
  rfl

/-- The engine of boxes makes rectangles, which it joins to one around all of them. -/
theorem boxUnion_eq_nil_iff {o : Outline} (h : ∀ c ∈ o, ∃ b, c = .rectangle b) :
    boxUnion o = [] ↔ o = [] := by
  cases o with
  | nil => simp [boxUnion, Outline.box?, Box.reduce?]
  | cons c o =>
      obtain ⟨b, rfl⟩ := h c List.mem_cons_self
      have hclosed : (Contour.rectangle b).closed = true := rfl
      have hbox : ∃ b', (Contour.rectangle b).box? = some b' := ⟨_, rfl⟩
      obtain ⟨b', hb'⟩ := hbox
      simp [boxUnion, List.partition_eq_filter_filter, hclosed, Outline.box?, hb', Box.reduce?]

theorem exists_rectangle_of_mem_cutDown {common : Outline} {c d : Contour}
    (h : d ∈ cutDown common c) : ∃ b, d = .rectangle b := by
  rw [cutDown, boxIntersection_eq, Option.mem_toList, Option.map_eq_some_iff] at h
  obtain ⟨b, -, rfl⟩ := h
  exact ⟨b, rfl⟩

theorem exists_rectangle_of_mem_commonBoxes {cs : List Contour} (h : 2 ≤ cs.length) {d : Contour}
    (hd : d ∈ commonBoxes cs) : ∃ b, d = .rectangle b := by
  cases cs with
  | nil => cases hd
  | cons c cs =>
      have hne : cs ≠ [] := List.ne_nil_of_length_pos (Nat.le_of_succ_le_succ h)
      rw [commonBoxes, ← List.dropLast_concat_getLast hne, List.foldl_append] at hd
      exact exists_rectangle_of_mem_cutDown hd

theorem overlapBox_eq_nil_iff {depth : Nat} (h : 2 ≤ depth) {o : Outline} :
    overlapBox depth o = [] ↔
      ∀ cs : List Contour, cs.Sublist o → cs.length = depth → survivors cs = [] := by
  rw [overlapBox, boxUnion_eq_nil_iff, List.flatMap_eq_nil_iff]
  · simp only [mem_choices_iff, (standsFor_survivors _).empty, and_imp]
  · intro d hd
    obtain ⟨cs, hcs, hd⟩ := List.mem_flatMap.mp hd
    exact exists_rectangle_of_mem_commonBoxes (by rw [(mem_choices_iff.mp hcs).2]; exact h) hd

theorem flatten_replicate_eq_nil_iff {weight : Int} (h : weight ≠ 0) {o : Outline} :
    (List.replicate weight.natAbs (if weight < 0 then o.reversed else o)).flatten = [] ↔
      o = [] := by
  have hcopies : weight.natAbs ≠ 0 := Int.natAbs_ne_zero.mpr h
  rw [List.flatten_eq_nil_iff]
  split <;> simp [List.mem_replicate, hcopies, Outline.reversed]

/-! ## culling -/

theorem CullRange.cull_eq_keepOverlaps {σ : Type} (e : Engine σ) (cfg : Settings) {low : Int}
    (h : 2 ≤ low) (high weight : Int) (o : Outline) :
    (⟨.keeping, low, high⟩ : CullRange).cull e cfg weight o =
      .ok (keepOverlaps e low.toNat weight o) := by
  have hpositive : (⟨.keeping, low, high⟩ : CullRange).dropsPositive o.length = false := by
    simp [dropsPositive]
    omega
  have hnegative : (⟨.keeping, low, high⟩ : CullRange).dropsNegative o.length = false := by
    simp [dropsNegative]
    omega
  have hzero : (low == 0) = false := by simp; omega
  have hone : 1 ≤ low := by omega
  simp [cull, hpositive, hnegative, hzero, hone]

/-- Two contours survive together or not at all. -/
theorem survivors_eq_nil_iff_of_length_two {cs : List Contour} (h : cs.length = 2) :
    survivors cs = [] ↔ sharesArea cs = false := by
  obtain ⟨c, d, rfl⟩ : ∃ c d, cs = [c, d] := by
    match cs, h with
    | [c, d], _ => exact ⟨c, d, rfl⟩
  show (if sharesArea [c, d] then [c, d] else []) = [] ↔ _
  cases sharesArea [c, d] <;> simp

/-- A cull that keeps what at least two contours cover, of every picture with the engine of
boxes. -/
theorem cull_keeping_eq_nil_iff (cfg : Settings) {s : State CallLog} {name : String} {p : Picture}
    (hp : Pictures.get s.pictures name = .ok p) {low high : Int} (hlow : 2 ≤ low) {weight : Int}
    (hweight : weight ≠ 0) :
    ∃ o log, Culls Engine.recording cfg s name p ⟨.keeping, low, high⟩ weight o log ∧
      (o = [] ↔ ∀ cs : List Contour, cs.Sublist p.outline → (cs.length : Int) = low →
        survivors cs = []) ∧
      (low = 2 → (o = [] ↔ ∀ cs : List Contour, cs.Sublist p.outline → (cs.length : Int) = low →
        sharesArea cs = false)) := by
  have hdepth : 2 ≤ low.toNat := by omega
  have hlength : ∀ n : Nat, n = low.toNat ↔ (n : Int) = low := fun n => by omega
  let draw := keepOverlaps Engine.recording low.toNat weight p.outline
  have hempty : (draw s.engine).value.1 = [] ↔ ∀ cs : List Contour, cs.Sublist p.outline →
      (cs.length : Int) = low → survivors cs = [] := by
    rw [value_keepOverlaps, flatten_replicate_eq_nil_iff hweight, overlapBox_eq_nil_iff hdepth]
    simp only [hlength]
  refine ⟨_, _, culls_of_cull hp (CullRange.cull_eq_keepOverlaps _ cfg hlow high weight _),
    hempty, fun htwo => hempty.trans ?_⟩
  refine forall_congr' fun cs => forall_congr' fun _ => forall_congr' fun hcs => ?_
  exact survivors_eq_nil_iff_of_length_two (by omega)

/-- Three squares side by side. -/
def squares : Outline := [.rectangle ⟨0, 0, 10, 10⟩, .rectangle ⟨20, 0, 30, 10⟩,
  .rectangle ⟨40, 0, 50, 10⟩]

/-- No two of the squares share an area, so nothing is left of what two of them cover. -/
theorem cull_keeping_two_of_squares :
    let p : Picture := { outline := squares }
    let s := (State.initial {} {} .unicode).withPictures [("p", p)]
    ∃ log, Culls Engine.recording {} s "p" p ⟨.keeping, 2, 4095⟩ (-1) [] log := by
  intro p s
  have hp : Pictures.get s.pictures "p" = .ok p := rfl
  obtain ⟨o, log, hculls, -, hempty⟩ :=
    cull_keeping_eq_nil_iff {} hp (by decide : (2 : Int) ≤ 2) (by decide : (-1 : Int) ≠ 0)
  have hpairs : ∀ cs ∈ choices 2 squares, sharesArea cs = false := by decide +kernel
  have hnone : o = [] := (hempty rfl).mpr fun cs hsub hlength =>
    hpairs cs (mem_choices_iff.mpr ⟨hsub, Int.ofNat.inj hlength⟩)
  exact ⟨log, hnone ▸ hculls⟩

/-- The first two squares share nothing, so the third one starts anew and is left. -/
theorem cull_keeping_three_of_squares :
    let p : Picture := { outline := squares }
    let s := (State.initial {} {} .unicode).withPictures [("p", p)]
    (∀ c ∈ squares, c.closed = true ∧ c.nodes ≠ []) ∧
    (∀ cs : List Contour, cs.Sublist squares → (cs.length : Int) = 3 → sharesArea cs = false) ∧
    ∃ log, Culls Engine.recording {} s "p" p ⟨.keeping, 3, 4095⟩ 1 [.rectangle ⟨40, 0, 50, 10⟩]
      log := by
  intro p s
  have hlast : (keepOverlaps Engine.recording 3 1 squares {}).value.1 =
      [.rectangle ⟨40, 0, 50, 10⟩] := by
    decide +kernel
  have hp : Pictures.get s.pictures "p" = .ok p := rfl
  have hcull := CullRange.cull_eq_keepOverlaps Engine.recording {} (by decide : (2 : Int) ≤ 3) 4095
    1 squares
  refine ⟨by decide +kernel, fun cs hsub hlength => ?_, _, hlast ▸ culls_of_cull hp hcull⟩
  rw [hsub.eq_of_length (Int.ofNat.inj hlength)]
  decide +kernel

end FontTrace
