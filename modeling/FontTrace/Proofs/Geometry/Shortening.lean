import FontTrace.Proofs.Geometry.Places

/-!
# FontTrace.Proofs.Geometry.Shortening

The pass over straight runs takes out nothing but contours that are straight as a whole and nodes
strictly inside straight runs, whatever the test for straightness answers.

* `keeps_of_shortens` — what one cut keeps of a contour;
* `steps_shortenRuns`, `steps_removeCollinear` — the pass is a sequence of such cuts;
* `removeCollinear_sound` — all of it for an outline, along which the walk from place to place stays
  in range.
-/

namespace FontTrace

variable {straight : List Node → Bool}

/-! ## one cut -/

/-- The nodes of a closed contour before and behind one cut: those strictly inside a straight run
are gone.  The run starts and ends in two different nodes on the curve and has another one inside;
it may go on at the front. -/
inductive Shortens (straight : List Node → Bool) : List Node → List Node → Prop
  | within (front : List Node) {a : Node} {inside : List Node} {b : Node} (after : List Node) :
      a.onCurve = true → b.onCurve = true → (∃ n ∈ inside, n.onCurve = true) →
      straight (a :: (inside ++ [b])) = true →
      Shortens straight (front ++ a :: (inside ++ b :: after)) (front ++ a :: b :: after)
  | across {before : List Node} {b : Node} (middle : List Node) {a : Node} {back : List Node} :
      a.onCurve = true → b.onCurve = true → (∃ n ∈ back ++ before, n.onCurve = true) →
      straight (a :: (back ++ before ++ [b])) = true →
      Shortens straight (before ++ b :: middle ++ a :: back) (b :: (middle ++ [a]))

theorem keeps_of_shortens (nodes nodes' : List Node) (h : Shortens straight nodes nodes') :
    KeepsShape (·.onCurve) nodes nodes' := by
  cases h with
  | @within front a inside b after ha hb =>
      refine ⟨?_, fun _ => ?_, linesAndCubics_of_subset ha ha fun k hk => ?_⟩
      · have hinside : (b :: after).Sublist (inside ++ b :: after) := List.sublist_append_right _ _
        exact (hinside.cons_cons a).append_left front
      · simp [ha, hb]
        omega
      · have hround : b :: after ++ front = [] ++ b :: (after ++ front) := by simp
        have hround' : inside ++ b :: after ++ front = inside ++ b :: (after ++ front) := by simp
        rw [hround, countsBetween_append_cons hb, countsBetween_nil] at hk
        rw [hround', countsBetween_append_cons hb]
        simp only [List.singleton_append, List.mem_cons] at hk
        exact hk.symm.imp_left fun hk => List.mem_append_right _ hk
  | @across before b middle a back ha hb =>
      have hb' : [] ++ b :: (middle ++ [a]) = b :: (middle ++ [a]) := rfl
      refine ⟨?_, fun _ => ?_, ?_⟩
      · have hmiddle : (b :: (middle ++ [a])).Sublist (b :: middle ++ a :: back) := by
          have hend : [a].Sublist (a :: back) := (List.nil_sublist back).cons_cons a
          exact (hend.append_left middle).cons_cons b
        rw [List.append_assoc]
        exact hmiddle.trans (List.sublist_append_right _ _)
      · simp [ha, hb]
      · rw [← hb']
        refine linesAndCubics_of_subset ha hb fun k hk => ?_
        have hround : middle ++ [a] ++ [] = middle ++ a :: [] := by simp
        have hround' : back ++ (before ++ b :: middle) = back ++ before ++ b :: middle := by simp
        rw [hround, countsBetween_append_cons ha, countsBetween_nil] at hk
        rw [hround', countsBetween_append_cons hb]
        simp only [List.mem_append, List.mem_singleton] at hk
        exact hk.imp_left fun hk => List.mem_append_right _ hk

/-! ## one contour -/

theorem steps_shortenRunAt {front : List Node} {a : Node} {back : List Node}
    (ha : a.onCurve = true) :
    Relation.ReflTransGen (Shortens straight) (front ++ a :: back)
      (shortenRunAt straight (front ++ a :: back) front.length) := by
  rcases shortenRunAt_cases straight front a back with
    ⟨-, h⟩ | ⟨inside, b, after, rfl, hrun, h⟩ | ⟨before, b, middle, rfl, hrun, h⟩
  · rw [h]
  · rw [h]
    exact .single (.within front after ha hrun.onCurve hrun.inner hrun.isStraight)
  · rw [h]
    exact .single (.across middle ha hrun.onCurve hrun.inner hrun.isStraight)

/-- What was cut up to a node is a sequence of cuts; the induction is on the nodes. -/
theorem steps_shortenRuns (straight : List Node → Bool) (nodes : List Node) :
    Relation.ReflTransGen (Shortens straight) nodes (shortenRuns straight nodes) := by
  obtain ⟨-, -, h⟩ := shortenRuns_induction straight
    (P := fun _ nodes' => Relation.ReflTransGen (Shortens straight) nodes nodes') .refl
    (fun _ _ _ _ h => h) (fun _ _ _ ha h => h.trans (steps_shortenRunAt ha))
  exact h

/-! ## an outline -/

/-- An outline before and behind one step of the pass: a closed contour that is straight as a
whole is gone, or a closed contour is cut. -/
inductive PruningStep (straight : List Node → Bool) : Outline → Outline → Prop
  | drop (front back : Outline) {c : Contour} : c.closed = true → straight c.nodes = true →
      PruningStep straight (front ++ c :: back) (front ++ back)
  | cut (front back : Outline) {c : Contour} {nodes : List Node} : c.closed = true →
      Shortens straight c.nodes nodes →
      PruningStep straight (front ++ c :: back) (front ++ { c with nodes := nodes } :: back)

theorem pruningSteps_of_steps {front back : Outline} {c : Contour} {nodes : List Node}
    (hclosed : c.closed = true) (h : Relation.ReflTransGen (Shortens straight) c.nodes nodes) :
    Relation.ReflTransGen (PruningStep straight) (front ++ c :: back)
      (front ++ { c with nodes := nodes } :: back) := by
  induction h with
  | refl => exact .refl
  | @tail nodes' nodes'' _ hstep ih =>
      exact ih.tail (.cut front back (c := { c with nodes := nodes' }) hclosed hstep)

theorem steps_removeCollinear (front o : Outline) :
    Relation.ReflTransGen (PruningStep straight) (front ++ o)
      (front ++ removeCollinear straight o) := by
  induction o generalizing front with
  | nil => exact .refl
  | cons c o ih =>
      have hnext : ∀ d : Contour, Relation.ReflTransGen (PruningStep straight) (front ++ d :: o)
          (front ++ d :: removeCollinear straight o) := fun d => by simpa using ih (front ++ [d])
      have hpass : removeCollinear straight (c :: o) =
          (c :: o).filterMap (passed straight (shortenRuns straight)) := rfl
      rcases passed_cases straight (shortenRuns straight) c with
        ⟨-, -, hpassed⟩ | ⟨hclosed, hstraight, -, hpassed⟩ | ⟨hclosed, -, -, hpassed⟩
      · rw [hpass, List.filterMap_cons_some hpassed]
        exact hnext c
      · rw [hpass, List.filterMap_cons_none hpassed]
        exact .head (.drop front o hclosed hstraight) (ih front)
      · rw [hpass, List.filterMap_cons_some hpassed]
        exact (pruningSteps_of_steps hclosed (steps_shortenRuns straight c.nodes)).trans (hnext _)

/-- Every outline, and every test for straightness. -/
theorem removeCollinear_sound (straight : List Node → Bool) (o : Outline) :
    walkOutline? straight o = some (removeCollinear straight o) ∧
    Relation.ReflTransGen (PruningStep straight) o (removeCollinear straight o) ∧
    (removeCollinear straight o).filter (!·.closed) = o.filter (!·.closed) ∧
    List.Forall₂ (SurvivesBy (Shortens straight) (·.onCurve)) (o.filter (survives straight))
      (removeCollinear straight o) :=
  ⟨walkOutline?_eq o, steps_removeCollinear [] o, filter_open_passed o,
    forall₂_passed (fun c _ => .refl c)
      (fun c hclosed _ => .of_steps keeps_of_shortens hclosed (steps_shortenRuns straight c.nodes)) o⟩

end FontTrace
