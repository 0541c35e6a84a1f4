import FontTrace.Engine.Basic
import FontTrace.Proofs.Shipment.Outcome

/-!
# FontTrace.Proofs.Shipment.Attachment

Values for a glyph belong to one shipment.  They wait in the scratch; the next
shipment takes all of them, and gives them to its glyph or drops them.

* `Attached` — where the values are when the glyph is there;
* `attached_afterGlyph` — each of them is there once, and in order;
* `shipment_takes_values` — after any shipment nothing waits, and without a
  glyph it does not matter what has waited.
-/

namespace FontTrace

variable {σ : Type}

/-! ## lists that are filled one by one -/

/-- Folding appends what is picked, if every step does. -/
theorem foldl_picks {α β γ : Type} (get : β → List γ) (pick : α → Option γ) {f : β → α → β}
    (hget : ∀ b a, get (f b a) = get b ++ (pick a).toList) (as : List α) (b : β) :
    get (as.foldl f b) = get b ++ as.filterMap pick := by
  induction as generalizing b with
  | nil => exact (List.append_nil _).symm
  | cons a as ih =>
      rw [List.foldl_cons, ih, hget, List.append_assoc]
      cases h : pick a with
      | none => rw [List.filterMap_cons_none h, Option.toList, List.nil_append]
      | some x => rw [List.filterMap_cons_some h, Option.toList, List.singleton_append]

/-! ## hints -/

namespace Hint

/-- The position and the width of a horizontal stem. -/
def horizontal? : Hint → Option (Float × Float)
  | .horizontal position width => some (position, width)
  | _ => none

/-- The position and the width of a vertical stem. -/
def vertical? : Hint → Option (Float × Float)
  | .vertical position width => some (position, width)
  | _ => none

/-- The points and the direction of a diagonal stem. -/
def diagonal? : Hint → Option DiagonalHint
  | .diagonal d => some d
  | _ => none

end Hint

/-- Every hint is kept once among those of its kind, unless it is broken. -/
theorem value_hintsFor (glyph : String) (hints : List (Except OperandError Hint)) :
    (hintsFor glyph hints).value =
      ⟨hints.filterMap fun h => h.toOption.bind Hint.horizontal?,
        hints.filterMap fun h => h.toOption.bind Hint.vertical?,
        hints.filterMap fun h => h.toOption.bind Hint.diagonal?⟩ := by
  have hfold : ∀ {γ : Type} (get : Hints → List γ) (pick : Hint → Option γ),
      (∀ hs h, get (hs.add h) = get hs ++ (pick h).toList) → get {} = [] →
      get (hintsFor glyph hints).value = hints.filterMap fun h => h.toOption.bind pick := by
    intro γ get pick hadd hnil
    rw [hintsFor, value_foldlM, foldl_picks get (fun h => h.toOption.bind pick), hnil,
      List.nil_append]
    intro hs h
    cases h with
    | error cause => exact (List.append_nil _).symm
    | ok h => exact hadd hs h
  have hhorizontal := hfold Hints.horizontal Hint.horizontal?
    (fun hs h => by cases h <;> simp [Hints.add, Hint.horizontal?]) rfl
  have hvertical := hfold Hints.vertical Hint.vertical?
    (fun hs h => by cases h <;> simp [Hints.add, Hint.vertical?]) rfl
  have hdiagonal := hfold Hints.diagonal Hint.diagonal?
    (fun hs h => by cases h <;> simp [Hints.add, Hint.diagonal?]) rfl
  rw [← hhorizontal, ← hvertical, ← hdiagonal]

/-! ## math kerns -/

/-- The kerns at a corner. -/
def MathKerning.at (m : MathKerning) : Corner → List (Int × Int)
  | .topRight => m.topRight
  | .topLeft => m.topLeft
  | .bottomRight => m.bottomRight
  | .bottomLeft => m.bottomLeft

/-- The height and the kern of a math kern at a corner, unless it is broken or
at another corner. -/
def mathKernAt? (corner : Corner) (advance : Int) (k : Corner × Except OperandError Point) :
    Option (Int × Int) :=
  if k.1 = corner then k.2.toOption.map (mathKernAt corner advance) else none

theorem MathKerning.at_add (m : MathKerning) (kern : Int × Int) (corner corner' : Corner) :
    (m.add kern corner).at corner' = m.at corner' ++ if corner = corner' then [kern] else [] := by
  cases corner <;> cases corner' <;> simp [MathKerning.add, MathKerning.at]

/-- Every math kern is kept once at its corner, unless it is broken. -/
theorem at_value_mathKernsFor (glyph : String) (advance : Int)
    (kerns : List (Corner × Except OperandError Point)) (corner : Corner) :
    (mathKernsFor glyph advance kerns).value.at corner =
      kerns.filterMap (mathKernAt? corner advance) := by
  have hnil : ({} : MathKerning).at corner = [] := by cases corner <;> rfl
  rw [mathKernsFor, value_foldlM]
  refine (foldl_picks (MathKerning.at · corner) (mathKernAt? corner advance) ?_ kerns {}).trans
    (by rw [hnil, List.nil_append])
  rintro ks ⟨corner', position⟩
  cases position with
  | error cause =>
      show ks.at corner = _
      rw [mathKernAt?]
      split <;> exact (List.append_nil _).symm
  | ok p =>
      show (ks.add (mathKernAt corner' advance p) corner').at corner = _
      rw [MathKerning.at_add, mathKernAt?]
      by_cases h : corner' = corner
      · rw [if_pos h, if_pos h, h]
        rfl
      · rw [if_neg h, if_neg h]
        rfl

/-! ## references -/

/-- A reference of a glyph, unless it is broken. -/
def pendingReference? (cfg : Settings) (f : Font) (glyph : String)
    (r : String × Except OperandError (Transform Float)) : Option PendingReference :=
  r.2.toOption.map fun m => ⟨glyph, (f.resolve cfg.generalizedCode (.text r.1)).value, m⟩

/-- Every reference is kept once, unless it is broken. -/
theorem value_referencesFor (cfg : Settings) (f : Font) (glyph : String)
    (references : List (String × Except OperandError (Transform Float))) :
    (referencesFor cfg f glyph references).value =
      references.filterMap (pendingReference? cfg f glyph) := by
  rw [referencesFor, value_foldlM]
  refine foldl_picks id (pendingReference? cfg f glyph) ?_ references []
  rintro rs ⟨operand, transform⟩
  cases transform with
  | error cause => exact (List.append_nil _).symm
  | ok m => rfl

/-! ## the glyph and the tables -/

/-- Where the values are that waited for a glyph, when the glyph is there. -/
structure Attached (cfg : Settings) (s s' : State σ) (g : ShippedGlyph) (glyph : Glyph) :
    Prop where
  found : s'.font.glyph? g.id.name = some glyph
  others : ∀ name, name ≠ g.id.name → s'.font.glyph? name = s.font.glyph? name
  anchors : glyph.anchors = s.scratch.anchors
  carets : glyph.ligatureCarets = s.scratch.carets
  hints : glyph.hints =
    ⟨s.scratch.hints.filterMap fun h => h.toOption.bind Hint.horizontal?,
      s.scratch.hints.filterMap fun h => h.toOption.bind Hint.vertical?,
      s.scratch.hints.filterMap fun h => h.toOption.bind Hint.diagonal?⟩
  mathKerns : ∀ corner, glyph.mathKerning.at corner =
    s.scratch.mathKerns.filterMap (mathKernAt? corner (glyph.width + glyph.italicCorrection))
  references : s'.tables.references = s.tables.references ++
    s.scratch.references.filterMap (pendingReference? cfg s.font g.id.name)
  /-- A glyph that is an alternate replaces another one before its own replacements come. -/
  replacements : s'.tables.replacements = s.tables.replacements ++ g.alternate.toList ++
    s.scratch.replacements.map (·.resolved g.id.name)

theorem attached_afterGlyph (e : Engine σ) (cfg : Settings) (s : State σ) (g : ShippedGlyph) :
    ∃ glyph, Attached cfg s (s.afterGlyph e cfg g) g glyph := by
  obtain ⟨ps, engine, o, hs⟩ := State.exists_afterGlyph e cfg s g
  refine ⟨s.glyphOf cfg g o, ?_⟩
  rw [hs]
  exact
    { found := by
        rw [State.fontAfter, Font.find?_putGlyph]
        exact if_pos rfl
      others := fun name hname => by
        rw [State.fontAfter, Font.find?_putGlyph]
        exact if_neg (Ne.symm hname)
      anchors := rfl
      carets := rfl
      hints := value_hintsFor g.id.name s.scratch.hints
      mathKerns := at_value_mathKernsFor g.id.name _ s.scratch.mathKerns
      references := congrArg (s.tables.references ++ ·) (value_referencesFor cfg s.font _ _)
      replacements := rfl }

/-! ## shipments -/

theorem State.cleared_afterShipment (e : Engine σ) (cfg : Settings) (s : State σ)
    (x : Except Skip Shipment) :
    (s.afterShipment e cfg x).scratch = {} ∧ (s.afterShipment e cfg x).hexCode = none := by
  cases h : (s.shipOutcome cfg x).glyph? with
  | some g =>
      obtain ⟨ps, engine, o, hs⟩ := State.exists_afterGlyph e cfg s g
      rw [State.afterShipment_of_some h, hs]
      exact ⟨rfl, rfl⟩
  | none =>
      obtain ⟨ps, engine, hs⟩ := State.exists_afterNoGlyph e cfg s x
      rw [State.afterShipment_of_none h, hs]
      exact ⟨rfl, rfl⟩

theorem State.afterNoGlyph_of_cleared_eq {s s' : State σ} (h : s.cleared = s'.cleared)
    (e : Engine σ) (cfg : Settings) (x : Except Skip Shipment) :
    s.afterNoGlyph e cfg x = s'.afterNoGlyph e cfg x := by
  cases x with
  | error reason => exact h
  | ok sh => exact congrArg (fun t : State σ => (t.tidy e cfg sh.picture).2) h

/-- The state without the list of what was left out. -/
def State.unreported (s : State σ) : State σ := { s with skipped := [] }

/-- However a shipment ends, nothing waits for a glyph after it.  If it ends
without a glyph, then no glyph and no table changes, and the state is the same
whatever waited; if it ends with a glyph, then that has all that waited. -/
theorem shipment_takes_values (e : Engine σ) (cfg : Settings) {r : Record}
    (hr : r.op = .shipout) (c : Cursor) :
    let k := (Script.construct r c).1
    (∀ s : State σ, (State.step e cfg s k).value.scratch = {} ∧
      (State.step e cfg s k).value.hexCode = none) ∧
    (∀ s : State σ, k.glyph? cfg s = none →
      (State.step e cfg s k).value.font = s.font ∧
      (State.step e cfg s k).value.tables = s.tables ∧
      ∀ s' : State σ, s.cleared = s'.cleared → k.glyph? cfg s' = none →
        (State.step e cfg s k).value.unreported = (State.step e cfg s' k).value.unreported) ∧
    (∀ (s : State σ) (g : ShippedGlyph), k.glyph? cfg s = some g →
      ∃ glyph, Attached cfg s (State.step e cfg s k).value g glyph) := by
  intro k
  have hk : k.shipment? cfg = some ((Shipment.read r).run c).1 :=
    Construct.shipment?_construct cfg hr c
  have hglyph : ∀ s : State σ,
      k.glyph? cfg s = (s.shipOutcome cfg ((Shipment.read r).run c).1).glyph? := by
    intro s
    rw [Construct.glyph?, hk, Option.bind_some]
  refine ⟨?_, ?_, ?_⟩
  · intro s
    rw [value_step_of_shipment e s hk]
    exact State.cleared_afterShipment e cfg s _
  · intro s hs
    have hnone := State.afterShipment_of_none (e := e) ((hglyph s).symm.trans hs)
    rw [value_step_of_shipment e s hk, hnone]
    obtain ⟨ps, engine, hafter⟩ := State.exists_afterNoGlyph e cfg s ((Shipment.read r).run c).1
    refine ⟨?_, ?_, ?_⟩
    · rw [hafter]
      rfl
    · rw [hafter]
      rfl
    · intro s' hcleared hs'
      rw [value_step_of_shipment e s' hk,
        State.afterShipment_of_none ((hglyph s').symm.trans hs'),
        State.afterNoGlyph_of_cleared_eq hcleared]
      rfl
  · intro s g hs
    rw [value_step_of_shipment e s hk, State.afterShipment_of_some ((hglyph s).symm.trans hs)]
    obtain ⟨glyph, h⟩ := attached_afterGlyph e cfg s g
    exact ⟨glyph, ⟨h.found, h.others, h.anchors, h.carets, h.hints, h.mathKerns, h.references,
      h.replacements⟩⟩

/-- A shipment with anchors and hints for its glyph, one of them broken; and the
same shipment when its picture is not there. -/
theorem shipment_takes_values_of_letter :
    let r : Record := ⟨"shipout", none, "10>> 65>> 0>> 65>> 70>> 2>> 0>> 0>> 0>> 0>> 0"⟩
    let k := (Script.construct r ⟨[⟨"pic", none, "\"p\""⟩], none⟩).1
    let s : State Unit := { State.initial () {} .unicode with
      pictures := [("p", {})]
      scratch :=
        { anchors := [⟨"top", "base", ⟨1, 2⟩⟩]
          hints := [.ok (.vertical 4 5), .error (.number "x"), .ok (.vertical 6 7)] } }
    let s' : State Unit := { s with pictures := [] }
    let letter : ShippedGlyph := ⟨⟨⟨65, 650, 700, 20, 0, 0, 0⟩, "p"⟩, ⟨"A", some 65, some 65⟩, none⟩
    r.op = .shipout ∧
    (k.glyph? {} s' = none ∧ k.glyph? {} s'.cleared = none ∧
      (State.step Engine.basic {} s' k).value.unreported =
        (State.step Engine.basic {} s'.cleared k).value.unreported) ∧
    (k.glyph? {} s = some letter ∧ ∃ glyph,
      Attached {} s (State.step Engine.basic {} s k).value letter glyph ∧
      glyph.anchors = [⟨"top", "base", ⟨1, 2⟩⟩] ∧ glyph.hints.vertical = [(4, 5), (6, 7)]) := by
  intro r k s s' letter
  have hr : r.op = .shipout := by decide +kernel
  have hlost : k.glyph? {} s' = none := by decide +kernel
  have hcleared : k.glyph? {} s'.cleared = none := by decide +kernel
  have hletter : k.glyph? {} s = some letter := by decide +kernel
  obtain ⟨-, hnone, hsome⟩ :=
    shipment_takes_values Engine.basic {} hr ⟨[⟨"pic", none, "\"p\""⟩], none⟩
  obtain ⟨glyph, hglyph⟩ := hsome s letter hletter
  refine ⟨hr, ⟨hlost, hcleared, (hnone s' hlost).2.2 s'.cleared rfl hcleared⟩, hletter, glyph,
    hglyph, hglyph.anchors, ?_⟩
  rw [hglyph.hints]
  rfl

end FontTrace
