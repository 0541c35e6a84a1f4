import FontTrace.Proofs.Replay.Effect

/-!
# FontTrace.Proofs.Shipment.PendingLigature

Ligatures that wait for their glyph.  They are given ahead of the glyph that
they make, like the other values for it, but wait in the tables.  A shipment
that ends without a glyph leaves them there, and the next glyph takes them.

* `LeavesShipped` — what a construct without a glyph leaves as it is in the tables;
* `ligatures_step`, `ligatures_follow` — a ligature keeps its place, and gets
  the name of the first glyph after it;
* `pending_ligatures_iff` — a shipment takes the ligatures that wait for it if
  and only if it has a glyph.
-/

namespace FontTrace

variable {σ : Type}

/-! ## ligatures that wait -/

namespace LigatureRule

/-- Whether a ligature waits for the glyph that is shipped next. -/
def isPending (l : LigatureRule) : Bool := l.result == .next

/-- Whether a ligature has got the name of a glyph that was shipped. -/
def isSettled (l : LigatureRule) : Bool :=
  match l.result with
  | .glyph _ => true
  | _ => false

/-- A ligature after a construct that ships out a glyph of the given name, or none. -/
def settledBy (glyph : Option String) (l : LigatureRule) : LigatureRule :=
  match glyph with
  | some name => l.settled name
  | none => l

@[simp] theorem settledBy_none (l : LigatureRule) : l.settledBy none = l := rfl

@[simp] theorem settledBy_some (l : LigatureRule) (name : String) :
    l.settledBy (some name) = l.settled name := rfl

theorem isPending_iff {l : LigatureRule} : l.isPending = true ↔ l.result = .next := by
  simp [isPending]

/-- A ligature that waits gets the name of the glyph, if there is one. -/
theorem result_settledBy_iff {l : LigatureRule} (h : l.result = .next) {glyph : Option String}
    {name : String} : (l.settledBy glyph).result = .glyph name ↔ glyph = some name := by
  cases glyph with
  | none => simp [h]
  | some name' => simp [settled, h]

theorem isPending_settled (l : LigatureRule) (name : String) :
    (l.settled name).isPending = false := by
  unfold settled isPending
  split
  · rfl
  · next h => simpa using h

theorem settled_of_not_isPending {l : LigatureRule} (h : l.isPending = false) (name : String) :
    l.settled name = l := by
  have hresult : l.result ≠ .next := by simpa [isPending] using h
  simp [settled, hresult]

/-- Of two glyphs the first one counts. -/
theorem settledBy_settledBy (l : LigatureRule) (glyph glyph' : Option String) :
    (l.settledBy glyph).settledBy glyph' = l.settledBy (glyph <|> glyph') := by
  cases glyph with
  | none => simp
  | some name =>
      cases glyph' with
      | none => simp
      | some name' => simp [settled_of_not_isPending (isPending_settled l name)]

/-- No ligature gets a name of a later glyph, if and only if there is an own
glyph, or no ligature waits, or no later glyph comes. -/
theorem forall_own_iff {ls : List LigatureRule} {own later : Option String} :
    (∀ l ∈ ls, l.result = .next → ∀ name,
      (l.settledBy (own <|> later)).result = .glyph name → own = some name) ↔
      own.isSome ∨ (∀ l ∈ ls, l.isPending = false) ∨ later = none := by
  cases own with
  | some name' =>
      constructor
      · exact fun _ => .inl rfl
      · exact fun _ l _ hl name htaken => (result_settledBy_iff hl).mp htaken
  | none =>
      cases later with
      | none => simp +contextual
      | some name' =>
          constructor
          · intro h
            refine .inr (.inl fun l hl => ?_)
            cases hpending : l.isPending with
            | false => rfl
            | true =>
                have hnext := isPending_iff.mp hpending
                cases h l hl hnext name' ((result_settledBy_iff hnext).mpr rfl)
          · rintro (hown | hidle | hlater)
            · cases hown
            · intro l hl hnext
              exact absurd ((hidle l hl).symm.trans (isPending_iff.mpr hnext)) Bool.false_ne_true
            · cases hlater

end LigatureRule

/-- The ligatures that wait for a glyph. -/
def State.pendingLigatures (s : State σ) : List LigatureRule :=
  s.tables.ligatures.filter (·.isPending)

/-- The name of the glyph that a construct ships out. -/
def Construct.glyphName? (cfg : Settings) (s : State σ) (k : Construct) : Option String :=
  (k.glyph? cfg s).map (·.id.name)

/-- The name of the first glyph that a script ships out. -/
def Script.firstGlyph? (e : Engine σ) (cfg : Settings) (s : State σ) : Script → Option String
  | [] => none
  | k :: script =>
    k.glyphName? cfg s <|> firstGlyph? e cfg (State.step e cfg s k).value script

/-! ## one construct -/

theorem ligatures_shipment (e : Engine σ) {cfg : Settings} (s : State σ) {k : Construct}
    {x : Except Skip Shipment} (h : k.shipment? cfg = some x) :
    (State.step e cfg s k).value.tables.ligatures =
      s.tables.ligatures.map (·.settledBy (k.glyphName? cfg s)) := by
  rw [value_step_of_shipment e s h, Construct.glyphName?, Construct.glyph?, h, Option.bind_some]
  cases hg : (s.shipOutcome cfg x).glyph? with
  | some g =>
      obtain ⟨ps, engine, o, hs⟩ := State.exists_afterGlyph e cfg s g
      rw [State.afterShipment_of_some hg, hs]
      rfl
  | none =>
      obtain ⟨ps, engine, hs⟩ := State.exists_afterNoGlyph e cfg s x
      rw [State.afterShipment_of_none hg, hs]
      simp [State.cleared]

/-- The ligatures of a ligature table make characters that are named in it. -/
theorem LigtableProgram.exists_operand_of_mem_run {feature : String}
    {skipped : Table String (List CharRef)} {p : LigtableProgram} {l : LigatureRule}
    (h : l ∈ (p.run feature skipped).ligatures) : ∃ c, l.result = .operand c := by
  suffices hsteps : ∀ (steps : List LigtableStep) (r : LigtableRun),
      (∀ l ∈ r.ligatures, ∃ c, l.result = .operand c) →
        ∀ l ∈ (steps.foldl (LigtableRun.step feature) r).ligatures, ∃ c, l.result = .operand c by
    exact hsteps p.steps { skipped := skipped } (fun _ hl => absurd hl List.not_mem_nil) l h
  intro steps
  induction steps with
  | nil => exact fun _ hr => hr
  | cons step steps ih =>
      intro r hr
      refine ih _ ?_
      cases step with
      | ligature right shape result =>
          intro l hl
          rcases List.mem_append.mp hl with hold | hnew
          · exact hr l hold
          · obtain ⟨left, -, rfl⟩ := List.mem_map.mp hnew
            exact ⟨result, rfl⟩
      | _ => exact hr

/-- What shipped glyphs have put into the tables stays as it is, and no ligature
gets the name of one. -/
structure LeavesShipped (s s' : State σ) : Prop where
  references : s'.tables.references = s.tables.references
  replacements : s'.tables.replacements = s.tables.replacements
  topAccents : s'.explicit.topAccents = s.explicit.topAccents
  ligatures : ∃ made, (∀ l ∈ made, l.isSettled = false) ∧
    s'.tables.ligatures = s.tables.ligatures ++ made

namespace LeavesShipped

variable {s s' : State σ}

theorem of_eq (hreferences : s'.tables.references = s.tables.references)
    (hreplacements : s'.tables.replacements = s.tables.replacements)
    (htopAccents : s'.explicit.topAccents = s.explicit.topAccents)
    (hligatures : s'.tables.ligatures = s.tables.ligatures) : LeavesShipped s s' where
  references := hreferences
  replacements := hreplacements
  topAccents := htopAccents
  ligatures := ⟨[], fun _ hl => absurd hl List.not_mem_nil, by rw [hligatures, List.append_nil]⟩

theorem skipped (h : LeavesShipped s s') (reasons : List Skip) :
    LeavesShipped s { s' with skipped := reasons } :=
  ⟨h.references, h.replacements, h.topAccents, h.ligatures⟩

end LeavesShipped

/-- Only shipments put anything of a glyph into the tables. -/
theorem leavesShipped_perform (e : Engine σ) (cfg : Settings) {c : Command}
    (h : ∀ x, c ≠ .ship x) (s : State σ) : LeavesShipped s (perform e cfg c s).value.1 := by
  cases c with
  | ship x => exact absurd rfl (h x)
  | picture p =>
      obtain ⟨ps, engine, hs⟩ := exists_perform_picture e cfg p s
      rw [hs]
      exact .of_eq rfl rfl rfl rfl
  | edit x =>
      obtain ⟨ps, engine, hs⟩ := exists_perform_edit e cfg x s
      rw [hs]
      exact .of_eq rfl rfl rfl rfl
  | ligtable p =>
      show LeavesShipped s { s with tables := p.apply s.tables }
      unfold LigtableProgram.apply
      dsimp only
      split
      · exact .of_eq rfl rfl rfl rfl
      · refine ⟨rfl, rfl, rfl, _, fun l hl => ?_, rfl⟩
        obtain ⟨c, hc⟩ := LigtableProgram.exists_operand_of_mem_run hl
        rw [LigatureRule.isSettled, hc]
  | ligatureOfNext components =>
      refine ⟨rfl, rfl, rfl, _, fun l hl => ?_, rfl⟩
      rw [List.mem_singleton.mp hl]
      rfl
  | fontdimen params =>
      obtain ⟨f, sigma, xi, hs, -⟩ := exists_perform_fontdimen e cfg params s
      rw [hs]
      exact .of_eq rfl rfl rfl rfl
  | designSize size =>
      obtain ⟨f, hs, -⟩ := exists_perform_designSize e cfg size s
      rw [hs]
      exact .of_eq rfl rfl rfl rfl
  | font edit =>
      show LeavesShipped s (edit.apply s)
      cases edit with
      | metric field value => cases field <;> exact .of_eq rfl rfl rfl rfl
      | _ => exact .of_eq rfl rfl rfl rfl
  | _ => exact .of_eq rfl rfl rfl rfl

/-- A construct without a glyph puts nothing of one into the tables. -/
theorem leavesShipped_step (e : Engine σ) {cfg : Settings} {s : State σ} {k : Construct}
    (h : k.glyph? cfg s = none) : LeavesShipped s (State.step e cfg s k).value := by
  cases hk : k.shipment? cfg with
  | some x =>
      have hnone : (s.shipOutcome cfg x).glyph? = none := by
        rwa [Construct.glyph?, hk, Option.bind_some] at h
      obtain ⟨ps, engine, hs⟩ := State.exists_afterNoGlyph e cfg s x
      rw [value_step_of_shipment e s hk, State.afterShipment_of_none hnone, hs]
      exact .of_eq rfl rfl rfl rfl
  | none =>
      rcases step_cases e cfg s k with ⟨-, reasons, hs⟩ | ⟨c, hc, reasons, hs⟩
      · rw [hs]
        exact .of_eq rfl rfl rfl rfl
      · have hship : ∀ x, c ≠ .ship x := by
          intro x hx
          rw [Construct.shipment?_eq, hc, hx] at hk
          cases hk
        rw [hs]
        exact (leavesShipped_perform e cfg hship s).skipped reasons

/-- Every ligature keeps its place, and gets the name of a glyph that it waits
for. -/
theorem ligatures_step (e : Engine σ) (cfg : Settings) (s : State σ) (k : Construct) :
    ∃ made, (State.step e cfg s k).value.tables.ligatures =
      s.tables.ligatures.map (·.settledBy (k.glyphName? cfg s)) ++ made := by
  cases hg : k.glyph? cfg s with
  | some g =>
      obtain ⟨x, hk, -⟩ := Option.bind_eq_some_iff.mp hg
      exact ⟨[], by rw [ligatures_shipment e s hk, List.append_nil]⟩
  | none =>
      obtain ⟨made, -, hmade⟩ := (leavesShipped_step e hg).ligatures
      exact ⟨made, by simp [hmade, Construct.glyphName?, hg]⟩

/-! ## replays -/

/-- Every ligature keeps its place through a replay, and one that waits gets the
name of the first glyph. -/
theorem ligatures_follow (e : Engine σ) (cfg : Settings) (s : State σ) (script : Script) :
    ∃ made, (s.follow e cfg script).value.tables.ligatures =
      s.tables.ligatures.map (·.settledBy (script.firstGlyph? e cfg s)) ++ made := by
  induction script generalizing s with
  | nil => exact ⟨[], by simp [follow_nil, Script.firstGlyph?]⟩
  | cons k script ih =>
      obtain ⟨made, hmade⟩ := ligatures_step e cfg s k
      obtain ⟨made', hmade'⟩ := ih (State.step e cfg s k).value
      let name := Script.firstGlyph? e cfg (State.step e cfg s k).value script
      refine ⟨made.map (·.settledBy name) ++ made', ?_⟩
      rw [follow_cons, hmade', hmade, List.map_append, List.map_map, List.append_assoc]
      congr 1
      refine List.map_congr_left fun l _ => ?_
      exact l.settledBy_settledBy _ _

theorem ligatures_follow_getElem? (e : Engine σ) (cfg : Settings) (s : State σ)
    (script : Script) {i : Nat} {l : LigatureRule} (h : s.tables.ligatures[i]? = some l) :
    (s.follow e cfg script).value.tables.ligatures[i]? =
      some (l.settledBy (script.firstGlyph? e cfg s)) := by
  obtain ⟨made, hmade⟩ := ligatures_follow e cfg s script
  have hlt : i < (s.tables.ligatures.map (·.settledBy (script.firstGlyph? e cfg s))).length := by
    rw [List.length_map]
    exact (List.getElem?_eq_some_iff.mp h).1
  rw [hmade, List.getElem?_append_left hlt, List.getElem?_map, h, Option.map_some]

theorem State.pendingLigatures_eq_nil {s : State σ} :
    s.pendingLigatures = [] ↔ ∀ l ∈ s.tables.ligatures, l.isPending = false := by
  simp [pendingLigatures]

/-- A shipment leaves no ligature waiting if and only if it has a glyph or none
waited.  A ligature that waited at a shipment never gets the name of another
shipment's glyph, if and only if this one has a glyph, or none waited, or no
glyph comes later. -/
theorem pending_ligatures_iff (e : Engine σ) (cfg : Settings) {r : Record}
    (hr : r.op = .shipout) (c : Cursor) (s : State σ) (later : Script) :
    let k := (Script.construct r c).1
    let after := (State.step e cfg s k).value
    let final := (after.follow e cfg later).value
    (after.pendingLigatures = [] ↔ (k.glyph? cfg s).isSome ∨ s.pendingLigatures = []) ∧
    (∀ (i : Nat) (l : LigatureRule), s.tables.ligatures[i]? = some l →
      final.tables.ligatures[i]? =
        some (l.settledBy (k.glyphName? cfg s <|> later.firstGlyph? e cfg after))) ∧
    ((∀ (i : Nat) (l : LigatureRule) (name : String), s.tables.ligatures[i]? = some l →
        l.result = .next → (final.tables.ligatures[i]?).map (·.result) = some (.glyph name) →
        k.glyphName? cfg s = some name) ↔
      (k.glyph? cfg s).isSome ∨ s.pendingLigatures = [] ∨
        later.firstGlyph? e cfg after = none) := by
  intro k after final
  have hk : k.shipment? cfg = some ((Shipment.read r).run c).1 :=
    Construct.shipment?_construct cfg hr c
  have hfinal : ∀ (i : Nat) (l : LigatureRule), s.tables.ligatures[i]? = some l →
      final.tables.ligatures[i]? =
        some (l.settledBy (k.glyphName? cfg s <|> later.firstGlyph? e cfg after)) := by
    intro i l hl
    have hfollow := ligatures_follow_getElem? e cfg s (k :: later) hl
    rwa [follow_cons] at hfollow
  have hown : (k.glyphName? cfg s).isSome = (k.glyph? cfg s).isSome := by
    rw [Construct.glyphName?, Option.isSome_map]
  refine ⟨?_, hfinal, ?_⟩
  · rw [State.pendingLigatures_eq_nil, ligatures_shipment e s hk, Construct.glyphName?]
    cases hg : k.glyph? cfg s with
    | some g => simp [LigatureRule.isPending_settled]
    | none => simp [State.pendingLigatures_eq_nil]
  · rw [← hown, State.pendingLigatures_eq_nil, ← LigatureRule.forall_own_iff]
    constructor
    · intro h l hl hnext name htaken
      obtain ⟨i, hi⟩ := List.mem_iff_getElem?.mp hl
      exact h i l name hi hnext (by rw [hfinal i l hi, Option.map_some, htaken])
    · intro h i l name hi hnext htaken
      rw [hfinal i l hi, Option.map_some, Option.some.injEq] at htaken
      exact h l (List.mem_of_getElem? hi) hnext name htaken

/-- A ligature of two letters whose glyph comes with the next shipment. -/
theorem pending_ligatures_of_letter :
    let r : Record := ⟨"shipout", none, "10>> 65>> 0>> 65>> 70>> 2>> 0>> 0>> 0>> 0>> 0"⟩
    let k := (Script.construct r ⟨[⟨"pic", none, "\"p\""⟩], none⟩).1
    let s : State Unit := { State.initial () {} .unicode with
      pictures := [("p", {})]
      tables := { ligatures := [⟨.next, ⟨false, false, 0⟩, [.text "f", .text "i"], "liga"⟩] } }
    r.op = .shipout ∧ (k.glyph? {} s).isSome ∧ s.pendingLigatures ≠ [] ∧
      (State.step Engine.basic {} s k).value.pendingLigatures = [] := by
  intro r k s
  have hr : r.op = .shipout := by decide +kernel
  have hglyph : (k.glyph? {} s).isSome := by decide +kernel
  obtain ⟨htaken, -⟩ := pending_ligatures_iff Engine.basic {} hr _ s []
  exact ⟨hr, hglyph, by decide, htaken.mpr (.inl hglyph)⟩

/-- A ligature of two letters whose glyph is left out for its code: the next
glyph, which is another one, becomes the ligature in the finished font. -/
theorem ligature_of_filtered_glyph :
    let cfg : Settings :=
      { setMathDefaults := false, ignoreCodePoints := some [⟨121, none⟩],
        extensions := { ligature := true } }
    let box (code : String) : Record :=
      ⟨"shipout", none, "10>> " ++ code ++ ">> 0>> 5>> 7>> 0>> 0>> 0>> 0>> 0>> 0"⟩
    let pic : Record := ⟨"pic", none, "\"p\""⟩
    let before : List Record :=
      [⟨"picture", none, "\"p\""⟩, box "102", pic, box "105", pic,
        ⟨"ligature_components", none, "\"f\">> \"i\""⟩]
    let later : List Record := [box "122", pic]
    let k := (Script.construct (box "121") ⟨pic :: later, none⟩).1
    let s := ((State.initial () cfg .unicode).run Engine.basic cfg before).value
    let after := (State.step Engine.basic cfg s k).value
    let final := (after.run Engine.basic cfg later).value
    let font := (finish Engine.basic cfg final).value.1
    k.glyph? cfg s = none ∧
    s.tables.ligatures = [⟨.next, ⟨false, false, 0⟩, [.text "f", .text "i"], "liga"⟩] ∧
    after.pendingLigatures = s.pendingLigatures ∧
    final.tables.ligatures = [⟨.glyph "z", ⟨false, false, 0⟩, [.text "f", .text "i"], "liga"⟩] ∧
    font.hasGlyph "y" = false ∧
    font.lookups.map (fun l => l.subtables.map (·.rules)) = [[[.ligature ["f", "i"] "z"]]] ∧
    ¬∀ (i : Nat) (l : LigatureRule) (name : String), s.tables.ligatures[i]? = some l →
      l.result = .next → (final.tables.ligatures[i]?).map (·.result) = some (.glyph name) →
      k.glyphName? cfg s = some name := by
  intro cfg box pic before later k s after final font
  have hrun : k.glyph? cfg s = none ∧
      s.tables.ligatures = [⟨.next, ⟨false, false, 0⟩, [.text "f", .text "i"], "liga"⟩] ∧
      after.pendingLigatures = s.pendingLigatures ∧
      final.tables.ligatures = [⟨.glyph "z", ⟨false, false, 0⟩, [.text "f", .text "i"], "liga"⟩] ∧
      font.hasGlyph "y" = false ∧
      font.lookups.map (fun l => l.subtables.map (·.rules)) = [[[.ligature ["f", "i"] "z"]]] := by
    decide +kernel
  obtain ⟨hnone, hgiven, hleft, htaken, hmissing, hlookups⟩ := hrun
  refine ⟨hnone, hgiven, hleft, htaken, hmissing, hlookups, fun h => ?_⟩
  have hown := h 0 _ "z" (by rw [hgiven]; rfl) rfl (by rw [htaken]; rfl)
  rw [Construct.glyphName?, hnone] at hown
  cases hown

end FontTrace
