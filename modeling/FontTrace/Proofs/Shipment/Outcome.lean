import FontTrace.Proofs.Replay.Step

/-!
# FontTrace.Proofs.Shipment.Outcome

How shipments end.  Only one of the five ways ends with a glyph; after the
others the state is the one before, without what was collected for the glyph
and with the picture cleaned up, if it was found.

* `ShipOutcome` — the ways, and `State.shipOutcome`, which tells the one that is taken;
* `exists_afterGlyph`, `exists_afterNoGlyph` — the state after a shipment;
* `value_step_of_shipment` — a shipment as a construct of a trace.
-/

namespace FontTrace

variable {σ : Type}

/-! ## the ways in which a shipment ends -/

/-- A glyph that is shipped out: its box and picture, its identity, and what it
replaces if all glyphs are alternates. -/
structure ShippedGlyph where
  shipment : Shipment
  id : GlyphIdentity
  alternate : Option Replacement
deriving DecidableEq, Repr

/-- The ways in which a shipment ends. -/
inductive ShipOutcome where
  /-- The box is malformed, or the record of the picture is missing. -/
  | broken (reason : Skip)
  | unknownPicture (reason : Skip)
  /-- There is neither a code nor a Unicode value nor a name. -/
  | anonymous
  /-- The code is one of those that are left out. -/
  | filtered
  | committed (g : ShippedGlyph)
deriving DecidableEq, Repr

/-- The glyph that is committed. -/
def ShipOutcome.glyph? : ShipOutcome → Option ShippedGlyph
  | .committed g => some g
  | _ => none

/-- Why the shipment is left out; one whose code is left out is no fault. -/
def ShipOutcome.skip? : ShipOutcome → Option Skip
  | .broken reason | .unknownPicture reason => some reason
  | .anonymous => some .anonymousGlyph
  | .filtered | .committed _ => none

namespace State

/-- The way in which a shipment ends. -/
def shipOutcome (cfg : Settings) (s : State σ) : Except Skip Shipment → ShipOutcome
  | .error reason => .broken reason
  | .ok sh =>
    match Pictures.get s.pictures sh.picture with
    | .error reason => .unknownPicture reason
    | .ok _ =>
      let (code, unicode) := shippedCode sh.box.code s.hexCode s.scratch.unicode
      match identifyShipped cfg s.font code unicode s.scratch.name with
      | none => .anonymous
      | some (id, alternate) =>
        if 0 ≤ code && cfg.skipsCode code then .filtered else .committed ⟨sh, id, alternate⟩

theorem eq_of_glyph? {cfg : Settings} {s : State σ} {x : Except Skip Shipment} {g : ShippedGlyph}
    (h : (s.shipOutcome cfg x).glyph? = some g) : x = .ok g.shipment := by
  cases x with
  | error reason => cases h
  | ok sh =>
      unfold shipOutcome at h
      dsimp only at h
      split at h
      · cases h
      · split at h
        · cases h
        · split at h
          · cases h
          · cases h
            rfl

/-! ## the state after a shipment -/

/-- The outline of a picture cleaned up, and the state with the picture so. -/
def tidy (e : Engine σ) (cfg : Settings) (name : String) (s : State σ) : Outline × State σ :=
  match Pictures.get s.pictures name with
  | .error _ => ([], s)
  | .ok p =>
    let (o, engine) := (tidied e cfg p.outline s.engine).value
    (o, { s with
      pictures := Table.put s.pictures name { p with outline := o }
      engine := engine })

/-- The state after a shipment without a glyph. -/
def afterNoGlyph (e : Engine σ) (cfg : Settings) (s : State σ) : Except Skip Shipment → State σ
  | .error _ => s.cleared
  | .ok sh => (s.cleared.tidy e cfg sh.picture).2

/-- The state after a shipment with a glyph. -/
def afterGlyph (e : Engine σ) (cfg : Settings) (s : State σ) (g : ShippedGlyph) : State σ :=
  let (o, s') := s.cleared.tidy e cfg g.shipment.picture
  (commit e cfg g.id g.alternate g.shipment.box s.scratch o s').value

/-- The state after a shipment. -/
def afterShipment (e : Engine σ) (cfg : Settings) (s : State σ) (x : Except Skip Shipment) :
    State σ :=
  match (s.shipOutcome cfg x).glyph? with
  | some g => s.afterGlyph e cfg g
  | none => s.afterNoGlyph e cfg x

theorem afterShipment_of_some {e : Engine σ} {cfg : Settings} {s : State σ}
    {x : Except Skip Shipment} {g : ShippedGlyph} (h : (s.shipOutcome cfg x).glyph? = some g) :
    s.afterShipment e cfg x = s.afterGlyph e cfg g := by
  rw [afterShipment, h]

theorem afterShipment_of_none {e : Engine σ} {cfg : Settings} {s : State σ}
    {x : Except Skip Shipment} (h : (s.shipOutcome cfg x).glyph? = none) :
    s.afterShipment e cfg x = s.afterNoGlyph e cfg x := by
  rw [afterShipment, h]

theorem tidy_of_get (e : Engine σ) (cfg : Settings) {s : State σ} {name : String} {p : Picture}
    (h : Pictures.get s.pictures name = .ok p) :
    s.tidy e cfg name =
      ((tidied e cfg p.outline s.engine).value.1,
        { s with
          pictures := Table.put s.pictures name
            { p with outline := (tidied e cfg p.outline s.engine).value.1 }
          engine := (tidied e cfg p.outline s.engine).value.2 }) := by
  rw [tidy, h]

theorem exists_tidy (e : Engine σ) (cfg : Settings) (name : String) (s : State σ) :
    ∃ ps engine, (s.tidy e cfg name).2 = { s with pictures := ps, engine := engine } := by
  unfold tidy
  split
  · exact ⟨s.pictures, s.engine, rfl⟩
  · exact ⟨_, _, rfl⟩

/-- The glyph that a shipment makes of an outline and the values for it. -/
def glyphOf (cfg : Settings) (s : State σ) (g : ShippedGlyph) (o : Outline) : Glyph :=
  let box := g.shipment.box
  { glyphFor cfg g.id box s.scratch o with
    hints := (hintsFor g.id.name s.scratch.hints).value
    mathKerning :=
      (mathKernsFor g.id.name (box.width + correctionFor cfg box) s.scratch.mathKerns).value }

/-- The tables after a shipment with a glyph. -/
def tablesAfter (cfg : Settings) (s : State σ) (g : ShippedGlyph) : Tables :=
  s.tables.afterGlyph g.id.name g.alternate
    (referencesFor cfg s.font g.id.name s.scratch.references).value s.scratch

/-- The font after a shipment with a glyph. -/
def fontAfter (cfg : Settings) (s : State σ) (glyph : Glyph) : Font :=
  Font.putGlyph { s.font with info := s.font.info.extendedBy cfg s.explicit glyph } glyph

/-- All that a shipment with a glyph does. -/
theorem exists_afterGlyph (e : Engine σ) (cfg : Settings) (s : State σ) (g : ShippedGlyph) :
    ∃ ps engine o, s.afterGlyph e cfg g =
      { s.cleared with
        pictures := ps
        engine := engine
        tables := s.tablesAfter cfg g
        explicit := s.explicit.afterGlyph g.id.name s.scratch
        font := s.fontAfter cfg (s.glyphOf cfg g o) } := by
  unfold afterGlyph
  obtain ⟨ps, engine, hs⟩ := exists_tidy e cfg g.shipment.picture s.cleared
  rcases htidy : s.cleared.tidy e cfg g.shipment.picture with ⟨o, s'⟩
  rw [htidy] at hs
  cases hs
  exact ⟨_, _, _, rfl⟩

/-- All that a shipment without a glyph does. -/
theorem exists_afterNoGlyph (e : Engine σ) (cfg : Settings) (s : State σ)
    (x : Except Skip Shipment) :
    ∃ ps engine, s.afterNoGlyph e cfg x =
      { s.cleared with pictures := ps, engine := engine } := by
  cases x with
  | error reason => exact ⟨s.pictures, s.engine, rfl⟩
  | ok sh => exact exists_tidy e cfg sh.picture s.cleared

end State

/-- What a shipment does, and the reason why it is left out. -/
theorem value_ship (e : Engine σ) (cfg : Settings) (x : Except Skip Shipment) (s : State σ) :
    (ship e cfg x s).value = (s.afterShipment e cfg x, (s.shipOutcome cfg x).skip?) := by
  cases x with
  | error reason => rfl
  | ok sh =>
      unfold ship shipPicture State.afterShipment State.shipOutcome
      dsimp only [State.cleared]
      cases hp : Pictures.get s.pictures sh.picture with
      | error reason =>
          show _ = (s.afterNoGlyph e cfg (.ok sh), _)
          simp only [State.afterNoGlyph, State.tidy, State.cleared, hp]
          rfl
      | ok p =>
          have htidy := State.tidy_of_get e cfg (s := s.cleared) hp
          rw [Noted.value_bind]
          dsimp only
          rcases shippedCode sh.box.code s.hexCode s.scratch.unicode with ⟨code, unicode⟩
          cases hid : identifyShipped cfg s.font code unicode s.scratch.name with
          | none =>
              show _ = (s.afterNoGlyph e cfg (.ok sh), _)
              rw [State.afterNoGlyph, htidy]
              rfl
          | some found =>
              dsimp only
              split
              · show _ = (s.afterNoGlyph e cfg (.ok sh), _)
                rw [State.afterNoGlyph, htidy]
                rfl
              · show _ = (s.afterGlyph e cfg ⟨sh, found.1, found.2⟩, _)
                rw [State.afterGlyph, htidy]
                rfl

/-! ## shipments in a trace -/

/-- The shipment of a construct, whole or broken. -/
def Construct.shipment? (cfg : Settings) (k : Construct) : Option (Except Skip Shipment) :=
  match k.isDisabled cfg, k.command with
  | false, .ok (.ship x) => some x
  | _, _ => none

/-- The glyph that a construct ships out. -/
def Construct.glyph? (cfg : Settings) (s : State σ) (k : Construct) : Option ShippedGlyph :=
  (k.shipment? cfg).bind fun x => (s.shipOutcome cfg x).glyph?

/-- Every record of a shipment is one, whatever follows it. -/
theorem Construct.shipment?_construct (cfg : Settings) {r : Record} (hr : r.op = .shipout)
    (c : Cursor) :
    (Script.construct r c).1.shipment? cfg = some ((Shipment.read r).run c).1 := by
  have hon := Script.isDisabled_construct cfg (r := r) (by rw [hr]; rfl) c
  have hcommand : (Script.construct r c).1.command = .ok (.ship ((Shipment.read r).run c).1) := by
    show ((Command.read r).run c).1 = _
    unfold Command.read
    rw [hr]
    dsimp only
    rw [Command.of, Reader.run_map]
    rfl
  rw [shipment?, hon, hcommand]

/-- A shipment as a construct of a trace. -/
theorem value_step_of_shipment (e : Engine σ) {cfg : Settings} (s : State σ) {k : Construct}
    {x : Except Skip Shipment} (h : k.shipment? cfg = some x) :
    (State.step e cfg s k).value =
      { s.afterShipment e cfg x with
        skipped := s.skipped ++ (s.shipOutcome cfg x).skip?.toList } := by
  unfold Construct.shipment? at h
  split at h
  · next hx hk =>
    cases h
    have hperform : (k.perform e cfg s).value =
        (s.afterShipment e cfg x, (s.shipOutcome cfg x).skip?) := by
      rw [Construct.perform, hx, hk]
      exact value_ship e cfg x s
    rw [value_step, hperform]
  · cases h

/-- A construct that ships a glyph out. -/
theorem exists_step_of_glyph (e : Engine σ) {cfg : Settings} {s : State σ} {k : Construct}
    {g : ShippedGlyph} (h : k.glyph? cfg s = some g) :
    ∃ reasons, (State.step e cfg s k).value =
      { s.afterGlyph e cfg g with skipped := reasons } := by
  obtain ⟨x, hx, hg⟩ := Option.bind_eq_some_iff.mp h
  rw [value_step_of_shipment e s hx, State.afterShipment_of_some hg]
  exact ⟨_, rfl⟩

end FontTrace
