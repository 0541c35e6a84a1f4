import FontTrace.Engine.Recording
import FontTrace.Proofs.Picture.Culling
import FontTrace.Proofs.Replay.Step

/-!
# FontTrace.Proofs.Picture.KeepingZero

A cull that keeps the winding number zero alone.  It is refused, unless the picture is
empty: then zero bounds the winding numbers of the picture, and the range passes for one
that drops all the positive ones.

* `CullRange.cull_keepingZero_of_ne_nil`, `CullRange.drops_keepingZero_nil` — what decides is
  whether there is a contour;
* `run_culling` — the records that ask for such a cull;
* `cull_keepingZero_refused_iff` — both together, for a construct of a trace.
-/

namespace FontTrace

variable {σ : Type}

/-! ## the range -/

namespace CullRange

/-- The range of the winding number zero alone, kept. -/
def keepingZero : CullRange := ⟨.keeping, 0, 0⟩

theorem cull_keepingZero_of_ne_nil (e : Engine σ) (cfg : Settings) (weight : Int) {o : Outline}
    (h : o ≠ []) : keepingZero.cull e cfg weight o = .error .cullKeepingZero := by
  have hpositive : keepingZero.dropsPositive o.length = false := by
    simpa [keepingZero, dropsPositive] using h
  have hnegative : keepingZero.dropsNegative o.length = false := by
    simp [keepingZero, dropsNegative]
  rw [cull, hpositive, hnegative]
  rfl

/-- Of no contours there are no winding numbers but zero, so the range reaches below all
of them. -/
theorem drops_keepingZero_nil :
    keepingZero.dropsPositive 0 = true ∧ keepingZero.dropsNegative 0 = false :=
  drops_below .keeping (Int.le_refl 0) (Int.le_refl (-0))

end CullRange

/-! ## the construct -/

/-- A record that names the range: each of its two numbers is zero up to what is behind the
point. -/
structure KeepsZero (range : Record) : Prop where
  op : range.op = .keeping
  truncated : ∃ p, Operand.pair range.body = .ok p ∧ truncUnits p.x = 0 ∧ truncUnits p.y = 0

/-- The records of such a cull, with any number of weights behind the range. -/
theorem run_culling {head range : Record} {rest : List Record} {line : Option Nat} {weight : Int}
    (h : KeepsZero range)
    (hweight : (PictureCommand.weight.run ⟨rest, range.line <|> line⟩).1 = .ok weight) :
    ((PictureCommand.culling head).run ⟨range :: rest, line⟩).1 =
      .ok (.cull (pictureName head.body) .keepingZero weight) := by
  obtain ⟨p, hpair, hx, hy⟩ := h.truncated
  have hexpect : (Reader.expect "cull").run ⟨range :: rest, line⟩ =
      (.ok range, ⟨rest, range.line <|> line⟩) := rfl
  have hmode : PictureCommand.cullMode range = .ok .keeping := by
    rw [PictureCommand.cullMode, h.op]
  have hoperand : orMalformed range.name (Operand.pair range.body) = .ok p := by
    rw [hpair, orMalformed]
  rw [PictureCommand.culling, Reader.run_bind, hexpect]
  dsimp only
  rw [hmode, Reader.operand, hoperand]
  show ((PictureCommand.weight >>= fun w => pure (PictureCommand.cull (pictureName head.body)
    ⟨.keeping, truncUnits p.x, truncUnits p.y⟩ w)).run ⟨rest, range.line <|> line⟩).1 = _
  rw [hx, hy, Reader.run_bind]
  rcases hrun : PictureCommand.weight.run ⟨rest, range.line <|> line⟩ with ⟨w | w, c⟩
  · rw [hrun] at hweight
    cases hweight
  · rw [hrun] at hweight
    obtain rfl := Except.ok.inj hweight
    rfl

/-- A range that cannot be done leaves everything as it was, the engine included. -/
theorem value_perform_of_cull_error {e : Engine σ} {cfg : Settings} {s : State σ} {name : String}
    {p : Picture} (hp : Pictures.get s.pictures name = .ok p) {range : CullRange} {weight : Int}
    {reason : Skip} (hcull : range.cull e cfg weight p.outline = .error reason) :
    (perform e cfg (.picture (.cull name range weight)) s).value = (s, some reason) := by
  show (performPicture e cfg (.cull name range weight) s).value = _
  simp only [performPicture, atomically, PictureCommand.perform, redraw, hp, hcull,
    PictureCommand.reservation?]
  rfl

theorem perform_construct_cull (e : Engine σ) (cfg : Settings) (s : State σ) {head : Record}
    {c : Cursor} {command : PictureCommand} (hop : head.op = .cull)
    (hread : ((PictureCommand.culling head).run c).1 = .ok command) :
    (Script.construct head c).1.perform e cfg s = perform e cfg (.picture command) s := by
  have hcommand : ((Command.read head).run c).1 = .ok (.picture command) := by
    rw [Command.read, hop]
    exact Command.run_of_ok .picture hread
  exact Script.perform_construct e cfg s (by rw [hop]; rfl) hcommand

/-- Every picture, every way to write the range, and any number of weights.  A picture with
a contour refuses the cull, which then does nothing and asks the engine for nothing; an empty
one has its overlaps removed and its directions corrected. -/
theorem cull_keepingZero_refused_iff (e : Engine σ) (cfg : Settings) {s : State σ}
    {head range : Record} {rest : List Record} {line : Option Nat} {p : Picture} {weight : Int}
    (hhead : head.op = .cull) (hp : Pictures.get s.pictures (pictureName head.body) = .ok p)
    (hrange : KeepsZero range)
    (hweight : (PictureCommand.weight.run ⟨rest, range.line <|> line⟩).1 = .ok weight) :
    let k := (Script.construct head ⟨range :: rest, line⟩).1
    ((k.perform e cfg s).value = (s, some .cullKeepingZero) ↔ p.outline ≠ []) ∧
    ((State.step e cfg s k).value = { s with skipped := s.skipped ++ [.cullKeepingZero] } ↔
      p.outline ≠ []) ∧
    (p.outline = [] →
      let clean := cleaned e cfg [] s.engine
      let fixed := corrected e cfg clean.1 clean.2
      (k.perform e cfg s).value = ({ s with
        pictures := Table.put s.pictures (pictureName head.body)
          { p with outline := clean.1.turned fixed.1 }
        engine := fixed.2 }, none)) := by
  intro k
  have hperform : k.perform e cfg s =
      perform e cfg (.picture (.cull (pictureName head.body) .keepingZero weight)) s :=
    perform_construct_cull e cfg s hhead (run_culling hrange hweight)
  by_cases hempty : p.outline = []
  · let clean := cleaned e cfg [] s.engine
    let fixed := corrected e cfg clean.1 clean.2
    have hdone : (k.perform e cfg s).value = ({ s with
        pictures := Table.put s.pictures (pictureName head.body)
          { p with outline := clean.1.turned fixed.1 }
        engine := fixed.2 }, none) := by
      have hdrops := CullRange.drops_keepingZero_nil
      have hpositive : CullRange.keepingZero.dropsPositive p.outline.length = true := by
        rw [hempty]
        exact hdrops.1
      have hnegative : CullRange.keepingZero.dropsNegative p.outline.length = !true := by
        rw [hempty]
        exact hdrops.2
      have hculls : Culls e cfg s _ p _ weight _ _ :=
        culls_of_drops hp true hpositive hnegative weight
      rw [hempty] at hculls
      rw [hperform]
      exact hculls.done
    refine ⟨⟨fun h => ?_, fun h => absurd hempty h⟩, ⟨fun h => ?_, fun h => absurd hempty h⟩,
      fun _ => hdone⟩
    · rw [hdone] at h
      cases congrArg Prod.snd h
    · rw [value_step, hdone] at h
      simpa using congrArg State.skipped h
  · have hrefused : (k.perform e cfg s).value = (s, some .cullKeepingZero) := by
      rw [hperform]
      exact value_perform_of_cull_error hp (CullRange.cull_keepingZero_of_ne_nil e cfg weight hempty)
    refine ⟨iff_of_true hrefused hempty, iff_of_true ?_ hempty, fun h => absurd h hempty⟩
    rw [value_step, hrefused]
    rfl

/-- A square refuses a cull whose two numbers are fractions, with two weights behind them. -/
theorem cull_keepingZero_of_square :
    let p : Picture := { outline := [.rectangle ⟨0, 0, 10, 10⟩] }
    let s := (State.initial ({} : CallLog) {} .unicode).withPictures [("p", p)]
    let k := (Script.construct ⟨"cull", none, "\"p\""⟩ ⟨[⟨"keeping", none, "(0.5,-0.75)"⟩,
      ⟨"withweight", none, "3"⟩, ⟨"withweight", none, "-2"⟩], some 7⟩).1
    (k.perform Engine.recording {} s).value = (s, some .cullKeepingZero) := by
  intro p s k
  have hrange : KeepsZero ⟨"keeping", none, "(0.5,-0.75)"⟩ :=
    ⟨by decide, ⟨0.5, -0.75⟩, by rfl, by decide +kernel, by decide +kernel⟩
  have hweight : (PictureCommand.weight.run ⟨[⟨"withweight", none, "3"⟩,
      ⟨"withweight", none, "-2"⟩], some 7⟩).1 = .ok (-2) := by rfl
  exact (cull_keepingZero_refused_iff Engine.recording {} (by decide) (p := p) rfl
    hrange hweight).1.mpr (by simp [p])

/-- An empty picture does not refuse it, and the engine is asked twice. -/
theorem cull_keepingZero_of_empty :
    let s := (State.initial ({} : CallLog) {} .unicode).withPictures [("p", {})]
    let k := (Script.construct ⟨"cull", none, "\"p\""⟩ ⟨[⟨"keeping", none, "(0,0)"⟩], none⟩).1
    Pictures.get s.pictures "p" = .ok {} ∧
    (k.perform Engine.recording {} s).value.2 = none ∧
    (k.perform Engine.recording {} s).value.1.engine.calls = [.removeOverlap, .correctDirection] :=
  ⟨rfl, by decide +kernel, by decide +kernel⟩

end FontTrace
