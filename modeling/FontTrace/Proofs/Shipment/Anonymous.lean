import FontTrace.Proofs.Shipment.Outcome
import FontTrace.Proofs.Trace.Complete

/-!
# FontTrace.Proofs.Shipment.Anonymous

Glyphs that nothing identifies.  A code below zero is none; what is left then is the Unicode
value and the name.  If all glyphs are alternates, any of these is enough.  A plain glyph is
found by them with the code -1 only, and no other code below zero is taken for none.

* `Unidentified` — what has neither a code nor a Unicode value nor a name;
* `identifyShipped_eq_none_iff` — the two tables for the identity, with and without a feature;
* `skip?_shipOutcome` — an existing picture is left out for want of an identity or not at all;
* `anonymous_glyph_iff` — when the shipments that are left out are those of glyphs that
  nothing identifies.
-/

namespace FontTrace

variable {σ : Type}

/-! ## identities -/

/-- There is neither a code nor a Unicode value nor a name. -/
def Unidentified (code : Int) (unicode : Option Nat) (name : Option String) : Prop :=
  code < 0 ∧ unicode = none ∧ name = none

section Identity

variable (f : Font) (code : Int) (unicode : Option Nat) (name : Option String)

/-- The base of an alternate is missing only if nothing identifies it. -/
theorem baseName?_eq_none_iff :
    baseName? f code unicode name = none ↔ Unidentified code unicode name := by
  unfold baseName? Unidentified
  split
  · next hcode => simp; omega
  · next hcode => cases unicode <;> cases name <;> simp <;> omega

/-- A plain glyph is refused also if its code is below zero and not the one for none. -/
theorem identify_eq_none_iff :
    identify f code unicode name = none ↔
      Unidentified code unicode name ∨ code < -1 := by
  unfold identify Unidentified
  split
  · next hcode => simp; omega
  · split
    · next hcode => cases unicode <;> cases name <;> simp <;> omega
    · next hcode => simp; omega

theorem identifyShipped_eq_none_iff (cfg : Settings) :
    identifyShipped cfg f code unicode name = none ↔
      Unidentified code unicode name ∨ cfg.otSubFeature = none ∧ code < -1 := by
  unfold identifyShipped
  cases cfg.otSubFeature with
  | none => simp [identify_eq_none_iff]
  | some feature => simp [baseName?_eq_none_iff]

/-- The identity is missing just where nothing identifies the glyph, but for the plain glyphs
with a code below -1. -/
theorem identifyShipped_none_iff_unidentified_iff (cfg : Settings) :
    (identifyShipped cfg f code unicode name = none ↔ Unidentified code unicode name) ↔
      cfg.otSubFeature.isSome ∨ -1 ≤ code ∨ unicode = none ∧ name = none := by
  rw [identifyShipped_eq_none_iff]
  constructor
  · intro h
    by_cases hfeature : cfg.otSubFeature = none
    · by_cases hcode : code < -1
      · exact .inr (.inr (h.mp (.inr ⟨hfeature, hcode⟩)).2)
      · exact .inr (.inl (Int.not_lt.mp hcode))
    · exact .inl (Option.isSome_iff_ne_none.mpr hfeature)
  · intro h
    refine ⟨?_, .inl⟩
    rintro (hnone | ⟨hfeature, hcode⟩)
    · exact hnone
    · rcases h with h | h | h
      · simp [hfeature] at h
      · omega
      · exact ⟨by omega, h⟩

end Identity

/-! ## shipments -/

/-- The shipment of an existing picture is left out for want of an identity or not at all. -/
theorem skip?_shipOutcome {cfg : Settings} {s : State σ} {sh : Shipment} {p : Picture}
    {code : Int} {unicode : Option Nat} (hp : Pictures.get s.pictures sh.picture = .ok p)
    (hcode : shippedCode sh.box.code s.hexCode s.scratch.unicode = (code, unicode)) :
    (s.shipOutcome cfg (.ok sh)).skip? =
      if identifyShipped cfg s.font code unicode s.scratch.name = none then some .anonymousGlyph
      else none := by
  unfold State.shipOutcome
  dsimp only
  rw [hp, hcode]
  dsimp only
  cases identifyShipped cfg s.font code unicode s.scratch.name with
  | none => rfl
  | some found =>
      dsimp only
      split <;> rfl

/-- A box and the record behind it are a whole shipment. -/
theorem run_shipment {r : Record} {box : CharBox} {c : Cursor} {pic : Record}
    {rest : List Record} (hbox : CharBox.read r = .ok box) (hrest : c.rest = pic :: rest) :
    (Shipment.read r).run c = (.ok ⟨box, Operand.nameOf pic.body⟩, c.past pic rest) := by
  have hoperand : (Reader.operand "shipout" (CharBox.read r)).run c = (.ok box, c) := by
    rw [hbox]
    rfl
  rw [Shipment.read, Reader.run_bind, hoperand]
  dsimp only
  rw [Reader.run_bind, Reader.run_expect "shipout" hrest]
  rfl

/-- A shipment with a whole box and an existing picture is left out as anonymous or not at all.
To be left out is the same as to have nothing that identifies the glyph if and only if all
glyphs are alternates, or the code is not below -1, or there is neither a Unicode value nor a
name. -/
theorem anonymous_glyph_iff (e : Engine σ) (cfg : Settings) (s : State σ) {r : Record}
    {c : Cursor} {pic : Record} {rest : List Record} {box : CharBox} {p : Picture} {code : Int}
    {unicode : Option Nat} (hr : r.op = .shipout) (hbox : CharBox.read r = .ok box)
    (hrest : c.rest = pic :: rest)
    (hp : Pictures.get s.pictures (Operand.nameOf pic.body) = .ok p)
    (hcode : shippedCode box.code s.hexCode s.scratch.unicode = (code, unicode)) :
    let skipped := (State.step e cfg s (Script.construct r c).1).value.skipped
    (skipped = s.skipped ++ [.anonymousGlyph] ∨ skipped = s.skipped) ∧
      ((skipped = s.skipped ++ [.anonymousGlyph] ↔ Unidentified code unicode s.scratch.name) ↔
        cfg.otSubFeature.isSome ∨ -1 ≤ code ∨ unicode = none ∧ s.scratch.name = none) := by
  have hshipment := Construct.shipment?_construct cfg hr c
  rw [run_shipment hbox hrest] at hshipment
  rw [value_step_of_shipment e s hshipment, skip?_shipOutcome hp hcode,
    ← identifyShipped_none_iff_unidentified_iff s.font]
  by_cases hid : identifyShipped cfg s.font code unicode s.scratch.name = none <;> simp [hid]

theorem eq_ok_of_toOption {ε α : Type} {x : Except ε α} {a : α} (h : x.toOption = some a) :
    x = .ok a := by
  cases x with
  | error reason => cases h
  | ok b => exact congrArg Except.ok (Option.some.inj h)

/-- A glyph with a name and the code -1 is shipped out under its name. -/
theorem anonymous_glyph_of_named :
    let cfg : Settings := { setMathDefaults := false, extensions := { glyph := true } }
    let named := Script.ofRecords [⟨"picture", none, "\"p\""⟩, ⟨"glyph_name", none, "\"foo\""⟩]
    let s := ((State.initial () cfg .unicode).follow Engine.basic cfg named).value
    let r : Record := ⟨"shipout", none, "10>> -1>> 0>> 65>> 70>> 2>> 0>> 0>> 0>> 0>> 0"⟩
    let pic : Record := ⟨"pic", none, "\"p\""⟩
    let shipped := (State.step Engine.basic cfg s (Script.construct r ⟨[pic], none⟩).1).value
    (CharBox.read r).toOption = some ⟨-1, 650, 700, 20, 0, 0, 0⟩ ∧
    (Pictures.get s.pictures (Operand.nameOf pic.body)).toOption.isSome ∧
    shippedCode (-1) s.hexCode s.scratch.unicode = (-1, none) ∧ s.scratch.name = some "foo" ∧
    (shipped.skipped = s.skipped ++ [.anonymousGlyph] ↔
      Unidentified (-1) none s.scratch.name) ∧
    shipped.skipped = [] ∧ shipped.font.hasGlyph "foo" = true := by
  intro cfg named s r pic shipped
  have hbox : (CharBox.read r).toOption = some ⟨-1, 650, 700, 20, 0, 0, 0⟩ := by decide +kernel
  have hpicture : (Pictures.get s.pictures (Operand.nameOf pic.body)).toOption.isSome := by
    decide +kernel
  have hcode : shippedCode (-1) s.hexCode s.scratch.unicode = (-1, none) := by decide +kernel
  have hname : s.scratch.name = some "foo" := by decide +kernel
  have hshipped : shipped.skipped = [] ∧ shipped.font.hasGlyph "foo" = true := by decide +kernel
  obtain ⟨p, hp⟩ := Option.isSome_iff_exists.mp hpicture
  obtain ⟨-, hiff⟩ := anonymous_glyph_iff Engine.basic cfg s (c := ⟨[pic], none⟩) (r := r) rfl
    (eq_ok_of_toOption hbox) rfl (eq_ok_of_toOption hp) hcode
  exact ⟨hbox, hpicture, hcode, hname, hiff.mpr (.inr (.inl (Int.le_refl _))), hshipped⟩

/-- A glyph with a name and the code -2 is left out as if it had none. -/
theorem named_glyph_left_out :
    let cfg : Settings := { setMathDefaults := false, extensions := { glyph := true } }
    let named := Script.ofRecords [⟨"picture", none, "\"p\""⟩, ⟨"glyph_name", none, "\"foo\""⟩]
    let s := ((State.initial () cfg .unicode).follow Engine.basic cfg named).value
    let r : Record := ⟨"shipout", none, "10>> -2>> 0>> 65>> 70>> 2>> 0>> 0>> 0>> 0>> 0"⟩
    let pic : Record := ⟨"pic", none, "\"p\""⟩
    let shipped := (State.step Engine.basic cfg s (Script.construct r ⟨[pic], none⟩).1).value
    (CharBox.read r).toOption = some ⟨-2, 650, 700, 20, 0, 0, 0⟩ ∧
    (Pictures.get s.pictures (Operand.nameOf pic.body)).toOption.isSome ∧
    shippedCode (-2) s.hexCode s.scratch.unicode = (-2, none) ∧ s.scratch.name = some "foo" ∧
    shipped.skipped = s.skipped ++ [.anonymousGlyph] ∧
    ¬Unidentified (-2) none s.scratch.name := by
  intro cfg named s r pic shipped
  have hname : s.scratch.name = some "foo" := by decide +kernel
  refine ⟨by decide +kernel, by decide +kernel, by decide +kernel, hname, by decide +kernel, ?_⟩
  rintro ⟨-, -, hnone⟩
  rw [hname] at hnone
  cases hnone

end FontTrace
