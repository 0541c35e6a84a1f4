import FontTrace.Proofs.Font.Roster

/-!
# FontTrace.Proofs.Font.Designation

What an operand stands for before there is a font: a name, a code, or a glyph
that may or may not be there.  Only a font tells which name that is, and a font with
more glyphs may tell another one.

* `operandName_eq` — a font names an operand by what it stands for;
* `Designation.Settled` — no glyph that came later has changed the name;
* `Designation.settled_iff` — that is so if and only if the names are the same.
-/

namespace FontTrace

/-- What an operand stands for. -/
inductive Designation where
  | fixed (name : String)
  /-- The glyph at a code, or else the name that the encoding has for it. -/
  | slot (code : Int)
  /-- The glyph of a name, if there is one. -/
  | named (name : String) (otherwise : Designation)
deriving DecidableEq, Repr

namespace Designation

/-- The name in a font. -/
def name (f : Font) : Designation → String
  | fixed name => name
  | slot code => f.nameAt code
  | named name otherwise => if f.hasGlyph name then name else otherwise.name f

/-- The first character of a string, as a code. -/
def ofFirst (text : String) : Designation :=
  match text.toList with
  | [] => fixed Font.noName
  | c :: _ => slot c.toNat

/-- What an operand stands for.  Only if `generalized` is set, a string is more
than its first character. -/
def ofOperand (generalized : Bool) : CharRef → Designation
  | .code n => slot n
  | .text s =>
    if generalized then
      match Font.unicodeOperand? s.toList with
      | some u => fixed (GlyphName.ofUnicode u)
      | none =>
        match Font.hexOperand? s.toList with
        | some code => slot code
        | none =>
          named s (match GlyphName.unicode? s with
            | some u => slot u
            | none => ofFirst s)
    else ((CharRef.text s).code?.map slot).getD (fixed Font.noName)

end Designation

theorem operandName_eq (cfg : Settings) (f : Font) (operand : CharRef) :
    f.operandName cfg operand = (Designation.ofOperand cfg.generalizedCode operand).name f := by
  cases operand with
  | code n => rfl
  | text s =>
      unfold Font.operandName Font.resolve Designation.ofOperand
      cases cfg.generalizedCode with
      | false => cases hcode : (CharRef.text s).code? <;> simp [hcode, Designation.name]
      | true =>
          cases hunicode : Font.unicodeOperand? s.toList with
          | some u => simp [hunicode, Designation.name]
          | none =>
              cases hhex : Font.hexOperand? s.toList with
              | some code => simp [hunicode, hhex, Designation.name]
              | none =>
                  by_cases hglyph : f.hasGlyph s = true
                  · simp [hunicode, hhex, hglyph, Designation.name]
                  · cases hname : GlyphName.unicode? s with
                    | some u => simp [hunicode, hhex, hglyph, hname, Designation.name]
                    | none =>
                        simp only [hunicode, hhex, hname, Designation.ofFirst]
                        rcases s.toList with _ | ⟨c, _ | ⟨d, rest⟩⟩ <;>
                          simp [hglyph, Designation.name]

/-! ## fonts with more glyphs -/

namespace Designation

/-- No glyph that is only in the second font changes what the operand is called. -/
def Settled (f f' : Font) : Designation → Prop
  | fixed _ => True
  | slot code => f'.nameAt code = f.nameAt code
  | named name otherwise =>
    f.hasGlyph name = true ∨
      if f'.hasGlyph name then otherwise.name f = name else otherwise.Settled f f'

theorem settled_iff {f f' : Font} (hgrows : ∀ name, f.hasGlyph name = true → f'.hasGlyph name = true)
    (d : Designation) : d.Settled f f' ↔ d.name f' = d.name f := by
  induction d with
  | fixed name => exact iff_of_true trivial rfl
  | slot code => exact Iff.rfl
  | named name otherwise ih =>
      rw [Settled, Designation.name, Designation.name]
      by_cases hold : f.hasGlyph name = true
      · simp [hold, hgrows name hold]
      · by_cases hnew : f'.hasGlyph name = true
        · have hsame : otherwise.name f = name ↔ name = otherwise.name f := eq_comm
          simpa [hold, hnew] using hsame
        · simpa [hold, hnew] using ih

/-- A code is settled as long as all glyphs at it are called as the encoding has it. -/
theorem settled_slot {f f' : Font} {code : Int} (hencoding : f'.encoding = f.encoding)
    (h : ∀ g ∈ f.glyphs, g.code = some code → g.name = (f.encoding.slot code).name)
    (h' : ∀ g ∈ f'.glyphs, g.code = some code → g.name = (f.encoding.slot code).name) :
    (slot code).Settled f f' := by
  have hname : ∀ {f : Font} {name : String}, (f.encoding.slot code).name = name →
      (∀ g ∈ f.glyphs, g.code = some code → g.name = name) → f.nameAt code = name := by
    intro f name hslot hglyphs
    unfold Font.nameAt Font.glyphAt?
    cases hfind : f.glyphs.find? fun g => g.code == some code with
    | none => exact hslot
    | some g =>
        have hcode : g.code = some code := by simpa using List.find?_some hfind
        exact hglyphs g (List.mem_of_find?_eq_some hfind) hcode
  exact (hname (by rw [hencoding]) h').trans (hname rfl h).symm

end Designation

end FontTrace
