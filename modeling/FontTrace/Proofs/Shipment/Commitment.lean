import FontTrace.Proofs.Font.Lookup
import FontTrace.Proofs.Shipment.Attachment
import FontTrace.Proofs.Shipment.PendingLigature
import Mathlib.Data.List.Basic

/-!
# FontTrace.Proofs.Shipment.Commitment

What a committed glyph puts beside itself.  The glyph takes the place of the
glyph of its name, but its references and replacements, the ligatures that it
makes and the note that its accent was given go into tables that only grow.

* `Commitment` — what one glyph puts there; `Script.commitments`, all that a script does;
* `Puts` — two states with nothing but some commitments between them;
* `puts_step`, `puts_follow` — a construct puts what its glyph does, and a replay puts what
  all of its glyphs do.
-/

namespace FontTrace

variable {σ : Type}

/-! ## commitments -/

/-- What a glyph puts into the tables when it is committed. -/
structure Commitment where
  name : String
  references : List Reference
  replacements : List Replacement
  /-- The ligatures that waited, with the name of the glyph. -/
  ligatures : List LigatureRule
  /-- Whether the position of the accent was given. -/
  givesAccent : Bool
deriving DecidableEq, Repr

/-- A reference that waits for the end. -/
def Reference.pendingFor (glyph : String) (r : Reference) : PendingReference :=
  ⟨glyph, r.glyph, r.transform⟩

/-- The references as they wait for the end. -/
def Commitment.pending (c : Commitment) : List PendingReference :=
  c.references.map (·.pendingFor c.name)

/-- A reference of the next glyph, unless it is broken. -/
def reference? (cfg : Settings) (f : Font) (r : String × Except OperandError (Transform Float)) :
    Option Reference :=
  r.2.toOption.map fun m => ⟨(f.resolve cfg.generalizedCode (.text r.1)).value, m⟩

/-- What a shipped glyph puts into the tables. -/
def State.commitment (cfg : Settings) (s : State σ) (g : ShippedGlyph) : Commitment where
  name := g.id.name
  references := s.scratch.references.filterMap (reference? cfg s.font)
  replacements := g.alternate.toList ++ s.scratch.replacements.map (·.resolved g.id.name)
  ligatures := s.pendingLigatures.map (·.settled g.id.name)
  givesAccent := s.scratch.topAccent.isSome

theorem State.pending_commitment (cfg : Settings) (s : State σ) (g : ShippedGlyph) :
    (s.commitment cfg g).pending =
      s.scratch.references.filterMap (pendingReference? cfg s.font g.id.name) := by
  show (s.scratch.references.filterMap (reference? cfg s.font)).map (·.pendingFor g.id.name) = _
  rw [List.map_filterMap]
  refine List.filterMap_congr fun r _ => ?_
  rw [reference?, pendingReference?, Option.map_map]
  rfl

/-- What the glyph of a construct puts into the tables. -/
def Construct.commitment? (cfg : Settings) (s : State σ) (k : Construct) : Option Commitment :=
  (k.glyph? cfg s).map (s.commitment cfg)

/-- What the glyphs of a script put into the tables, in order. -/
def Script.commitments (e : Engine σ) (cfg : Settings) (s : State σ) : Script → List Commitment
  | [] => []
  | k :: script =>
    (k.commitment? cfg s).toList ++ commitments e cfg (State.step e cfg s k).value script

/-! ## states with commitments between them -/

/-- The ligatures that have the name of a shipped glyph. -/
def State.settledLigatures (s : State σ) : List LigatureRule :=
  s.tables.ligatures.filter (·.isSettled)

/-- Nothing but the given commitments has changed the tables for glyphs. -/
structure Puts (cs : List Commitment) (s s' : State σ) : Prop where
  references : s'.tables.references = s.tables.references ++ cs.flatMap (·.pending)
  replacements : s'.tables.replacements = s.tables.replacements ++ cs.flatMap (·.replacements)
  ligatures : ∀ l, l ∈ s'.settledLigatures ↔ l ∈ s.settledLigatures ∨ ∃ c ∈ cs, l ∈ c.ligatures
  accents : ∀ name, name ∈ s'.explicit.topAccents ↔
    name ∈ s.explicit.topAccents ∨ ∃ c ∈ cs, c.name = name ∧ c.givesAccent = true

theorem Puts.trans {cs cs' : List Commitment} {s s' s'' : State σ} (h : Puts cs s s')
    (h' : Puts cs' s' s'') : Puts (cs ++ cs') s s'' where
  references := by
    rw [h'.references, h.references, List.flatMap_append, List.append_assoc]
  replacements := by
    rw [h'.replacements, h.replacements, List.flatMap_append, List.append_assoc]
  ligatures l := by
    simp only [h'.ligatures l, h.ligatures l, or_assoc, List.mem_append, or_and_right, exists_or]
  accents name := by
    simp only [h'.accents name, h.accents name, or_assoc, List.mem_append, or_and_right, exists_or]

theorem puts_nil {s s' : State σ} (h : LeavesShipped s s') : Puts [] s s' where
  references := by rw [h.references, List.flatMap_nil, List.append_nil]
  replacements := by rw [h.replacements, List.flatMap_nil, List.append_nil]
  ligatures l := by
    obtain ⟨made, hnew, hmade⟩ := h.ligatures
    have hnone : made.filter (·.isSettled) = [] := List.filter_eq_nil_iff.mpr (by simpa using hnew)
    simp [State.settledLigatures, hmade, hnone]
  accents name := by simp [h.topAccents]

/-! ## one construct -/

namespace LigatureRule

theorem isSettled_settled_of_isPending {l : LigatureRule} (h : l.isPending = true)
    (name : String) : (l.settled name).isSettled = true := by
  rw [settled, if_pos (isPending_iff.mp h)]
  rfl

theorem isPending_of_isSettled {l : LigatureRule} (h : l.isSettled = true) :
    l.isPending = false := by
  cases hresult : l.result <;> simp [isSettled, isPending, hresult] at h ⊢

/-- Behind a glyph the ligatures that waited have its name, like those with the
name of another glyph before. -/
theorem mem_settled_iff {ls : List LigatureRule} {l : LigatureRule} (name : String) :
    l ∈ (ls.map (·.settled name)).filter (·.isSettled) ↔
      l ∈ ls.filter (·.isSettled) ∨ l ∈ (ls.filter (·.isPending)).map (·.settled name) := by
  simp only [List.mem_filter, List.mem_map]
  constructor
  · rintro ⟨⟨l', hl', rfl⟩, hsettled⟩
    cases hpending : l'.isPending with
    | true => exact .inr ⟨l', ⟨hl', hpending⟩, rfl⟩
    | false =>
        rw [settled_of_not_isPending hpending] at hsettled ⊢
        exact .inl ⟨hl', hsettled⟩
  · rintro (⟨hl, hsettled⟩ | ⟨l', ⟨hl', hpending⟩, rfl⟩)
    · have hkept := settled_of_not_isPending (isPending_of_isSettled hsettled) name
      exact ⟨⟨l, hl, hkept⟩, hsettled⟩
    · exact ⟨⟨l', hl', rfl⟩, isSettled_settled_of_isPending hpending name⟩

end LigatureRule

/-- A committed glyph puts what it has, and nothing that is there is removed. -/
theorem puts_afterGlyph (e : Engine σ) (cfg : Settings) (s : State σ) (g : ShippedGlyph) :
    Puts [s.commitment cfg g] s (s.afterGlyph e cfg g) := by
  obtain ⟨glyph, hattached⟩ := attached_afterGlyph e cfg s g
  obtain ⟨ps, engine, o, hs⟩ := State.exists_afterGlyph e cfg s g
  refine ⟨?_, ?_, fun l => ?_, fun name => ?_⟩
  · rw [hattached.references, List.flatMap_singleton, State.pending_commitment]
  · rw [hattached.replacements, List.flatMap_singleton, List.append_assoc]
    rfl
  · -- All ligatures that wait get the name, so those of the commitment are all that is new.
    rw [hs]
    refine (LigatureRule.mem_settled_iff g.id.name).trans (or_congr_right ?_)
    simp only [List.mem_singleton, exists_eq_left]
    rfl
  · rw [hs]
    simp only [List.mem_singleton, exists_eq_left]
    show name ∈ (s.explicit.afterGlyph g.id.name s.scratch).topAccents ↔
      _ ∨ g.id.name = name ∧ s.scratch.topAccent.isSome = true
    rw [Explicit.afterGlyph]
    split
    · next hgiven => rw [mem_addNew, and_iff_left hgiven, eq_comm]
    · next hgiven => rw [or_iff_left fun h => hgiven h.2]

/-- A construct puts what its glyph does, if it has one. -/
theorem puts_step (e : Engine σ) (cfg : Settings) (s : State σ) (k : Construct) :
    Puts (k.commitment? cfg s).toList s (State.step e cfg s k).value := by
  cases hg : k.glyph? cfg s with
  | some g =>
      obtain ⟨reasons, hstep⟩ := exists_step_of_glyph e hg
      obtain ⟨hreferences, hreplacements, hligatures, haccents⟩ := puts_afterGlyph e cfg s g
      rw [Construct.commitment?, hg, hstep]
      exact ⟨hreferences, hreplacements, hligatures, haccents⟩
  | none =>
      rw [Construct.commitment?, hg]
      exact puts_nil (leavesShipped_step e hg)

/-! ## replays -/

/-- A replay puts what its glyphs do, and removes nothing. -/
theorem puts_follow (e : Engine σ) (cfg : Settings) (s : State σ) (script : Script) :
    Puts (script.commitments e cfg s) s (s.follow e cfg script).value := by
  induction script generalizing s with
  | nil => exact puts_nil (.of_eq rfl rfl rfl rfl)
  | cons k script ih =>
      rw [follow_cons, Script.commitments]
      exact (puts_step e cfg s k).trans (ih _)

end FontTrace
