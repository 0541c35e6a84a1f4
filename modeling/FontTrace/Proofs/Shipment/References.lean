import FontTrace.Proofs.Font.Designation
import FontTrace.Proofs.Shipment.Reshipping

/-!
# FontTrace.Proofs.Shipment.References

The targets of references.  A reference is resolved when its glyph is committed,
with the glyphs that the font has at that time; operands of feature tables wait for the
finished font.

* `references_fontOf` — a finished glyph has the references of its commitments;
* `hasGlyph_fontOf` — a glyph that is there stays there under its name;
* `references_resolved_iff` — the targets are those of the finished font if and only
  if no later glyph has changed what the operands are called.
-/

namespace FontTrace

variable {σ : Type}

/-! ## glyphs that are committed once -/

theorem Script.commitments_append (e : Engine σ) (cfg : Settings) (s : State σ)
    (script script' : Script) : Script.commitments e cfg s (script ++ script') =
      script.commitments e cfg s ++ script'.commitments e cfg (s.follow e cfg script).value := by
  induction script generalizing s with
  | nil => rfl
  | cons k script ih =>
      rw [List.cons_append, commitments, commitments, ih, follow_cons, List.append_assoc]

/-- What a glyph puts into the tables is among all that its script does. -/
theorem Script.commitment_mem {e : Engine σ} {cfg : Settings} {s : State σ} {before after : Script}
    {k : Construct} {g : ShippedGlyph}
    (hg : k.glyph? cfg (s.follow e cfg before).value = some g) :
    (s.follow e cfg before).value.commitment cfg g ∈
      Script.commitments e cfg s (before ++ k :: after) := by
  rw [commitments_append, commitments, Construct.commitment?, hg]
  simp

theorem eq_singleton_of_mem {α : Type} {as : List α} {a : α} (h : a ∈ as)
    (hone : as.length = 1) : as = [a] := by
  obtain ⟨b, rfl⟩ := List.length_eq_one_iff.mp hone
  rw [List.mem_singleton.mp h]

/-- A glyph that was committed has in the end the references of all its commitments. -/
theorem references_fontOf (e : Engine σ) (engine : σ) (cfg : Settings) (encoding : Encoding)
    (records : List Record) {c : Commitment}
    (hc : c ∈ (Script.ofRecords records).commitments e cfg
      (State.initial engine cfg encoding)) :
    ((fontOf e engine cfg encoding records).value.glyph? c.name).map (·.references) =
      some ((((Script.ofRecords records).commitments e cfg
        (State.initial engine cfg encoding)).filter (·.name = c.name)).flatMap (·.references)) := by
  let start := State.initial engine cfg encoding
  let s := (start.run e cfg records).value
  have hputs : Puts _ start s := puts_follow e cfg start (Script.ofRecords records)
  have hnone : ∀ g ∈ s.font.glyphs, g.references = [] :=
    glyphs_follow keptByPutting_references e cfg (Script.ofRecords records)
      fun g hg => absurd hg List.not_mem_nil
  obtain ⟨g, hg⟩ := exists_glyph_of_commitment e cfg (Script.ofRecords records) hc
  have hfinish : ((fontOf e engine cfg encoding records).value.glyph? c.name).map (·.references) =
      (s.font.glyph? c.name).map fun _ => s.tables.references.filterMap (·.of? c.name) :=
    references_finish e cfg hnone c.name
  have hglyph : s.font.glyph? c.name = some g := hg
  have hstart : start.tables.references = [] := rfl
  rw [hfinish, hglyph, hputs.references, hstart, List.nil_append, pending_of_name]
  rfl

/-! ## glyphs that stay -/

theorem hasGlyph_follow (e : Engine σ) (cfg : Settings) (s : State σ) (script : Script)
    {name : String} (h : s.font.hasGlyph name = true) :
    (s.follow e cfg script).value.font.hasGlyph name = true :=
  glyphs_follow (keptByPutting_name name) e cfg script h

/-- A glyph that a font has before some construct is in the finished font. -/
theorem hasGlyph_fontOf {e : Engine σ} {engine : σ} {cfg : Settings} {encoding : Encoding}
    {records : List Record} {before after : Script}
    (hscript : Script.ofRecords records = before ++ after) {name : String}
    (h : ((State.initial engine cfg encoding).follow e cfg before).value.font.hasGlyph name = true) :
    (fontOf e engine cfg encoding records).value.hasGlyph name = true := by
  have hrun : ((State.initial engine cfg encoding).run e cfg records).value.font.hasGlyph name =
      true := by
    rw [State.run, hscript, follow_append]
    exact hasGlyph_follow e cfg _ after h
  have hroster := sameRoster_finish e cfg ((State.initial engine cfg encoding).run e cfg records).value
  exact (congrFun hroster.hasGlyph name).trans hrun

/-! ## resolving early and late -/

theorem reference?_eq (cfg : Settings) (f : Font)
    (r : String × Except OperandError (Transform Float)) :
    reference? cfg f r = r.2.toOption.map fun m => ⟨f.operandName cfg (.text r.1), m⟩ := rfl

/-- References have the same targets in two fonts if and only if those that are
not broken have the same names. -/
theorem filterMap_reference?_eq_iff (cfg : Settings) (f f' : Font)
    (rs : List (String × Except OperandError (Transform Float))) :
    rs.filterMap (reference? cfg f) = rs.filterMap (reference? cfg f') ↔
      ∀ r ∈ rs, r.2.toOption.isSome = true →
        f.operandName cfg (.text r.1) = f'.operandName cfg (.text r.1) := by
  induction rs with
  | nil => simp
  | cons r rs ih =>
      cases hm : r.2.toOption with
      | none => simp [reference?_eq, hm, ih]
      | some m => simp [reference?_eq, hm, ih]

/-- Let a glyph be committed once.  It has the references that were collected for
it, with the targets that they had in the font in front of it; these are the targets in the
finished font if and only if no later glyph has changed what their operands are called. -/
theorem references_resolved_iff (e : Engine σ) (engine : σ) (cfg : Settings) (encoding : Encoding)
    (records : List Record) {before after : Script} {k : Construct} {g : ShippedGlyph}
    (hscript : Script.ofRecords records = before ++ k :: after) :
    let start := State.initial engine cfg encoding
    let s := (start.follow e cfg before).value
    let font := (fontOf e engine cfg encoding records).value
    k.glyph? cfg s = some g →
    (((Script.ofRecords records).commitments e cfg start).filter
      (·.name = g.id.name)).length = 1 →
    (font.glyph? g.id.name).map (·.references) =
      some (s.scratch.references.filterMap (reference? cfg s.font)) ∧
    ((font.glyph? g.id.name).map (·.references) =
        some (s.scratch.references.filterMap (reference? cfg font)) ↔
      ∀ r ∈ s.scratch.references, r.2.toOption.isSome = true →
        (Designation.ofOperand cfg.generalizedCode (.text r.1)).Settled s.font font) := by
  intro start s font hg hone
  have hmem : s.commitment cfg g ∈ (Script.ofRecords records).commitments e cfg start := by
    rw [hscript]
    exact Script.commitment_mem hg
  have hown : s.commitment cfg g ∈ ((Script.ofRecords records).commitments e cfg start).filter
      (·.name = g.id.name) := List.mem_filter.mpr ⟨hmem, by simp [State.commitment]⟩
  have hreferences : (font.glyph? g.id.name).map (·.references) =
      some (s.scratch.references.filterMap (reference? cfg s.font)) := by
    refine (references_fontOf e engine cfg encoding records hmem).trans ?_
    have hsingle := eq_singleton_of_mem hown hone
    show some (List.flatMap _ (((Script.ofRecords records).commitments e cfg start).filter
      (·.name = g.id.name))) = _
    rw [hsingle, List.flatMap_singleton]
    rfl
  have hgrows : ∀ name, s.font.hasGlyph name = true → font.hasGlyph name = true :=
    fun name hname => hasGlyph_fontOf hscript hname
  refine ⟨hreferences, ?_⟩
  rw [hreferences, Option.some_inj, filterMap_reference?_eq_iff]
  refine forall_congr' fun r => forall_congr' fun _ => forall_congr' fun _ => ?_
  rw [Designation.settled_iff hgrows, operandName_eq, operandName_eq, eq_comm]

/-- A letter that refers to another one in front of it: the other one has the name
that the encoding has for its code. -/
theorem references_resolved_of_letter :
    let cfg : Settings := { setMathDefaults := false, extensions := { glyph := true } }
    let box (code : String) : Record :=
      ⟨"shipout", none, "10>> " ++ code ++ ">> 0>> 65>> 70>> 2>> 0>> 0>> 0>> 0>> 0"⟩
    let pic : Record := ⟨"pic", none, "\"p\""⟩
    let records : List Record :=
      [⟨"picture", none, "\"p\""⟩, ⟨"glyph_add_reference", none, "\"B\">> (0,0,1,0,0,1)"⟩,
        box "65", pic, box "66", pic]
    let script := Script.ofRecords records
    let start := State.initial () cfg .unicode
    let s := (start.follow Engine.basic cfg (script.take 2)).value
    let font := (fontOf Engine.basic () cfg .unicode records).value
    ∃ k g, script = script.take 2 ++ k :: script.drop 3 ∧ k.glyph? cfg s = some g ∧
      ((script.commitments Engine.basic cfg start).filter (·.name = g.id.name)).length = 1 ∧
      s.scratch.references.map (·.1) = ["B"] ∧
      (font.glyph? g.id.name).map (·.references) =
        some (s.scratch.references.filterMap (reference? cfg font)) := by
  intro cfg box pic records script start s font
  have hrun : (script[2]?.bind (·.glyph? cfg s)).map (·.id.name) = some "A" ∧
      ((script.commitments Engine.basic cfg start).filter (·.name = "A")).length = 1 ∧
      s.scratch.references.map (·.1) = ["B"] ∧ font.encoding = s.font.encoding ∧
      (∀ g ∈ s.font.glyphs, g.code = some 66 → g.name = (s.font.encoding.slot 66).name) ∧
      ∀ g ∈ font.glyphs, g.code = some 66 → g.name = (s.font.encoding.slot 66).name := by
    decide +kernel
  obtain ⟨hname, hone, hoperands, hencoding, hbefore, hfinished⟩ := hrun
  obtain ⟨g, hg, hname⟩ := Option.map_eq_some_iff.mp hname
  obtain ⟨k, hk, hg⟩ := Option.bind_eq_some_iff.mp hg
  have hscript : script = script.take 2 ++ k :: script.drop 3 := by
    obtain ⟨hlength, rfl⟩ := List.getElem?_eq_some_iff.mp hk
    rw [← List.drop_eq_getElem_cons hlength, List.take_append_drop]
  rw [← hname] at hone
  have hsettled : ∀ r ∈ s.scratch.references, r.2.toOption.isSome = true →
      (Designation.ofOperand cfg.generalizedCode (.text r.1)).Settled s.font font := by
    intro r hr _
    have hoperand : r.1 = "B" := by
      have hmem := List.mem_map_of_mem (f := (·.1)) hr
      simpa [hoperands] using hmem
    rw [hoperand]
    exact Designation.settled_slot hencoding hbefore hfinished
  have hiff := (references_resolved_iff Engine.basic () cfg .unicode records hscript hg hone).2
  exact ⟨k, g, hscript, hg, hone, hoperands, hiff.mpr hsettled⟩

/-- A letter that refers to a code at which there is no glyph yet.  The glyph that
comes there later has another name than the encoding has for it, and the reference is to
a glyph that the font does not have. -/
theorem reference_to_later_name :
    let cfg : Settings := { setMathDefaults := false, extensions := { glyph := true } }
    let box (code : String) : Record :=
      ⟨"shipout", none, "10>> " ++ code ++ ">> 0>> 65>> 70>> 2>> 0>> 0>> 0>> 0>> 0"⟩
    let pic : Record := ⟨"pic", none, "\"p\""⟩
    let records : List Record :=
      [⟨"picture", none, "\"p\""⟩, ⟨"glyph_add_reference", none, "\"B\">> (0,0,1,0,0,1)"⟩,
        box "65", pic, ⟨"glyph_name", none, "\"foo\""⟩, box "66", pic]
    let script := Script.ofRecords records
    let start := State.initial () cfg .unicode
    let s := (start.follow Engine.basic cfg (script.take 2)).value
    let font := (fontOf Engine.basic () cfg .unicode records).value
    let identity : Transform Float := ⟨1, 0, 0, 1, 0, 0⟩
    ((script[2]?.bind (·.glyph? cfg s)).map (·.id.name) = some "A" ∧
      ((script.commitments Engine.basic cfg start).filter (·.name = "A")).length = 1) ∧
    s.scratch.references.filterMap (reference? cfg font) = [⟨"foo", identity⟩] ∧
    (font.glyph? "A").map (·.references) = some [⟨"B", identity⟩] ∧
    font.hasGlyph "B" = false := by
  decide +kernel

end FontTrace
