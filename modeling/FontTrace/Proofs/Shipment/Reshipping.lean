import FontTrace.Proofs.Font.Glyphs
import FontTrace.Proofs.Font.Roster
import FontTrace.Proofs.Shipment.Commitment

/-!
# FontTrace.Proofs.Shipment.Reshipping

Glyphs that are shipped again.  The new glyph takes the place of the old one,
but the references of the old one, its replacements and ligatures and the note
that its accent was given are still in the tables when the font is finished.

* `references_finish` — a finished glyph has all references that wait under its name;
* `topAccent_finish` — kerns against the skew character place the accents of the glyphs that
  are not noted;
* `Superseded` — a font in which the last commitment of a glyph is the only one;
* `reshipped_glyph_iff` — for which commitments that is so.
-/

namespace FontTrace

variable {σ : Type}

/-! ## references -/

/-- A reference that waits, if it is one of the given glyph. -/
def PendingReference.of? (name : String) (r : PendingReference) : Option Reference :=
  if r.glyph = name then some ⟨r.target, r.transform⟩ else none

theorem references_attachReference (f : Font) (r : PendingReference) (name : String) :
    ((attachReference f r).value.glyph? name).map (·.references) =
      (f.glyph? name).map fun g => g.references ++ (r.of? name).toList := by
  have hstep : (attachReference f r).value = f.changeGlyph r.glyph
    fun g => { g with references := g.references ++ [⟨r.target, r.transform⟩] } := rfl
  rw [hstep, glyph?_changeGlyph, Option.map_map]
  refine congrArg (Option.map · (f.glyph? name)) (funext fun g => ?_)
  by_cases h : r.glyph = name <;> simp [PendingReference.of?, h]

/-- A glyph gets all references that wait under its name, in order. -/
theorem references_attachReferences (pending : List PendingReference) (f : Font) (name : String) :
    ((pending.foldlM attachReference f).value.glyph? name).map (·.references) =
      (f.glyph? name).map fun g => g.references ++ pending.filterMap (·.of? name) := by
  rw [value_foldlM]
  induction pending generalizing f with
  | nil => simp
  | cons r pending ih =>
      calc _ = (((attachReference f r).value.glyph? name).map (·.references)).map
            (· ++ pending.filterMap (·.of? name)) := by
            rw [List.foldl_cons, ih, Option.map_map]
            rfl
        _ = _ := by
            rw [references_attachReference, Option.map_map]
            refine congrArg (Option.map · (f.glyph? name)) (funext fun g => ?_)
            cases hpick : r.of? name <;> simp [hpick]

/-- The references that wait under a name, all of them, are those of the
commitments of that name. -/
theorem pending_of_name (cs : List Commitment) (name : String) :
    (cs.flatMap (·.pending)).filterMap (·.of? name) =
      (cs.filter (·.name = name)).flatMap (·.references) := by
  induction cs with
  | nil => rfl
  | cons c cs ih =>
      have hpending : c.pending.filterMap (·.of? name) =
          if c.name = name then c.references else [] := by
        rw [Commitment.pending, List.filterMap_map]
        split
        · next h => simp [PendingReference.of?, Reference.pendingFor, h]
        · next h => simp [PendingReference.of?, Reference.pendingFor, h]
      rw [List.flatMap_cons, List.filterMap_append, ih, hpending]
      by_cases h : c.name = name <;> simp [h]

/-- A glyph without references of its own has in the end those that wait. -/
theorem references_finish (e : Engine σ) (cfg : Settings) {s : State σ}
    (hown : ∀ g ∈ s.font.glyphs, g.references = []) (name : String) :
    ((finish e cfg s).value.1.glyph? name).map (·.references) =
      (s.font.glyph? name).map fun _ => s.tables.references.filterMap (·.of? name) := by
  let f := ((postProcessFont e (buildTables cfg s).value).run s.engine).1
  have hbefore : SameGlyphs (·.references) s.font f :=
    (sameGlyphs_buildTables (fun _ _ => rfl) (fun _ _ => rfl) (fun _ _ => rfl) cfg s).trans
      (sameGlyphs_postProcessFont (fun _ _ => rfl) e _ s.engine)
  have hnone : (f.glyph? name).map (·.references) = (s.font.glyph? name).map fun _ => [] := by
    rw [hbefore.glyph?]
    refine Option.map_congr fun g hg => hown g (List.mem_of_find?_eq_some hg)
  obtain ⟨info, hfinish⟩ := exists_finish e cfg s
  rw [hfinish]
  calc _ = ((s.tables.references.foldlM attachReference f).value.glyph? name).map
        (·.references) :=
        (sameGlyphs_addReplacements cfg s.tables.replacements _).glyph? name
    _ = ((f.glyph? name).map (·.references)).map
          (· ++ s.tables.references.filterMap (·.of? name)) := by
        rw [references_attachReferences, Option.map_map]
        rfl
    _ = _ := by
        rw [hnone, Option.map_map]
        rfl

/-! ## accents -/

/-- A glyph with its accent moved, if there is a kern for it. -/
def Glyph.skewedBy (g : Glyph) (kern : Option Int) : Glyph := kern.elim g g.withSkew

theorem Glyph.skewedBy_skewedBy (g : Glyph) (kern kern' : Option Int) :
    (g.skewedBy kern).skewedBy kern' = g.skewedBy (kern'.or kern) := by
  cases kern <;> cases kern' <;> rfl

/-- The kern against the skew character, if it is one of the given glyph. -/
def skewOf? (cfg : Settings) (f : Font) (name : String) (p : KernPair CharRef) : Option Int :=
  if (f.resolve cfg.generalizedCode p.left).value = name then some p.kern else none

/-- The last kern of a glyph against the skew character. -/
def lastSkew? (cfg : Settings) (kerns : List (KernPair CharRef)) (f : Font) (name : String) :
    Option Int :=
  ((kerns.filter (isSkew cfg.accentCode?)).filterMap (skewOf? cfg f name)).getLast?

theorem glyph?_placeAccent (cfg : Settings) (explicit : List String) (f : Font)
    (p : KernPair CharRef) (name : String) :
    (placeAccent cfg explicit f p).value.glyph? name =
      if explicit.contains name then f.glyph? name
      else (f.glyph? name).map (·.skewedBy (skewOf? cfg f name p)) := by
  let skewed := (f.resolve cfg.generalizedCode p.left).value
  have hvalue : (placeAccent cfg explicit f p).value =
      if explicit.contains skewed then f else f.changeGlyph skewed (·.withSkew p.kern) := by
    rw [placeAccent, Noted.value_bind]
    split
    · rfl
    · split
      · rfl
      · next habsent =>
        have hnone : f.glyph? skewed = none := by simpa [Font.hasGlyph] using habsent
        rw [Font.changeGlyph, hnone]
        rfl
  rw [hvalue]
  by_cases h : skewed = name
  · have hskew : skewOf? cfg f name p = some p.kern := if_pos h
    rw [hskew, h]
    split
    · rfl
    · rw [glyph?_changeGlyph]
      simp only [if_pos]
      rfl
  · have hskew : skewOf? cfg f name p = none := if_neg h
    have hsame : (f.glyph? name).map (·.skewedBy none) = f.glyph? name := Option.map_id'
    rw [hskew, hsame, ite_self]
    split
    · rfl
    · rw [glyph?_changeGlyph]
      simp [h]

/-- Of several kerns of a glyph against the skew character the last one counts. -/
theorem glyph?_placeAccents (cfg : Settings) (explicit : List String)
    (kerns : List (KernPair CharRef)) (f : Font) (name : String) :
    (placeAccents cfg explicit kerns f).value.glyph? name =
      if explicit.contains name then f.glyph? name
      else (f.glyph? name).map (·.skewedBy (lastSkew? cfg kerns f name)) := by
  rw [placeAccents, lastSkew?, value_foldlM]
  induction kerns.filter (isSkew cfg.accentCode?) generalizing f with
  | nil =>
      have hsame : (f.glyph? name).map (·.skewedBy none) = f.glyph? name := Option.map_id'
      exact ((congrArg _ hsame).trans (ite_self _)).symm
  | cons p skews ih =>
      -- The operands behind `p` are looked up in another font, which has the same names.
      have hroster : SameRoster f (placeAccent cfg explicit f p).value :=
        (sameGlyphs_placeAccent (fun _ _ => rfl) cfg explicit f p).sameRoster
      have hskewOf : skewOf? cfg (placeAccent cfg explicit f p).value name =
          skewOf? cfg f name := by
        funext p'
        rw [skewOf?, skewOf?, hroster.resolve]
      rw [List.foldl_cons, ih, hskewOf, glyph?_placeAccent]
      split
      · rfl
      · rw [Option.map_map]
        refine congrArg (Option.map · (f.glyph? name)) (funext fun g => ?_)
        rw [Function.comp_apply, Glyph.skewedBy_skewedBy]
        cases hskew : skewOf? cfg f name p with
        | none => rw [List.filterMap_cons_none hskew, Option.or_none]
        | some kern =>
            rw [List.filterMap_cons_some hskew, List.getLast?_cons]
            cases (skews.filterMap (skewOf? cfg f name)).getLast? <;> rfl

/-- The accent of a finished glyph. -/
theorem topAccent_finish (e : Engine σ) (cfg : Settings) (s : State σ) (name : String) :
    ((finish e cfg s).value.1.glyph? name).map (·.topAccent) =
      (s.font.glyph? name).map fun g =>
        if s.explicit.topAccents.contains name then g.topAccent
        else (g.skewedBy (lastSkew? cfg s.tables.kerns s.font name)).topAccent := by
  let ligated := (buildLigatures cfg s.tables.ligatures s.font).value
  let accented := (placeAccents cfg s.explicit.topAccents s.tables.kerns ligated).value
  have hvariants : SameGlyphs (·.topAccent) accented (buildTables cfg s).value := by
    rw [buildTables, Noted.value_bind, Noted.value_bind, Noted.value_bind]
    exact (sameGlyphs_buildKerning cfg _ _).trans
      (sameGlyphs_buildVariants (fun _ _ => rfl) (fun _ _ => rfl) cfg _ _)
  -- Nothing behind the kerns touches an accent, so the fold over them is all that counts.
  have hbehind := hvariants.trans <|
    (sameGlyphs_postProcessFont (fun _ _ => rfl) e (buildTables cfg s).value s.engine).trans <|
    (sameGlyphs_attachReferences (fun _ _ => rfl) s.tables.references _).trans <|
    sameGlyphs_addReplacements cfg s.tables.replacements _
  have hglyphs : ligated.glyph? name = s.font.glyph? name := by
    rw [show ligated = _ from value_buildLigatures cfg s.tables.ligatures s.font]
    rfl
  have hskew : lastSkew? cfg s.tables.kerns ligated name =
      lastSkew? cfg s.tables.kerns s.font name := by
    have hroster : SameRoster s.font ligated := (sameGlyphs_buildLigatures cfg _ _).sameRoster
    unfold lastSkew? skewOf?
    rw [hroster.resolve]
  obtain ⟨info, hfinish⟩ := exists_finish e cfg s
  rw [hfinish]
  refine (hbehind.glyph? name).trans ?_
  rw [glyph?_placeAccents, hglyphs, hskew]
  split
  · rfl
  · rw [Option.map_map]
    rfl

/-! ## runs -/

/-- A glyph that was committed is there. -/
theorem exists_glyph_of_commitment (e : Engine σ) (cfg : Settings) (script : Script)
    {s : State σ} {c : Commitment} (h : c ∈ script.commitments e cfg s) :
    ∃ g, (s.follow e cfg script).value.font.glyph? c.name = some g := by
  rw [← Option.isSome_iff_exists]
  induction script generalizing s with
  | nil => cases h
  | cons k script ih =>
      rw [follow_cons]
      rcases List.mem_append.mp h with hown | hlater
      · refine glyphs_follow (keptByPutting_name c.name) e cfg script ?_
        obtain ⟨g, hg, rfl⟩ := Option.map_eq_some_iff.mp (Option.mem_toList.mp hown)
        obtain ⟨reasons, hstep⟩ := exists_step_of_glyph e hg
        obtain ⟨glyph, hglyph⟩ := attached_afterGlyph e cfg s g
        rw [hstep]
        exact Option.isSome_of_eq_some hglyph.found
      · exact ih hlater

/-! ## glyphs that are shipped again -/

/-- The commitments of other glyphs, and the last one of this. -/
def Commitment.standing (last : Commitment) (commitments : List Commitment) : List Commitment :=
  commitments.filter (·.name ≠ last.name) ++ [last]

/-- Only the last commitment of a glyph counts: its references are those of the
finished glyph, its accent is one that kerns may not move if and only if it was given with
this commitment, and the tables have nothing that no standing commitment put there. -/
structure Superseded (s : State σ) (font : Font) (commitments : List Commitment)
    (last : Commitment) : Prop where
  references : (font.glyph? last.name).map (·.references) = some last.references
  accent : s.explicit.topAccents.contains last.name = last.givesAccent
  replacements : ∀ r ∈ s.tables.replacements, ∃ c ∈ last.standing commitments, r ∈ c.replacements
  ligatures : ∀ l ∈ s.settledLigatures, ∃ c ∈ last.standing commitments, l ∈ c.ligatures

/-- The earlier commitments of a glyph put nothing into the tables that would
not be there without them. -/
structure Harmless (commitments earlier : List Commitment) (last : Commitment) : Prop where
  references : ∀ c ∈ earlier, c.references = []
  accent : ∀ c ∈ earlier, c.givesAccent = true → last.givesAccent = true
  replacements : ∀ c ∈ earlier, ∀ r ∈ c.replacements,
    ∃ c' ∈ last.standing commitments, r ∈ c'.replacements
  ligatures : ∀ c ∈ earlier, ∀ l ∈ c.ligatures,
    ∃ c' ∈ last.standing commitments, l ∈ c'.ligatures

section Reshipped

variable {commitments earlier : List Commitment} {last : Commitment}

/-- Every commitment of the glyph is an earlier one or the last. -/
theorem exists_named_iff (h : commitments.filter (·.name = last.name) = earlier ++ [last])
    {P : Commitment → Prop} :
    (∃ c ∈ commitments, c.name = last.name ∧ P c) ↔ ∃ c ∈ earlier ++ [last], P c := by
  simp only [← h, List.mem_filter, decide_eq_true_eq, and_assoc]

theorem mem_standing_or (h : commitments.filter (·.name = last.name) = earlier ++ [last])
    {c : Commitment} (hc : c ∈ commitments) : c ∈ earlier ∨ c ∈ last.standing commitments := by
  by_cases hname : c.name = last.name
  · have hmem : c ∈ earlier ++ [last] := h ▸ List.mem_filter.mpr ⟨hc, decide_eq_true hname⟩
    exact (List.mem_append.mp hmem).imp_right (List.mem_append_right _)
  · exact .inr (List.mem_append_left _ (List.mem_filter.mpr ⟨hc, decide_eq_true hname⟩))

theorem references_eq_last_iff : (earlier ++ [last]).flatMap (·.references) = last.references ↔
    ∀ c ∈ earlier, c.references = [] := by
  simp

theorem givesAccent_eq_last_iff : (earlier ++ [last]).any (·.givesAccent) = last.givesAccent ↔
    ∀ c ∈ earlier, c.givesAccent = true → last.givesAccent = true := by
  cases hlast : last.givesAccent <;> simp [hlast]

/-- Everything that was put somewhere was put there by a commitment that stands,
if and only if that is so for what the earlier ones have put. -/
theorem forall_standing_iff (h : commitments.filter (·.name = last.name) = earlier ++ [last])
    {α : Type} (put : Commitment → List α) :
    (∀ x, (∃ c ∈ commitments, x ∈ put c) → ∃ c ∈ last.standing commitments, x ∈ put c) ↔
      ∀ c ∈ earlier, ∀ x ∈ put c, ∃ c' ∈ last.standing commitments, x ∈ put c' := by
  constructor
  · intro hall c hc x hx
    have hmem : c ∈ commitments :=
      List.mem_of_mem_filter (h ▸ List.mem_append_left [last] hc)
    exact hall x ⟨c, hmem, hx⟩
  · rintro hearlier x ⟨c, hc, hx⟩
    rcases mem_standing_or h hc with hold | hstands
    · exact hearlier c hold x hx
    · exact ⟨c, hstands, hx⟩

/-- If the font and the tables have what all commitments put there, then the last
commitment of a glyph is the only one that counts exactly if the earlier ones are harmless. -/
theorem superseded_iff (h : commitments.filter (·.name = last.name) = earlier ++ [last])
    {s : State σ} {font : Font}
    (hreferences : (font.glyph? last.name).map (·.references) =
      some ((earlier ++ [last]).flatMap (·.references)))
    (haccent : s.explicit.topAccents.contains last.name = (earlier ++ [last]).any (·.givesAccent))
    (hreplacements : ∀ r, r ∈ s.tables.replacements ↔ ∃ c ∈ commitments, r ∈ c.replacements)
    (hligatures : ∀ l, l ∈ s.settledLigatures ↔ ∃ c ∈ commitments, l ∈ c.ligatures) :
    Superseded s font commitments last ↔ Harmless commitments earlier last := by
  have hreplaced := forall_standing_iff h (·.replacements)
  have hsettled := forall_standing_iff h (·.ligatures)
  simp only [← hreplacements] at hreplaced
  simp only [← hligatures] at hsettled
  constructor
  · intro hsuperseded
    have hlast := Option.some.inj (hreferences.symm.trans hsuperseded.references)
    exact
      { references := references_eq_last_iff.mp hlast
        accent := givesAccent_eq_last_iff.mp (haccent.symm.trans hsuperseded.accent)
        replacements := hreplaced.mp hsuperseded.replacements
        ligatures := hsettled.mp hsuperseded.ligatures }
  · intro hharmless
    exact
      { references := by rw [hreferences, references_eq_last_iff.mpr hharmless.references]
        accent := haccent.trans (givesAccent_eq_last_iff.mpr hharmless.accent)
        replacements := hreplaced.mpr hharmless.replacements
        ligatures := hsettled.mpr hharmless.ligatures }

end Reshipped

/-- The finished glyph has the references of all its commitments, and kerns move
its accent unless one of them gave it.  So the last commitment is the only one that counts
exactly if the earlier ones have left nothing behind. -/
theorem reshipped_glyph_iff (e : Engine σ) (engine : σ) (cfg : Settings) (encoding : Encoding)
    (records : List Record) (earlier : List Commitment) (last : Commitment) :
    let start := State.initial engine cfg encoding
    let commitments := (Script.ofRecords records).commitments e cfg start
    let s := (start.run e cfg records).value
    let font := (fontOf e engine cfg encoding records).value
    commitments.filter (·.name = last.name) = earlier ++ [last] →
      (font.glyph? last.name).map (·.references) =
        some ((earlier ++ [last]).flatMap (·.references)) ∧
      (font.glyph? last.name).map (·.topAccent) = (s.font.glyph? last.name).map (fun g =>
        if (earlier ++ [last]).any (·.givesAccent) then g.topAccent
        else (g.skewedBy (lastSkew? cfg s.tables.kerns s.font last.name)).topAccent) ∧
      (Superseded s font commitments last ↔ Harmless commitments earlier last) := by
  intro start commitments s font h
  have hputs : Puts commitments start s := puts_follow e cfg start (Script.ofRecords records)
  have hnone : ∀ g ∈ s.font.glyphs, g.references = [] :=
    glyphs_follow keptByPutting_references e cfg (Script.ofRecords records)
      fun g hg => absurd hg List.not_mem_nil
  have hlast : last ∈ commitments :=
    List.mem_of_mem_filter (h ▸ List.mem_append_right earlier (List.mem_singleton_self last))
  obtain ⟨own, hown⟩ : ∃ g, s.font.glyph? last.name = some g :=
    exists_glyph_of_commitment e cfg (Script.ofRecords records) hlast
  have hreferences : (font.glyph? last.name).map (·.references) =
      some ((earlier ++ [last]).flatMap (·.references)) := by
    refine (references_finish e cfg hnone last.name).trans ?_
    rw [hown, Option.map_some, hputs.references, ← h, ← pending_of_name]
    rfl
  have haccent : s.explicit.topAccents.contains last.name =
      (earlier ++ [last]).any (·.givesAccent) := by
    rw [Bool.eq_iff_iff, List.contains_iff_mem, hputs.accents last.name, List.any_eq_true,
      ← exists_named_iff h]
    exact or_iff_right List.not_mem_nil
  have hreplacements : ∀ r, r ∈ s.tables.replacements ↔ ∃ c ∈ commitments, r ∈ c.replacements := by
    intro r
    rw [hputs.replacements, ← List.mem_flatMap]
    rfl
  have hligatures : ∀ l, l ∈ s.settledLigatures ↔ ∃ c ∈ commitments, l ∈ c.ligatures :=
    fun l => (hputs.ligatures l).trans (or_iff_right List.not_mem_nil)
  exact ⟨hreferences, haccent ▸ topAccent_finish e cfg s last.name,
    superseded_iff h hreferences haccent hreplacements hligatures⟩

/-- A letter that is shipped twice, with an accent both times and with a
reference the second time only. -/
theorem reshipped_accented_letter :
    let cfg : Settings := { setMathDefaults := false, extensions := { glyph := true } }
    let records : List Record :=
      [⟨"glyph_top_accent", none, "10"⟩,
        ⟨"shipout", none, "10>> 65>> 0>> 65>> 70>> 2>> 0>> 0>> 0>> 0>> 0"⟩,
        ⟨"pic", none, "\"nullpicture\""⟩, ⟨"glyph_top_accent", none, "20"⟩,
        ⟨"glyph_add_reference", none, "\"B\">> (0,0,1,0,0,1)"⟩,
        ⟨"shipout", none, "10>> 65>> 0>> 65>> 70>> 2>> 0>> 0>> 0>> 0>> 0"⟩,
        ⟨"pic", none, "\"nullpicture\""⟩]
    let first : Commitment := ⟨"A", [], [], [], true⟩
    let last : Commitment := ⟨"A", [⟨"B", ⟨1, 0, 0, 1, 0, 0⟩⟩], [], [], true⟩
    let start := State.initial () cfg .unicode
    let commitments := (Script.ofRecords records).commitments Engine.basic cfg start
    commitments.filter (·.name = last.name) = [first] ++ [last] ∧
      Superseded (start.run Engine.basic cfg records).value
        (fontOf Engine.basic () cfg .unicode records).value commitments last := by
  intro cfg records first last start commitments
  have hcommitments : commitments.filter (·.name = last.name) = [first] ++ [last] := by
    decide +kernel
  obtain ⟨-, -, hiff⟩ :=
    reshipped_glyph_iff Engine.basic () cfg .unicode records [first] last hcommitments
  have hharmless : Harmless commitments [first] last := by
    refine ⟨?_, ?_, ?_, ?_⟩ <;> simp [first, last]
  exact ⟨hcommitments, hiff.mpr hharmless⟩

/-- A letter that is shipped with an accent, a reference and a replacement, and
then without any of them: it keeps the reference and the replacement, and the kern against
the skew character does not move its accent. -/
theorem reshipped_plain_letter :
    let cfg : Settings :=
      { setMathDefaults := false, setTopAccent := true, skewchar := 127,
        extensions := { glyph := true } }
    let box (code : String) : Record :=
      ⟨"shipout", none, "10>> " ++ code ++ ">> 0>> 65>> 70>> 2>> 0>> 0>> 0>> 0>> 0"⟩
    let pic : Record := ⟨"pic", none, "\"p\""⟩
    let records : List Record :=
      [⟨"picture", none, "\"p\""⟩, box "66", pic, ⟨"glyph_top_accent", none, "10"⟩,
        ⟨"glyph_add_reference", none, "\"B\">> (0,0,1,0,0,1)"⟩,
        ⟨"glyph_replaced_by", none, "\"B\">> \"ss01\""⟩, box "65", pic, box "65", pic,
        ⟨"ligtable", none, "10>> \"A\""⟩, ⟨":", none, "127"⟩, ⟨"kern", none, "3"⟩]
    let first : Commitment :=
      ⟨"A", [⟨"B", ⟨1, 0, 0, 1, 0, 0⟩⟩], [⟨"A", "ss01", "B"⟩], [], true⟩
    let last : Commitment := ⟨"A", [], [], [], false⟩
    let start := State.initial () cfg .unicode
    let commitments := (Script.ofRecords records).commitments Engine.basic cfg start
    let s := (start.run Engine.basic cfg records).value
    let font := (fontOf Engine.basic () cfg .unicode records).value
    (commitments.filter (·.name = last.name) = [first] ++ [last] ∧
      (font.glyph? last.name).map (·.references) = some first.references ∧
      (font.glyph? last.name).map (·.topAccent) = some (some 325) ∧
      lastSkew? cfg s.tables.kerns s.font last.name = some 30 ∧
      font.lookups.map (fun l => l.subtables.map (·.rules)) = [[[.single "A" "B"]]]) ∧
    ¬Superseded s font commitments last := by
  refine ⟨by decide +kernel, fun hsuperseded => ?_⟩
  exact absurd hsuperseded.references (by decide +kernel)

end FontTrace
