import FontTrace.Proofs.Replay.Effect
import FontTrace.Proofs.Variants.Chains

/-!
# FontTrace.Proofs.Variants.Handover

Extensible characters at the end of a chain of variants, from the trace to the
finished font.  Such a character hands its recipe over to the base of the chain.

* `gathers_follow` — a replay gathers the chains and the recipes of its script, in order;
* `exists_variantChanges` — a finished glyph has the variants and pieces that these make;
* `HandedOver` — a chain without its last variant, and a base with the pieces of the recipe;
* `variant_chain_handed_over_iff` — which chains hand over: of those that end in one
  character, the first.
-/

namespace FontTrace

variable {σ : Type}

/-! ## chains and recipes of a trace -/

/-- The chain of variants that a command gives. -/
def Command.charlist? : Command → Option Charlist
  | .charlist c => some c
  | _ => none

/-- The extensible character that a command gives. -/
def Command.extensible? : Command → Option Extensible
  | .extensible x => some x
  | _ => none

/-- The chains of a script, in order. -/
def Script.charlists (cfg : Settings) (script : Script) : List Charlist :=
  script.filterMap fun k => (k.command? cfg).bind (·.charlist?)

/-- The extensible characters of a script, in order. -/
def Script.extensibles (cfg : Settings) (script : Script) : List Extensible :=
  script.filterMap fun k => (k.command? cfg).bind (·.extensible?)

/-- Nothing but the given chains and recipes has come into the tables for variants. -/
structure Gathers (cs : List Charlist) (xs : List Extensible) (s s' : State σ) : Prop where
  charlists : s'.tables.charlists = s.tables.charlists ++ cs
  extensibles : s'.tables.extensibles = s.tables.extensibles ++ xs
  lastVariants : s'.tables.lastVariants = s.tables.lastVariants ++ cs.filterMap (·.lastVariant?)

theorem gathers_nil {s s' : State σ} (hcharlists : s'.tables.charlists = s.tables.charlists)
    (hextensibles : s'.tables.extensibles = s.tables.extensibles)
    (hlasts : s'.tables.lastVariants = s.tables.lastVariants) : Gathers [] [] s s' := by
  constructor <;> simp [hcharlists, hextensibles, hlasts]

theorem Gathers.trans {cs cs' : List Charlist} {xs xs' : List Extensible} {s s' s'' : State σ}
    (h : Gathers cs xs s s') (h' : Gathers cs' xs' s' s'') :
    Gathers (cs ++ cs') (xs ++ xs') s s'' where
  charlists := by rw [h'.charlists, h.charlists, List.append_assoc]
  extensibles := by rw [h'.extensibles, h.extensibles, List.append_assoc]
  lastVariants := by
    rw [h'.lastVariants, h.lastVariants, List.filterMap_append, List.append_assoc]

theorem gathers_perform (e : Engine σ) (cfg : Settings) (c : Command) (s : State σ) :
    Gathers c.charlist?.toList c.extensible?.toList s (perform e cfg c s).value.1 := by
  cases c with
  | charlist c =>
      refine ⟨rfl, (List.append_nil _).symm, ?_⟩
      show s.tables.lastVariants ++ c.lastVariant?.toList = _
      cases hlast : c.lastVariant? <;> simp [Command.charlist?, hlast]
  | extensible x => exact ⟨(List.append_nil _).symm, rfl, (List.append_nil _).symm⟩
  | picture p =>
      obtain ⟨ps, engine, hs⟩ := exists_perform_picture e cfg p s
      exact gathers_nil (by rw [hs]) (by rw [hs]) (by rw [hs])
  | edit x =>
      obtain ⟨ps, engine, hs⟩ := exists_perform_edit e cfg x s
      exact gathers_nil (by rw [hs]) (by rw [hs]) (by rw [hs])
  | ship x =>
      show Gathers [] [] s (ship e cfg x s).value.1
      rw [value_ship]
      cases hg : (s.shipOutcome cfg x).glyph? with
      | some g =>
          obtain ⟨ps, engine, o, hs⟩ := State.exists_afterGlyph e cfg s g
          rw [State.afterShipment_of_some hg, hs]
          exact gathers_nil rfl rfl rfl
      | none =>
          obtain ⟨ps, engine, hs⟩ := State.exists_afterNoGlyph e cfg s x
          rw [State.afterShipment_of_none hg, hs]
          exact gathers_nil rfl rfl rfl
  | ligtable p =>
      show Gathers [] [] s { s with tables := p.apply s.tables }
      unfold LigtableProgram.apply
      dsimp only
      split <;> exact gathers_nil rfl rfl rfl
  | fontdimen params =>
      obtain ⟨f, sigma, xi, hs, -⟩ := exists_perform_fontdimen e cfg params s
      exact gathers_nil (by rw [hs]) (by rw [hs]) (by rw [hs])
  | designSize size =>
      obtain ⟨f, hs, -⟩ := exists_perform_designSize e cfg size s
      exact gathers_nil (by rw [hs]; rfl) (by rw [hs]; rfl) (by rw [hs]; rfl)
  | font edit => cases edit <;> exact gathers_nil rfl rfl rfl
  | _ => exact gathers_nil rfl rfl rfl

theorem toList_append_filterMap {α β : Type} (f : α → Option β) (a : α) (as : List α) :
    (f a).toList ++ as.filterMap f = (a :: as).filterMap f := by
  cases h : f a <;> simp [h]

theorem gathers_step (e : Engine σ) (cfg : Settings) (s : State σ) (k : Construct) :
    Gathers ((k.command? cfg).bind (·.charlist?)).toList
      ((k.command? cfg).bind (·.extensible?)).toList s (State.step e cfg s k).value := by
  rcases step_cases e cfg s k with ⟨hnone, reasons, hs⟩ | ⟨c, hc, reasons, hs⟩
  · rw [hnone, hs]
    exact gathers_nil rfl rfl rfl
  · rw [hc, hs]
    have hperform := gathers_perform e cfg c s
    exact ⟨hperform.charlists, hperform.extensibles, hperform.lastVariants⟩

/-- A replay gathers what its script has, in order. -/
theorem gathers_follow (e : Engine σ) (cfg : Settings) (s : State σ) (script : Script) :
    Gathers (script.charlists cfg) (script.extensibles cfg) s (s.follow e cfg script).value := by
  induction script generalizing s with
  | nil => exact gathers_nil rfl rfl rfl
  | cons k script ih =>
      have hfollow := (gathers_step e cfg s k).trans (ih (State.step e cfg s k).value)
      rw [follow_cons, Script.charlists, Script.extensibles]
      rwa [← toList_append_filterMap, ← toList_append_filterMap]

/-- The chains of variants of a trace, in order. -/
def charlistsOf (cfg : Settings) (records : List Record) : List Charlist :=
  (Script.ofRecords records).charlists cfg

/-- The extensible characters of a trace, in order. -/
def extensiblesOf (cfg : Settings) (records : List Record) : List Extensible :=
  (Script.ofRecords records).extensibles cfg

/-- A run has gathered the chains and the recipes of its trace. -/
theorem gathers_run (e : Engine σ) (engine : σ) (cfg : Settings) (encoding : Encoding)
    (records : List Record) : Gathers (charlistsOf cfg records) (extensiblesOf cfg records)
      (State.initial engine cfg encoding)
      ((State.initial engine cfg encoding).run e cfg records).value :=
  gathers_follow e cfg _ (Script.ofRecords records)

/-! ## the finished font -/

/-- The font that chains and recipes are put into. -/
def State.fontForVariants (cfg : Settings) (s : State σ) : Font :=
  (buildKerning cfg s.tables.kerns (placeAccents cfg s.explicit.topAccents s.tables.kerns
    (buildLigatures cfg s.tables.ligatures s.font).value).value).value

theorem value_buildTables (cfg : Settings) (s : State σ) :
    (buildTables cfg s).value = (buildVariants cfg s.tables (s.fontForVariants cfg)).value := rfl

/-- From there on no glyph changes but in its variants and pieces, its outline and its
references. -/
theorem sameGlyphs_fontForVariants {β : Type} {get : Glyph → β}
    (hvariants : ∀ g vs, get { g with verticalVariants := vs } = get g)
    (hcomponents : ∀ g cs, get { g with verticalComponents := cs } = get g)
    (houtline : ∀ g o, get { g with outline := o } = get g)
    (hreferences : ∀ g rs, get { g with references := rs } = get g)
    (e : Engine σ) (cfg : Settings) (s : State σ) :
    SameGlyphs get (s.fontForVariants cfg) (finish e cfg s).value.1 := by
  have hbuilt : SameGlyphs get (s.fontForVariants cfg) (buildTables cfg s).value := by
    rw [value_buildTables]
    exact sameGlyphs_buildVariants hvariants hcomponents cfg s.tables _
  exact hbuilt.trans (sameGlyphs_finish houtline hreferences e cfg s)

theorem sameDepths_fontForVariants (e : Engine σ) (cfg : Settings) (s : State σ) :
    SameDepths (s.fontForVariants cfg) (finish e cfg s).value.1 where
  codes := sameGlyphs_fontForVariants (fun _ _ => rfl) (fun _ _ => rfl) (fun _ _ => rfl)
    (fun _ _ => rfl) e cfg s
  depths := sameGlyphs_fontForVariants (fun _ _ => rfl) (fun _ _ => rfl) (fun _ _ => rfl)
    (fun _ _ => rfl) e cfg s

/-- A finished font has the values that chains and recipes gave to its glyphs,
and no step before or behind them changes a name or a depth. -/
theorem exists_variantChanges (e : Engine σ) (engine : σ) (cfg : Settings) (encoding : Encoding)
    (records : List Record) {f : Font} (hf : (fontOf e engine cfg encoding records).value = f)
    (hbases : ((charlistsOf cfg records).map (f.operandName cfg ·.base)).Nodup) :
    ∃ f', SameDepths f' f ∧ ∀ {β : Type} (get : Glyph → β),
      (∀ g o, get { g with outline := o } = get g) →
      (∀ g rs, get { g with references := rs } = get g) →
      SameGlyphs get (f'.changeAll
        (variantChanges cfg f' (charlistsOf cfg records) (extensiblesOf cfg records))) f := by
  let s := ((State.initial engine cfg encoding).run e cfg records).value
  have hgathers := gathers_run e engine cfg encoding records
  have hcharlists : s.tables.charlists = charlistsOf cfg records := hgathers.charlists
  have hextensibles : s.tables.extensibles = extensiblesOf cfg records := hgathers.extensibles
  have hlasts : s.tables.lastVariants = s.tables.charlists.filterMap (·.lastVariant?) := by
    rw [hcharlists]
    exact hgathers.lastVariants
  have hfinish : (finish e cfg s).value.1 = f := hf
  have hdepths : SameDepths (s.fontForVariants cfg) f :=
    hfinish ▸ sameDepths_fontForVariants e cfg s
  have hbuilt : (buildTables cfg s).value = (s.fontForVariants cfg).changeAll
      (variantChanges cfg (s.fontForVariants cfg) (charlistsOf cfg records)
        (extensiblesOf cfg records)) := by
    rw [value_buildTables, value_buildVariants cfg _ hlasts, hcharlists, hextensibles]
    rw [hcharlists, ← hdepths.operandName cfg]
    exact hbases
  refine ⟨s.fontForVariants cfg, hdepths, fun get houtline hreferences => ?_⟩
  rw [← hbuilt, ← hfinish]
  exact sameGlyphs_finish houtline hreferences e cfg s

/-- The value of a glyph that is found. -/
theorem get_eq_of_map {β : Type} {get : Glyph → β} {o o' : Option Glyph} {g : Glyph} {v : β}
    (h : o.map get = o'.map fun _ => v) (hg : o = some g) : get g = v := by
  subst hg
  cases o' with
  | none => cases h
  | some _ => exact Option.some.inj h

/-! ## handing over -/

/-- The base of a chain has the pieces of an extensible character, and the chain is
without its last variant. -/
structure HandedOver (cfg : Settings) (f : Font) (c : Charlist) (x : Extensible) (g : Glyph) :
    Prop where
  variants : g.verticalVariants = c.variants.dropLast.map (f.operandName cfg)
  components : g.verticalComponents = x.pieces.map (·.assembled cfg f)

/-- A base that has all variants of its chain has not got anything from it. -/
theorem not_handedOver_of_variants {cfg : Settings} {f : Font} {c : Charlist} {x : Extensible}
    {g : Glyph} (hlast : c.last? (f.operandName cfg) = some (f.operandName cfg x.label))
    (hg : g.verticalVariants = c.variants.map (f.operandName cfg)) :
    ¬HandedOver cfg f c x g := by
  intro h
  have hlength := congrArg List.length (hg.symm.trans h.variants)
  have hne : c.variants ≠ [] := by
    intro hnil
    simp [Charlist.last?, hnil] at hlast
  have hpos := List.length_pos_iff.mpr hne
  simp only [List.length_map, List.length_dropLast] at hlength
  omega

/-- Let the bases of all chains be different, the labels of all extensible characters
too, and no base a label.  A chain that ends in an extensible character hands it over if
and only if it is the first chain that does; any other such chain keeps all its variants. -/
theorem variant_chain_handed_over_iff (e : Engine σ) (engine : σ) (cfg : Settings)
    (encoding : Encoding) (records : List Record) {f : Font}
    (hf : (fontOf e engine cfg encoding records).value = f)
    (hbases : ((charlistsOf cfg records).map (f.operandName cfg ·.base)).Nodup)
    (hlabels : ((extensiblesOf cfg records).map (f.operandName cfg ·.label)).Nodup)
    (hapart : ∀ c ∈ charlistsOf cfg records, ∀ x ∈ extensiblesOf cfg records,
      f.operandName cfg x.label ≠ f.operandName cfg c.base)
    {before after : List Charlist} {c : Charlist}
    (hc : charlistsOf cfg records = before ++ c :: after) {x : Extensible}
    (hx : x ∈ extensiblesOf cfg records)
    (hlast : c.last? (f.operandName cfg) = some (f.operandName cfg x.label)) {g : Glyph}
    (hg : f.glyph? (f.operandName cfg c.base) = some g) :
    (HandedOver cfg f c x g ↔
      ∀ d ∈ before, d.last? (f.operandName cfg) ≠ some (f.operandName cfg x.label)) ∧
    (¬HandedOver cfg f c x g → g.verticalVariants = c.variants.map (f.operandName cfg)) := by
  obtain ⟨f', hdepths, hsame⟩ := exists_variantChanges e engine cfg encoding records hf hbases
  have hname := hdepths.operandName cfg
  have hassembled : ExtensiblePiece.assembled cfg f = ExtensiblePiece.assembled cfg f' :=
    funext (hdepths.assembled cfg)
  have hmem : c ∈ charlistsOf cfg records := by simp [hc]
  have hvariants := (hsame Glyph.verticalVariants (fun _ _ => rfl) fun _ _ => rfl).glyph?
    (f.operandName cfg c.base)
  have hcomponents := (hsame Glyph.verticalComponents (fun _ _ => rfl) fun _ _ => rfl).glyph?
    (f.operandName cfg c.base)
  have hfirst := owner?_iff_first (hc ▸ hbases) hlast
  rw [← hc] at hfirst
  rw [hname] at hbases hlabels hlast hfirst hg hvariants hcomponents ⊢
  have hvariants := get_eq_of_map
    (hvariants.trans (verticalVariants_changeAll f' hbases hc)) hg
  by_cases howner : owner? (f'.operandName cfg) (charlistsOf cfg records) x =
      some (f'.operandName cfg c.base)
  · have hpieces := get_eq_of_map (hcomponents.trans (verticalComponents_changeAll f' hbases
      hlabels (fun y hy => hname ▸ hapart c hmem y hy) hmem hx howner)) hg
    have hhanded : HandedOver cfg f c x g := by
      rw [Charlist.shortened_of_owner hbases hlabels hmem hx howner, ← hname] at hvariants
      exact ⟨hvariants, hassembled ▸ hpieces⟩
    exact ⟨iff_of_true hhanded (hfirst.mp howner), fun h => absurd hhanded h⟩
  · -- the recipe goes to another chain, and no other recipe has the name of this last variant
    have hnone := owner?_ne_of_last hbases hmem hlast howner
    rw [Charlist.shortened_of_not_owner fun y _ => hnone y] at hvariants
    have hkept := not_handedOver_of_variants (hname ▸ hlast) (hname ▸ hvariants)
    exact ⟨iff_of_false hkept fun h => howner (hfirst.mpr h), fun _ => hvariants⟩

/-- A digit with two larger variants, the last of which is extensible. -/
theorem variant_chain_handed_over_of_digits :
    let cfg : Settings := { setMathDefaults := false }
    let box (code depth : String) : Record :=
      ⟨"shipout", none, "10>> " ++ code ++ ">> 0>> 5>> 7>> " ++ depth ++ ">> 0>> 0>> 0>> 0>> 0"⟩
    let pic : Record := ⟨"pic", none, "\"p\""⟩
    let records : List Record :=
      [⟨"picture", none, "\"p\""⟩, box "48" "2", pic, box "49" "3", pic, box "51" "2", pic,
        ⟨"charlist", none, "48"⟩, ⟨":", none, "49"⟩, ⟨":", none, "51"⟩,
        ⟨"extensible", none, "51"⟩, ⟨":", none, "0>> 0>> 0>> 49"⟩]
    let f := (fontOf Engine.basic () cfg .unicode records).value
    let c : Charlist := ⟨.code 48, [.code 49, .code 51]⟩
    let x : Extensible := ⟨.code 51, [⟨.code 49, true⟩]⟩
    charlistsOf cfg records = [c] ∧ extensiblesOf cfg records = [x] ∧
    f.operandName cfg x.label ≠ f.operandName cfg c.base ∧
    c.last? (f.operandName cfg) = some (f.operandName cfg x.label) ∧
    ∃ g, f.glyph? (f.operandName cfg c.base) = some g ∧ HandedOver cfg f c x g := by
  intro cfg box pic records f c x
  have hrun : charlistsOf cfg records = [c] ∧ extensiblesOf cfg records = [x] ∧
      f.operandName cfg x.label ≠ f.operandName cfg c.base ∧
      c.last? (f.operandName cfg) = some (f.operandName cfg x.label) ∧
      (f.glyph? (f.operandName cfg c.base)).isSome = true := by
    decide +kernel
  obtain ⟨hchains, hrecipes, hapart, hlast, hglyph⟩ := hrun
  obtain ⟨g, hg⟩ := Option.isSome_iff_exists.mp hglyph
  have hhanded := variant_chain_handed_over_iff Engine.basic () cfg .unicode records rfl
    (by simp [hchains]) (by simp [hrecipes]) (by simpa [hchains, hrecipes] using hapart)
    (show charlistsOf cfg records = [] ++ c :: [] from hchains)
    (show x ∈ extensiblesOf cfg records by simp [hrecipes]) hlast hg
  exact ⟨hchains, hrecipes, hapart, hlast, g, hg, hhanded.1.mpr (by simp)⟩

/-- Two digits with the same last variant, which is extensible: the second keeps
it and gets no pieces. -/
theorem second_chain_keeps_variant :
    let cfg : Settings := { setMathDefaults := false }
    let box (code depth : String) : Record :=
      ⟨"shipout", none, "10>> " ++ code ++ ">> 0>> 5>> 7>> " ++ depth ++ ">> 0>> 0>> 0>> 0>> 0"⟩
    let pic : Record := ⟨"pic", none, "\"p\""⟩
    let records : List Record :=
      [⟨"picture", none, "\"p\""⟩, box "48" "2", pic, box "49" "3", pic, box "51" "2", pic,
        ⟨"charlist", none, "48"⟩, ⟨":", none, "51"⟩, ⟨"charlist", none, "49"⟩, ⟨":", none, "51"⟩,
        ⟨"extensible", none, "51"⟩, ⟨":", none, "0>> 0>> 0>> 49"⟩]
    let f := (fontOf Engine.basic () cfg .unicode records).value
    let first : Charlist := ⟨.code 48, [.code 51]⟩
    let second : Charlist := ⟨.code 49, [.code 51]⟩
    let x : Extensible := ⟨.code 51, [⟨.code 49, true⟩]⟩
    (charlistsOf cfg records = [first, second] ∧ extensiblesOf cfg records = [x] ∧
      ([first, second].map (f.operandName cfg ·.base)).Nodup ∧
      (∀ c ∈ [first, second], (c.variants.map (f.operandName cfg)).Nodup ∧
        f.operandName cfg x.label ≠ f.operandName cfg c.base ∧
        c.last? (f.operandName cfg) = some (f.operandName cfg x.label))) ∧
    ∃ g, f.glyph? (f.operandName cfg second.base) = some g ∧
      g.verticalVariants = ["three"] ∧ g.verticalComponents = [] ∧
      ¬HandedOver cfg f second x g := by
  intro cfg box pic records f first second x
  refine ⟨by decide +kernel, ?_⟩
  have hvalues : (f.glyph? (f.operandName cfg second.base)).map
      (fun g => (g.verticalVariants, g.verticalComponents)) = some (["three"], []) := by
    decide +kernel
  obtain ⟨g, hg, hvalues⟩ := Option.map_eq_some_iff.mp hvalues
  obtain ⟨hvariants, hcomponents⟩ := Prod.mk.inj hvalues
  refine ⟨g, hg, hvariants, hcomponents, fun h => ?_⟩
  have hnone := hvariants.symm.trans h.variants
  cases hnone

end FontTrace
