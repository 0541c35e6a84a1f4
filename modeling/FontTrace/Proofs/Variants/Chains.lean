import FontTrace.Proofs.Font.Roster

/-!
# FontTrace.Proofs.Variants.Chains

What finishing does with charlists and extensible characters, without the
notices on the way.  A recipe looks for its label among the last variants of the
chains; the first chain that ends in it hands its base over and loses that variant.

* `owner?` — the base that a recipe goes to;
* `value_buildVariants` — all of it as changes of glyphs, one for each recipe and then one
  for each chain;
* `Charlist.shortened_of_owner`, `Charlist.shortened_of_not_owner` — what is left of a chain.
-/

namespace FontTrace

/-! ## changes of glyphs, one after the other -/

/-- A change of the glyph of the given name. -/
structure GlyphChange where
  glyph : String
  change : Glyph → Glyph

/-- The font with all changes made. -/
def Font.changeAll (f : Font) (changes : List GlyphChange) : Font :=
  changes.foldl (fun f c => f.changeGlyph c.glyph c.change) f

section ChangeAll

variable {β : Type} (get : Glyph → β)

theorem Font.changeAll_append (f : Font) (changes changes' : List GlyphChange) :
    f.changeAll (changes ++ changes') = (f.changeAll changes).changeAll changes' := by
  simp [changeAll]

/-- A glyph keeps a value that none of its changes touches. -/
theorem Font.get_changeAll_of_keeps (f : Font) {changes : List GlyphChange} {name : String}
    (h : ∀ c ∈ changes, c.glyph = name → ∀ g, get { c.change g with name := g.name } = get g) :
    ((f.changeAll changes).glyph? name).map get = (f.glyph? name).map get := by
  induction changes generalizing f with
  | nil => rfl
  | cons c changes ih =>
      have hfirst : ((f.changeGlyph c.glyph c.change).glyph? name).map get =
          (f.glyph? name).map get := by
        rw [glyph?_changeGlyph, Option.map_map]
        by_cases hname : c.glyph = name
        · simp [Function.comp_def, hname, h c List.mem_cons_self hname]
        · simp [Function.comp_def, hname]
      have hrest := ih (f.changeGlyph c.glyph c.change) fun c' hc' =>
        h c' (List.mem_cons_of_mem _ hc')
      exact hrest.trans hfirst

/-- A glyph has the value that the last change gave it. -/
theorem Font.get_changeAll_of_last (f : Font) (before : List GlyphChange) {c : GlyphChange}
    {after : List GlyphChange} {v : β} (hc : ∀ g, get { c.change g with name := g.name } = v)
    (hafter : ∀ c' ∈ after, c'.glyph = c.glyph →
      ∀ g, get { c'.change g with name := g.name } = get g) :
    ((f.changeAll (before ++ c :: after)).glyph? c.glyph).map get =
      (f.glyph? c.glyph).map fun _ => v := by
  have hsame : ((f.changeAll before).glyph? c.glyph).map (fun _ => ()) =
      (f.glyph? c.glyph).map fun _ => () :=
    get_changeAll_of_keeps _ f fun _ _ _ _ => rfl
  have hsplit : f.changeAll (before ++ c :: after) =
      ((f.changeAll before).changeGlyph c.glyph c.change).changeAll after := by
    rw [changeAll_append]
    rfl
  rw [hsplit, get_changeAll_of_keeps get _ hafter, glyph?_changeGlyph, Option.map_map]
  cases hb : (f.changeAll before).glyph? c.glyph <;> cases hf : f.glyph? c.glyph <;>
    simp [hb, hf, hc] at hsame ⊢

end ChangeAll

/-! ## pieces -/

/-- A piece in the font it is assembled in. -/
def ExtensiblePiece.assembled (cfg : Settings) (f : Font) (p : ExtensiblePiece) :
    VerticalComponent :=
  let glyph := f.operandName cfg p.glyph
  let depth := ((f.glyph? glyph).map (·.depth)).getD 0
  let connector := if p.extender then depth else 0
  ⟨glyph, p.extender, connector, connector, depth⟩

/-- Fonts with the same glyphs, as far as pieces are concerned. -/
structure SameDepths (f f' : Font) : Prop where
  codes : SameGlyphs Glyph.code f f'
  depths : SameGlyphs Glyph.depth f f'

namespace SameDepths

variable {f f' f'' : Font}

theorem refl (f : Font) : SameDepths f f := ⟨.refl f, .refl f⟩

theorem trans (h : SameDepths f f') (h' : SameDepths f' f'') : SameDepths f f'' :=
  ⟨h.codes.trans h'.codes, h.depths.trans h'.depths⟩

theorem operandName (h : SameDepths f f') (cfg : Settings) :
    f'.operandName cfg = f.operandName cfg := h.codes.sameRoster.operandName cfg

theorem assembled (h : SameDepths f f') (cfg : Settings) (p : ExtensiblePiece) :
    p.assembled cfg f' = p.assembled cfg f := by
  simp [ExtensiblePiece.assembled, h.operandName cfg, h.depths.glyph?]

end SameDepths

theorem sameDepths_changeAll (f : Font) {changes : List GlyphChange}
    (h : ∀ c ∈ changes, ∀ g, (c.change g).code = g.code ∧ (c.change g).depth = g.depth) :
    SameDepths f (f.changeAll changes) := by
  induction changes generalizing f with
  | nil => exact .refl f
  | cons c changes ih =>
      have hc := h c List.mem_cons_self
      have hfirst : SameDepths f (f.changeGlyph c.glyph c.change) :=
        ⟨sameGlyphs_changeGlyph f _ fun g => (hc g).1, sameGlyphs_changeGlyph f _ fun g => (hc g).2⟩
      exact hfirst.trans (ih _ fun c' hc' => h c' (List.mem_cons_of_mem _ hc'))

/-! ## chains and recipes -/

/-- An element of a list whose keys all differ has a key of its own. -/
theorem key_ne_of_nodup {α β : Type} {key : α → β} {before after : List α} {a : α}
    (h : ((before ++ a :: after).map key).Nodup) : ∀ b ∈ before ++ after, key b ≠ key a := by
  simp only [List.map_append, List.map_cons, List.nodup_middle, List.nodup_cons] at h
  rw [← List.map_append] at h
  exact fun b hb hkey => h.1 (List.mem_map.mpr ⟨b, hb, hkey⟩)

section Named

variable (name : CharRef → String)

/-- The name of the last variant. -/
def Charlist.last? (c : Charlist) : Option String := c.variants.getLast?.map name

/-- The chain without its last variant, if that has the given name. -/
def Charlist.without (label : String) (c : Charlist) : Charlist :=
  if c.last? name = some label then { c with variants := c.variants.dropLast } else c

/-- The base of the first chain that ends in the label of a recipe. -/
def owner? (chains : List Charlist) (x : Extensible) : Option String :=
  (chains.find? fun c => c.last? name == some (name x.label)).map (name ·.base)

/-- What is left of a chain behind some recipes. -/
def Charlist.shortened (chains : List Charlist) (xs : List Extensible) (c : Charlist) : Charlist :=
  xs.foldl (fun c x =>
    if owner? name chains x = some (name c.base) then c.without name (name x.label) else c) c

variable {name}

@[simp] theorem Charlist.base_without (label : String) (c : Charlist) :
    (c.without name label).base = c.base := by
  unfold without
  split <;> rfl

theorem owner?_eq_some_iff {chains : List Charlist} (hbases : (chains.map (name ·.base)).Nodup)
    {c : Charlist} (hc : c ∈ chains) {x : Extensible} :
    owner? name chains x = some (name c.base) ↔
      chains.find? (fun d => d.last? name == some (name x.label)) = some c := by
  unfold owner?
  constructor
  · intro h
    obtain ⟨d, hd, hbase⟩ := Option.map_eq_some_iff.mp h
    have hmem := List.mem_of_find?_eq_some hd
    rw [hd, List.inj_on_of_nodup_map hbases hmem hc hbase]
  · intro h
    rw [h, Option.map_some]

/-- A recipe that goes to the base of a chain has the name of its last variant. -/
theorem last?_of_owner {chains : List Charlist} (hbases : (chains.map (name ·.base)).Nodup)
    {c : Charlist} (hc : c ∈ chains) {x : Extensible}
    (h : owner? name chains x = some (name c.base)) : c.last? name = some (name x.label) := by
  have hfind := List.find?_some ((owner?_eq_some_iff hbases hc).mp h)
  simpa using hfind

/-- If a recipe with the name of the last variant of a chain does not go to its base, no
recipe does. -/
theorem owner?_ne_of_last {chains : List Charlist} (hbases : (chains.map (name ·.base)).Nodup)
    {c : Charlist} (hc : c ∈ chains) {x : Extensible} (hlast : c.last? name = some (name x.label))
    (h : owner? name chains x ≠ some (name c.base)) (y : Extensible) :
    owner? name chains y ≠ some (name c.base) := by
  intro hy
  have hlabel : name y.label = name x.label := by
    simpa [hlast] using (last?_of_owner hbases hc hy).symm
  rw [owner?, hlabel] at hy
  exact h hy

/-- A recipe goes to the first chain that ends in its label. -/
theorem owner?_iff_first {before after : List Charlist} {c : Charlist}
    (hbases : ((before ++ c :: after).map (name ·.base)).Nodup) {x : Extensible}
    (hlast : c.last? name = some (name x.label)) :
    owner? name (before ++ c :: after) x = some (name c.base) ↔
      ∀ d ∈ before, d.last? name ≠ some (name x.label) := by
  have hself : (c :: after).find? (fun d => d.last? name == some (name x.label)) = some c :=
    List.find?_cons_of_pos (by simp [hlast])
  have hother : c ∉ before := fun hc =>
    key_ne_of_nodup hbases c (List.mem_append_left _ hc) rfl
  rw [owner?_eq_some_iff hbases (by simp), List.find?_append, hself]
  cases hfind : before.find? fun d => d.last? name == some (name x.label) with
  | none => simpa using hfind
  | some d =>
      have hd := List.mem_of_find?_eq_some hfind
      have hdlast : d.last? name = some (name x.label) := by simpa using List.find?_some hfind
      have hne : d ≠ c := fun h => hother (h ▸ hd)
      constructor
      · intro h
        exact absurd (Option.some.inj h) hne
      · intro h
        exact absurd hdlast (h d hd)

/-! ### what is left of a chain -/

theorem Charlist.base_shortened (chains : List Charlist) (xs : List Extensible) (c : Charlist) :
    (c.shortened name chains xs).base = c.base := by
  unfold shortened
  induction xs generalizing c with
  | nil => rfl
  | cons x xs ih =>
      rw [List.foldl_cons, ih]
      split
      · exact base_without _ c
      · rfl

/-- A chain whose base no recipe goes to stays as it is. -/
theorem Charlist.shortened_of_not_owner {chains : List Charlist} {xs : List Extensible}
    {c : Charlist} (h : ∀ x ∈ xs, owner? name chains x ≠ some (name c.base)) :
    c.shortened name chains xs = c := by
  unfold shortened
  induction xs with
  | nil => rfl
  | cons x xs ih =>
      rw [List.foldl_cons, if_neg (h x List.mem_cons_self)]
      exact ih fun y hy => h y (List.mem_cons_of_mem _ hy)

theorem Charlist.shortened_append (chains : List Charlist) (xs ys : List Extensible)
    (c : Charlist) : c.shortened name chains (xs ++ ys) =
      (c.shortened name chains xs).shortened name chains ys := by
  simp [shortened]

/-- A chain whose base one recipe goes to loses its last variant. -/
theorem Charlist.shortened_of_owner {chains : List Charlist}
    (hbases : (chains.map (name ·.base)).Nodup) {xs : List Extensible}
    (hlabels : (xs.map (name ·.label)).Nodup) {c : Charlist} (hc : c ∈ chains) {x : Extensible}
    (hx : x ∈ xs) (h : owner? name chains x = some (name c.base)) :
    c.shortened name chains xs = { c with variants := c.variants.dropLast } := by
  obtain ⟨before, after, rfl⟩ := List.append_of_mem hx
  have hlast := last?_of_owner hbases hc h
  -- any other recipe has another label, and so another chain
  have hothers : ∀ y ∈ before ++ after, owner? name chains y ≠ some (name c.base) := by
    intro y hy hyowner
    have hsame : name y.label = name x.label := by
      simpa [hlast] using (last?_of_owner hbases hc hyowner).symm
    exact key_ne_of_nodup hlabels y hy hsame
  have hbefore : c.shortened name chains before = c :=
    shortened_of_not_owner fun y hy => hothers y (List.mem_append_left _ hy)
  have hwithout : c.without name (name x.label) = { c with variants := c.variants.dropLast } := by
    rw [without, if_pos hlast]
  have hself : c.shortened name chains (x :: after) =
      (c.without name (name x.label)).shortened name chains after := by
    simp [shortened, h]
  rw [shortened_append, hbefore, hself, hwithout]
  exact shortened_of_not_owner fun y hy => hothers y (List.mem_append_right _ hy)

end Named

/-! ## detaching a variant -/

theorem value_withoutLast (cfg : Settings) (f : Font) (label : String) (c : Charlist) :
    (c.withoutLast cfg f label).value = c.without (f.operandName cfg) label := by
  unfold Charlist.withoutLast Charlist.without Charlist.last? Font.operandName
  cases c.variants.getLast? with
  | none => rfl
  | some last =>
      dsimp only
      rw [Noted.value_bind]
      by_cases h : (f.resolve cfg.generalizedCode last).value = label <;> simp [h]

/-- A search ends at the first element that passes, or nowhere. -/
theorem firstThat_cases {α : Type} (test : α → Noted Bool) (as : List α) :
    ((firstThat test as).value = none ∧ ∀ a ∈ as, (test a).value = false) ∨
      ∃ before a after, as = before ++ a :: after ∧ (test a).value = true ∧
        (firstThat test as).value = some (before.length, a) := by
  induction as with
  | nil => exact .inl ⟨rfl, by simp⟩
  | cons a as ih =>
      cases ha : (test a).value with
      | true => exact .inr ⟨[], a, as, rfl, ha, by simp [firstThat, ha]⟩
      | false =>
          rcases ih with ⟨hnone, hall⟩ | ⟨before, b, after, rfl, hb, hfound⟩
          · exact .inl ⟨by simp [firstThat, ha, hnone], by simpa [ha] using hall⟩
          · exact .inr ⟨a :: before, b, after, rfl, hb, by simp [firstThat, ha, hfound]⟩

/-- With different bases, one chain at most is concerned. -/
theorem value_detachVariant (cfg : Settings) (f : Font) (base label : String)
    {cs : List Charlist} (hbases : (cs.map (f.operandName cfg ·.base)).Nodup) :
    (detachVariant cfg f base label cs).value = cs.map fun c =>
      if f.operandName cfg c.base = base then c.without (f.operandName cfg) label else c := by
  let test (c : Charlist) : Noted Bool :=
    return (← f.resolve cfg.generalizedCode c.base) == base
  have htest : ∀ c, (test c).value = (f.operandName cfg c.base == base) := fun _ => rfl
  show (firstThat test cs >>= _).value = _
  rw [Noted.value_bind]
  rcases firstThat_cases test cs with ⟨hnone, hall⟩ | ⟨before, c, after, rfl, hc, hfound⟩
  · have hid : ∀ c ∈ cs, (if f.operandName cfg c.base = base then
        c.without (f.operandName cfg) label else c) = id c :=
      fun c hc => if_neg (by simpa [htest] using hall c hc)
    rw [hnone, List.map_congr_left hid, List.map_id]
    rfl
  · have hbase : f.operandName cfg c.base = base := by simpa [htest] using hc
    have hid : ∀ d ∈ before ++ after, (if f.operandName cfg d.base = base then
        d.without (f.operandName cfg) label else d) = id d :=
      fun d hd => if_neg (hbase ▸ key_ne_of_nodup hbases d hd)
    have hbefore := List.map_congr_left fun d hd => hid d (List.mem_append_left after hd)
    have hafter := List.map_congr_left fun d hd => hid d (List.mem_append_right before hd)
    rw [hfound]
    dsimp only
    rw [Noted.value_bind, Noted.value_pure, value_withoutLast, List.map_append, List.map_cons,
      if_pos hbase, hbefore, hafter]
    simp

/-! ## all recipes and all chains -/

/-- The last variant of a chain, with its base. -/
def Charlist.lastVariant? (c : Charlist) : Option (CharRef × CharRef) :=
  c.variants.getLast?.map fun v => (v, c.base)

/-- Among the last variants a label is looked up as it is among the chains. -/
theorem lookup_variantBases (cfg : Settings) (f : Font) (chains : List Charlist) (x : Extensible) :
    (variantBases cfg f (chains.filterMap (·.lastVariant?))).value.lookup
      (f.operandName cfg x.label) = owner? (f.operandName cfg) chains x := by
  have hvalue : (variantBases cfg f (chains.filterMap (·.lastVariant?))).value =
      (chains.filterMap (·.lastVariant?)).map fun p =>
        (f.operandName cfg p.1, f.operandName cfg p.2) := value_mapM _ _
  rw [hvalue, owner?]
  induction chains with
  | nil => rfl
  | cons c chains ih =>
      cases hlast : c.variants.getLast? with
      | none =>
          have hnone : c.last? (f.operandName cfg) = none := by simp [Charlist.last?, hlast]
          simpa [Charlist.lastVariant?, hlast, hnone] using ih (value_mapM _ _)
      | some v =>
          have hsome : c.last? (f.operandName cfg) = some (f.operandName cfg v) := by
            simp [Charlist.last?, hlast]
          by_cases h : f.operandName cfg v = f.operandName cfg x.label
          · simp [Charlist.lastVariant?, hlast, hsome, h]
          · have h' : (f.operandName cfg x.label == f.operandName cfg v) = false :=
              beq_false_of_ne (Ne.symm h)
            simpa [Charlist.lastVariant?, hlast, hsome, h, h', List.lookup_cons] using
              ih (value_mapM _ _)

/-- A recipe puts its pieces into one glyph. -/
def Extensible.glyphChange (cfg : Settings) (f : Font) (chains : List Charlist) (x : Extensible) :
    GlyphChange :=
  let name := f.operandName cfg
  ⟨(owner? name chains x).getD (name x.label),
    fun g => { g with verticalComponents := x.pieces.map (·.assembled cfg f) }⟩

/-- A chain puts its variants into its base. -/
def Charlist.glyphChange (cfg : Settings) (f : Font) (c : Charlist) : GlyphChange :=
  let name := f.operandName cfg
  ⟨name c.base, fun g => { g with verticalVariants := c.variants.map name }⟩

/-- One recipe.  The names and depths are those of the font that the recipes started with. -/
theorem value_extensible {cfg : Settings} {f f' : Font} (h : SameDepths f f')
    {chains cs : List Charlist} (hbases : (cs.map (f.operandName cfg ·.base)).Nodup)
    {bases : List (String × String)} (x : Extensible)
    (howner : bases.lookup (f.operandName cfg x.label) = owner? (f.operandName cfg) chains x) :
    (x.build cfg bases (cs, f')).value =
      (cs.map (·.shortened (f.operandName cfg) chains [x]),
        f'.changeAll [x.glyphChange cfg f chains]) := by
  have hname : f'.operandName cfg = f.operandName cfg := h.operandName cfg
  have hlabel : (f'.resolve cfg.generalizedCode x.label).value = f.operandName cfg x.label :=
    congrFun hname x.label
  have hpieces : (x.pieces.mapM (ExtensiblePiece.component cfg f')).value =
      x.pieces.map (·.assembled cfg f) := by
    rw [value_mapM]
    exact List.map_congr_left fun p _ => h.assembled cfg p
  unfold Extensible.build
  dsimp only
  rw [Noted.value_bind, hlabel, howner]
  cases hbase : owner? (f.operandName cfg) chains x with
  | none =>
      have hid : cs.map (·.shortened (f.operandName cfg) chains [x]) = cs.map id :=
        List.map_congr_left fun c _ => by simp [Charlist.shortened, hbase]
      rw [hid, List.map_id]
      simp [Noted.value_bind, hpieces, Font.changeOrNote, Font.changeAll, Extensible.glyphChange,
        hbase]
  | some base =>
      have hdetached := value_detachVariant cfg f' base (f.operandName cfg x.label)
        (hname.symm ▸ hbases)
      rw [hname] at hdetached
      have hshortened : cs.map (·.shortened (f.operandName cfg) chains [x]) = cs.map fun c =>
          if f.operandName cfg c.base = base then
            c.without (f.operandName cfg) (f.operandName cfg x.label)
          else c :=
        List.map_congr_left fun c _ => by simp [Charlist.shortened, hbase, eq_comm]
      rw [hshortened]
      simp [Noted.value_bind, hdetached, hpieces, Font.changeOrNote, Font.changeAll,
        Extensible.glyphChange, hbase]

/-- All recipes. -/
theorem value_extensibles {cfg : Settings} {f f' : Font} (h : SameDepths f f')
    {chains cs : List Charlist} (hbases : (cs.map (f.operandName cfg ·.base)).Nodup)
    {bases : List (String × String)} {xs : List Extensible}
    (howner : ∀ x ∈ xs,
      bases.lookup (f.operandName cfg x.label) = owner? (f.operandName cfg) chains x) :
    (xs.foldlM (Extensible.build cfg bases) (cs, f')).value =
      (cs.map (·.shortened (f.operandName cfg) chains xs),
        f'.changeAll (xs.map (·.glyphChange cfg f chains))) := by
  rw [value_foldlM]
  induction xs generalizing cs f' with
  | nil =>
      show (cs, f') = (cs.map id, f')
      rw [List.map_id]
  | cons x xs ih =>
      have hkept : (cs.map (·.shortened (f.operandName cfg) chains [x])).map
          (f.operandName cfg ·.base) = cs.map (f.operandName cfg ·.base) := by
        simp [Function.comp_def, Charlist.base_shortened]
      have hdepths : SameDepths f (f'.changeAll [x.glyphChange cfg f chains]) :=
        h.trans (sameDepths_changeAll f' (by simp [Extensible.glyphChange]))
      have hrest := ih hdepths (hkept ▸ hbases) fun y hy => howner y (List.mem_cons_of_mem _ hy)
      rw [List.foldl_cons, value_extensible h hbases x (howner x List.mem_cons_self), hrest,
        List.map_map]
      simp only [Function.comp_def, ← Charlist.shortened_append, List.singleton_append]
      rfl

/-- All chains. -/
theorem value_charlists {cfg : Settings} {f f' : Font} (h : SameDepths f f')
    (cs : List Charlist) : (cs.foldlM (Charlist.build cfg) f').value =
      f'.changeAll (cs.map (·.glyphChange cfg f)) := by
  rw [value_foldlM]
  induction cs generalizing f' with
  | nil => rfl
  | cons c cs ih =>
      have hname : f'.operandName cfg = f.operandName cfg := h.operandName cfg
      have hstep : (c.build cfg f').value = f'.changeAll [c.glyphChange cfg f] := by
        have hvariants : (c.variants.mapM (f'.resolve cfg.generalizedCode)).value =
            c.variants.map (f.operandName cfg) := by
          rw [value_mapM, ← hname]
          rfl
        have hbase : (f'.resolve cfg.generalizedCode c.base).value = f.operandName cfg c.base :=
          congrFun hname c.base
        simp [Charlist.build, hvariants, hbase, Font.changeOrNote, Font.changeAll,
          Charlist.glyphChange]
      have hdepths : SameDepths f (f'.changeAll [c.glyphChange cfg f]) :=
        h.trans (sameDepths_changeAll f' (by simp [Charlist.glyphChange]))
      rw [List.foldl_cons, hstep, ih hdepths]
      rfl

/-- The changes of all recipes, and behind them those of what is left of the chains. -/
def variantChanges (cfg : Settings) (f : Font) (chains : List Charlist) (xs : List Extensible) :
    List GlyphChange :=
  xs.map (·.glyphChange cfg f chains) ++
    chains.map fun c => (c.shortened (f.operandName cfg) chains xs).glyphChange cfg f

/-- With different bases, extensible characters and chains are changes of glyphs, in order. -/
theorem value_buildVariants (cfg : Settings) {t : Tables} (f : Font)
    (hlasts : t.lastVariants = t.charlists.filterMap (·.lastVariant?))
    (hbases : (t.charlists.map (f.operandName cfg ·.base)).Nodup) :
    (buildVariants cfg t f).value =
      f.changeAll (variantChanges cfg f t.charlists t.extensibles) := by
  have hextensibles := value_extensibles (.refl f) hbases fun x (_ : x ∈ t.extensibles) =>
    lookup_variantBases cfg f t.charlists x
  have hdepths : SameDepths f (f.changeAll (t.extensibles.map (·.glyphChange cfg f t.charlists))) :=
    sameDepths_changeAll f (by simp [Extensible.glyphChange])
  rw [buildVariants, Noted.value_bind, buildExtensibles, Noted.value_bind, hlasts, hextensibles]
  dsimp only
  rw [value_charlists hdepths, variantChanges, Font.changeAll_append, List.map_map]
  rfl

/-! ## values of the bases -/

section Bases

variable {cfg : Settings} {chains before after : List Charlist} {xs : List Extensible}
  {c : Charlist}

/-- The base of a chain has the variants that are left of it. -/
theorem verticalVariants_changeAll (f : Font)
    (hbases : (chains.map (f.operandName cfg ·.base)).Nodup)
    (hchains : chains = before ++ c :: after) :
    ((f.changeAll (variantChanges cfg f chains xs)).glyph? (f.operandName cfg c.base)).map
        (·.verticalVariants) =
      (f.glyph? (f.operandName cfg c.base)).map fun _ =>
        (c.shortened (f.operandName cfg) chains xs).variants.map (f.operandName cfg) := by
  let change (d : Charlist) := (d.shortened (f.operandName cfg) chains xs).glyphChange cfg f
  have hglyph : ∀ d, (change d).glyph = f.operandName cfg d.base := fun d => by
    simp [change, Charlist.glyphChange, Charlist.base_shortened]
  have hafter : ∀ d ∈ after, (change d).glyph ≠ (change c).glyph := by
    intro d hd
    rw [hglyph, hglyph]
    exact key_ne_of_nodup (hchains ▸ hbases) d (List.mem_append_right _ hd)
  have hsplit : variantChanges cfg f chains xs =
      (xs.map (·.glyphChange cfg f chains) ++ before.map change) ++ change c :: after.map change := by
    have hmap : chains.map change = before.map change ++ change c :: after.map change := by
      rw [← List.map_cons, ← List.map_append, ← hchains]
    rw [List.append_assoc, ← hmap]
    rfl
  rw [hsplit, ← hglyph c]
  refine Font.get_changeAll_of_last _ f _ (fun _ => rfl) fun _ hchange hsame => ?_
  obtain ⟨d, hd, rfl⟩ := List.mem_map.mp hchange
  exact absurd hsame (hafter d hd)

/-- A glyph that a recipe goes to has the pieces of that recipe. -/
theorem verticalComponents_changeAll (f : Font)
    (hbases : (chains.map (f.operandName cfg ·.base)).Nodup)
    (hlabels : (xs.map (f.operandName cfg ·.label)).Nodup)
    (hapart : ∀ x ∈ xs, f.operandName cfg x.label ≠ f.operandName cfg c.base)
    (hc : c ∈ chains) {x : Extensible} (hx : x ∈ xs)
    (howner : owner? (f.operandName cfg) chains x = some (f.operandName cfg c.base)) :
    ((f.changeAll (variantChanges cfg f chains xs)).glyph? (f.operandName cfg c.base)).map
        (·.verticalComponents) =
      (f.glyph? (f.operandName cfg c.base)).map fun _ => x.pieces.map (·.assembled cfg f) := by
  obtain ⟨xbefore, xafter, rfl⟩ := List.append_of_mem hx
  let change (y : Extensible) := y.glyphChange cfg f chains
  have hglyph : (change x).glyph = f.operandName cfg c.base := by
    simp [change, Extensible.glyphChange, howner]
  have hafter : ∀ y ∈ xafter, (change y).glyph ≠ f.operandName cfg c.base := by
    intro y hy hsame
    have hy' : y ∈ xbefore ++ xafter := List.mem_append_right _ hy
    have hmem : y ∈ xbefore ++ x :: xafter := by simp [hy]
    cases hyowner : owner? (f.operandName cfg) chains y with
    | none => exact hapart y hmem (by simpa [change, Extensible.glyphChange, hyowner] using hsame)
    | some base =>
        have hbase : base = f.operandName cfg c.base := by
          simpa [change, Extensible.glyphChange, hyowner] using hsame
        have hylast := last?_of_owner hbases hc (hbase ▸ hyowner)
        rw [last?_of_owner hbases hc howner] at hylast
        exact key_ne_of_nodup hlabels y hy' (Option.some.inj hylast).symm
  rw [variantChanges, List.map_append, List.map_cons, List.append_assoc, List.cons_append,
    ← hglyph]
  refine Font.get_changeAll_of_last _ f _ (fun _ => rfl) fun _ hchange hsame => ?_
  rcases List.mem_append.mp hchange with hchange | hchange
  · obtain ⟨y, hy, rfl⟩ := List.mem_map.mp hchange
    exact absurd (hsame.trans hglyph) (hafter y hy)
  · obtain ⟨d, -, rfl⟩ := List.mem_map.mp hchange
    exact fun _ => rfl

end Bases

end FontTrace
