import FontTrace.Proofs.Replay.Step

/-!
# FontTrace.Proofs.Picture.Algebra

The algebra of picture variables.  An operation looks up some pictures, of which
its target may be one, and puts a picture in the place of its target.

* `PictureOp.perform_addPicture`, `PictureOp.assignAll_eq` — commands that are operations;
* `PictureOp.run_of_missing`, `PictureOp.run_of_present` — it fails at the first
  picture that is not there, or changes the target alone;
* `PictureOp.get_performAll_of_not_target`, `PictureOp.extends_performAll` — what a
  sequence of operations leaves as it is, and what it only adds to;
* `picture_algebra` — the laws, in every state.
-/

namespace FontTrace

variable {σ : Type}

/-! ## operations -/

/-- An operation on picture variables. -/
inductive PictureOp where
  | assign (target source : String)
  | negateAssign (target source : String)
  | accumulate (target source : String) (reversed : Bool)
  | accumulateTransformed (target source : String) (m : Affine) (reversed : Bool)
  | append (target : String) (contours : Outline)
deriving DecidableEq, Repr

namespace PictureOp

/-- The picture that changes. -/
def target : PictureOp → String
  | .assign target _ | .negateAssign target _ | .accumulate target _ _
  | .accumulateTransformed target _ _ _ | .append target _ => target

/-- The pictures that have to be there, in the order in which they are looked up. -/
def operands : PictureOp → List String
  | .assign _ source | .negateAssign _ source => [source]
  | .accumulate target source _ | .accumulateTransformed target source _ _ => [target, source]
  | .append target _ => [target]

/-- Whether the target keeps what it has. -/
def adds : PictureOp → Bool
  | .assign _ _ | .negateAssign _ _ => false
  | .accumulate _ _ _ | .accumulateTransformed _ _ _ _ | .append _ _ => true

/-- The pictures after an operation. -/
def run (ps : Pictures) : PictureOp → Except Skip Pictures
  | .assign target source => Pictures.assign ps target source
  | .negateAssign target source => Pictures.negateAssign ps target source
  | .accumulate target source reversed =>
    Pictures.accumulate ps target source Affine.identity reversed
  | .accumulateTransformed target source m reversed =>
    Pictures.accumulate ps target source m reversed
  | .append target contours => Pictures.append ps target contours

/-- An operation as a step of a replay. -/
def perform (op : PictureOp) : State σ → Noted (State σ × Option Skip) :=
  atomically (rearrange op.run)

/-- One operation after the other; those that fail are passed over. -/
def performAll (ops : List PictureOp) (s : State σ) : Noted (State σ) :=
  ops.foldlM (fun s op => do return (← op.perform s).1) s

/-- The first of the pictures that have to be there and are not. -/
def missing? (op : PictureOp) (ps : Pictures) : Option String :=
  op.operands.find? fun name => !Table.has ps name

/-- The operations of an equation, one for each of its targets. -/
def ofEquation (e : PictureEquation) : List PictureOp :=
  e.targets.map fun target =>
    if e.negated then .negateAssign target e.source else .assign target e.source

/-! ### commands -/

theorem perform_addPicture (e : Engine σ) (cfg : Settings) (target source : String) (m : Affine)
    (reversed : Bool) (s : State σ) :
    (FontTrace.perform e cfg (.picture (.addPicture target source m reversed)) s).value =
      ((PictureOp.accumulateTransformed target source m reversed).perform s).value := by
  show (performPicture e cfg _ s).value = _
  rw [performPicture, Noted.value_bind]
  let op := PictureOp.accumulateTransformed target source m reversed
  show ((op.perform s).value.1, (op.perform s).value.2 <|> none) = (op.perform s).value
  rcases (op.perform s).value with ⟨s', skip⟩
  cases skip <;> rfl

theorem assignAll_eq (e : PictureEquation) (ps : Pictures) :
    assignAll e ps = (ofEquation e).foldlM run ps := by
  rw [assignAll, ofEquation, List.foldlM_map]
  congr 1
  funext ps target
  cases e.negated <;> rfl

end PictureOp

/-! ## look-ups -/

theorem Pictures.get_of_has {ps : Pictures} {name : String} (h : Table.has ps name = true) :
    ∃ p, Pictures.get ps name = .ok p := by
  obtain ⟨p, hp⟩ := Option.isSome_iff_exists.mp h
  exact ⟨p, by rw [Pictures.get, hp]⟩

theorem Pictures.get_of_not_has {ps : Pictures} {name : String} (h : Table.has ps name = false) :
    Pictures.get ps name = .error (.unknownPicture name) := by
  rw [Pictures.get, Option.not_isSome_iff_eq_none.mp (Bool.eq_false_iff.mp h)]

/-! ## pictures that grow -/

/-- What a picture is after contours were added to it. -/
structure Picture.Extends (p p' : Picture) : Prop where
  outline : p.outline <+: p'.outline
  namedPoints : p'.namedPoints = p.namedPoints

namespace Picture.Extends

theorem refl (p : Picture) : p.Extends p := ⟨List.prefix_rfl, rfl⟩

theorem trans {p p' p'' : Picture} (h : p.Extends p') (h' : p'.Extends p'') : p.Extends p'' :=
  ⟨h.outline.trans h'.outline, h'.namedPoints.trans h.namedPoints⟩

/-- What was found at a place is still there. -/
theorem pointAt? {p p' : Picture} (h : p.Extends p') {place : Nat × Nat} {found : Contour × Nat}
    (hplace : p.pointAt? place = some found) : p'.pointAt? place = some found := by
  unfold Picture.pointAt? at hplace ⊢
  cases hc : p.outline[place.1]? with
  | none =>
      rw [hc] at hplace
      cases hplace
  | some c =>
      rw [hc] at hplace
      obtain ⟨ink, hink⟩ := h.outline
      rw [← hink, List.getElem?_append_left (List.getElem?_eq_some_iff.mp hc).1, hc]
      exact hplace

end Picture.Extends

/-- A picture adds one contour for each of its own. -/
theorem Pictures.length_contribution (p : Picture) (m : Affine) (reversed : Bool) :
    (Pictures.Picture.contribution p m reversed).length = p.outline.length := by
  unfold Pictures.Picture.contribution
  cases reversed <;> dsimp only <;> split <;> simp [Outline.reversed, Outline.transform]

/-! ## one operation -/

namespace PictureOp

theorem run_append_of_get {ps : Pictures} {target : String} {p : Picture}
    (hp : Pictures.get ps target = .ok p) (contours : Outline) :
    (append target contours).run ps =
      .ok (Table.put ps target { p with outline := p.outline ++ contours }) := by
  show (Pictures.get ps target).map _ = _
  rw [hp]
  rfl

theorem run_accumulate_of_get {ps : Pictures} {target source : String} {p q : Picture}
    (hp : Pictures.get ps target = .ok p) (hq : Pictures.get ps source = .ok q) (m : Affine)
    (reversed : Bool) :
    (accumulateTransformed target source m reversed).run ps =
      .ok (Table.put ps target
        { p with outline := p.outline ++ Pictures.Picture.contribution q m reversed }) := by
  show Pictures.accumulate ps target source m reversed = _
  rw [Pictures.accumulate, hp, hq]
  exact run_append_of_get hp _

/-- Reading fails at the first picture that is not there. -/
theorem run_of_missing {op : PictureOp} {ps : Pictures} {name : String}
    (h : op.missing? ps = some name) : op.run ps = .error (.unknownPicture name) := by
  have hfirst {source : String} (h : [source].find? (fun name => !Table.has ps name) = some name) :
      Pictures.get ps source = .error (.unknownPicture name) := by
    cases hs : Table.has ps source <;> simp [hs] at h
    exact h ▸ Pictures.get_of_not_has hs
  have hpair {target source : String} (m : Affine) (reversed : Bool)
      (h : [target, source].find? (fun name => !Table.has ps name) = some name) :
      Pictures.accumulate ps target source m reversed = .error (.unknownPicture name) := by
    unfold Pictures.accumulate
    cases ht : Table.has ps target with
    | false =>
        simp only [List.find?_cons, ht, Bool.not_false, Option.some.injEq] at h
        rw [Pictures.get_of_not_has ht, h]
        rfl
    | true =>
        rw [List.find?_cons_of_neg (by simp [ht])] at h
        obtain ⟨p, hp⟩ := Pictures.get_of_has ht
        rw [hp, hfirst h]
        rfl
  cases op with
  | assign target source =>
      show (Pictures.get ps source).map _ = _
      rw [hfirst h]
      rfl
  | negateAssign target source =>
      show (Pictures.get ps source).map _ = _
      rw [hfirst h]
      rfl
  | accumulate target source reversed => exact hpair _ _ h
  | accumulateTransformed target source m reversed => exact hpair _ _ h
  | append target contours =>
      show (Pictures.get ps target).map _ = _
      rw [hfirst h]
      rfl

/-- With all of them there, the target changes, and nothing else; a target that is
added to has what it had, in front. -/
theorem run_of_present {op : PictureOp} {ps : Pictures} (h : op.missing? ps = none) :
    ∃ p', op.run ps = .ok (Table.put ps op.target p') ∧
      (op.adds = true → ∃ p, Pictures.get ps op.target = .ok p ∧ p.Extends p') := by
  have hthere : ∀ name ∈ op.operands, ∃ p, Pictures.get ps name = .ok p := by
    intro name hname
    have hhas := List.find?_eq_none.mp h name hname
    exact Pictures.get_of_has (by simpa using hhas)
  cases op with
  | assign target source =>
      obtain ⟨p, hp⟩ := hthere source (by simp [operands])
      refine ⟨p, ?_, fun h => by cases h⟩
      show (Pictures.get ps source).map _ = _
      rw [hp]
      rfl
  | negateAssign target source =>
      obtain ⟨p, hp⟩ := hthere source (by simp [operands])
      refine ⟨p.negated, ?_, fun h => by cases h⟩
      show (Pictures.get ps source).map _ = _
      rw [hp]
      rfl
  | accumulate target source reversed =>
      obtain ⟨p, hp⟩ := hthere target (by simp [operands])
      obtain ⟨q, hq⟩ := hthere source (by simp [operands])
      exact ⟨_, run_accumulate_of_get hp hq _ reversed, fun _ => ⟨p, hp, List.prefix_append _ _, rfl⟩⟩
  | accumulateTransformed target source m reversed =>
      obtain ⟨p, hp⟩ := hthere target (by simp [operands])
      obtain ⟨q, hq⟩ := hthere source (by simp [operands])
      exact ⟨_, run_accumulate_of_get hp hq m reversed, fun _ => ⟨p, hp, List.prefix_append _ _, rfl⟩⟩
  | append target contours =>
      obtain ⟨p, hp⟩ := hthere target (by simp [operands])
      exact ⟨_, run_append_of_get hp contours, fun _ => ⟨p, hp, List.prefix_append _ _, rfl⟩⟩

theorem value_perform (op : PictureOp) (s : State σ) :
    (op.perform s).value = match op.run s.pictures with
      | .ok ps => (s.withPictures ps, none)
      | .error k => (s, some k) := by
  rw [perform, value_atomically, rearrange, Noted.value_pure]
  cases op.run s.pictures <;> rfl

theorem perform_of_missing {op : PictureOp} {s : State σ} {name : String}
    (h : op.missing? s.pictures = some name) :
    (op.perform s).value = (s, some (.unknownPicture name)) := by
  rw [value_perform, run_of_missing h]

theorem perform_of_run {op : PictureOp} {s : State σ} {ps : Pictures}
    (h : op.run s.pictures = .ok ps) : (op.perform s).value = (s.withPictures ps, none) := by
  rw [value_perform, h]

theorem perform_of_present {op : PictureOp} {s : State σ} (h : op.missing? s.pictures = none) :
    ∃ p', (op.perform s).value =
        (s.withPictures (Table.put s.pictures op.target p'), none) ∧
      (op.adds = true → ∃ p, Pictures.get s.pictures op.target = .ok p ∧ p.Extends p') := by
  obtain ⟨p', hrun, hadds⟩ := run_of_present h
  exact ⟨p', perform_of_run hrun, hadds⟩

theorem missing?_isSome_iff (op : PictureOp) (ps : Pictures) :
    (op.missing? ps).isSome = true ↔ ∃ name ∈ op.operands, Table.has ps name = false := by
  simp [missing?]

/-- An operation fails or not, and in no other way. -/
theorem perform_cases (op : PictureOp) (s : State σ) :
    (∃ name, op.missing? s.pictures = some name ∧
      (op.perform s).value = (s, some (.unknownPicture name))) ∨
    ∃ p', op.missing? s.pictures = none ∧
      (op.perform s).value = (s.withPictures (Table.put s.pictures op.target p'), none) := by
  cases h : op.missing? s.pictures with
  | some name => exact .inl ⟨name, rfl, perform_of_missing h⟩
  | none =>
      obtain ⟨p', hp', -⟩ := perform_of_present h
      exact .inr ⟨p', rfl, hp'⟩

/-- All pictures but the target are what they were. -/
theorem get_perform_of_ne (op : PictureOp) (s : State σ) {other : String} (h : other ≠ op.target) :
    Pictures.get (op.perform s).value.1.pictures other = Pictures.get s.pictures other := by
  rcases op.perform_cases s with ⟨name, -, hs⟩ | ⟨p', -, hs⟩
  · rw [hs]
  · rw [hs]
    show Pictures.get (Table.put s.pictures op.target p') other = _
    rw [Pictures.get_put, if_neg h.symm]

/-- A picture that is at most added to has all it had. -/
theorem extends_perform (op : PictureOp) (s : State σ) {name : String} {p : Picture}
    (hadds : op.target = name → op.adds = true) (hp : Pictures.get s.pictures name = .ok p) :
    ∃ p', Pictures.get (op.perform s).value.1.pictures name = .ok p' ∧ p.Extends p' := by
  by_cases hname : op.target = name
  · subst hname
    cases h : op.missing? s.pictures with
    | some missing => exact ⟨p, by rw [perform_of_missing h, hp], .refl p⟩
    | none =>
        obtain ⟨p', hs, hextends⟩ := perform_of_present h
        obtain ⟨q, hq, hq'⟩ := hextends (hadds rfl)
        cases hp.symm.trans hq
        refine ⟨p', ?_, hq'⟩
        rw [hs]
        show Pictures.get (Table.put s.pictures op.target p') op.target = _
        rw [Pictures.get_put, if_pos rfl]
  · exact ⟨p, by rw [op.get_perform_of_ne s (Ne.symm hname), hp], .refl p⟩

/-! ## sequences of operations -/

theorem performAll_cons (op : PictureOp) (ops : List PictureOp) (s : State σ) :
    (performAll (op :: ops) s).value = (performAll ops (op.perform s).value.1).value := by
  rw [performAll, List.foldlM_cons, Noted.value_bind, Noted.value_bind]
  rfl

/-- Nothing but pictures ever changes. -/
theorem exists_performAll (ops : List PictureOp) (s : State σ) :
    ∃ ps, (performAll ops s).value = s.withPictures ps := by
  induction ops generalizing s with
  | nil => exact ⟨s.pictures, rfl⟩
  | cons op ops ih =>
      rw [performAll_cons]
      obtain ⟨ps, hps⟩ := ih (op.perform s).value.1
      refine ⟨ps, ?_⟩
      rw [hps]
      rcases op.perform_cases s with ⟨name, -, hs⟩ | ⟨p', -, hs⟩
      · rw [hs]
      · rw [hs]
        rfl

theorem get_performAll_of_not_target (ops : List PictureOp) (s : State σ) {name : String}
    (h : ∀ op ∈ ops, name ≠ op.target) :
    Pictures.get (performAll ops s).value.pictures name = Pictures.get s.pictures name := by
  induction ops generalizing s with
  | nil => rfl
  | cons op ops ih =>
      rw [performAll_cons, ih _ fun op hop => h op (List.mem_cons_of_mem _ hop),
        op.get_perform_of_ne s (h op List.mem_cons_self)]

theorem extends_performAll (ops : List PictureOp) (s : State σ) {name : String} {p : Picture}
    (hadds : ∀ op ∈ ops, op.target = name → op.adds = true)
    (hp : Pictures.get s.pictures name = .ok p) :
    ∃ p', Pictures.get (performAll ops s).value.pictures name = .ok p' ∧ p.Extends p' := by
  induction ops generalizing s p with
  | nil => exact ⟨p, hp, .refl p⟩
  | cons op ops ih =>
      obtain ⟨q, hq, hpq⟩ := op.extends_perform s (hadds op List.mem_cons_self) hp
      obtain ⟨p', hp', hqp'⟩ := ih _ (fun op hop => hadds op (List.mem_cons_of_mem _ hop)) hq
      exact ⟨p', by rw [performAll_cons, hp'], hpq.trans hqp'⟩

end PictureOp

/-! ## laws -/

/-- The laws of picture variables in a state. -/
structure PictureAlgebra (s : State σ) : Prop where
  /-- An operation fails if and only if a picture is missing. -/
  fails_iff : ∀ op : PictureOp, (∃ reason, (op.perform s).value.2 = some reason) ↔
    ∃ name ∈ op.operands, Table.has s.pictures name = false
  /-- Then nothing changes, and the first that is missing is named. -/
  failure : ∀ (op : PictureOp) (reason : Skip), (op.perform s).value.2 = some reason →
    (op.perform s).value.1 = s ∧
      ∃ name, op.missing? s.pictures = some name ∧ reason = .unknownPicture name
  /-- Otherwise the target changes, and nothing else. -/
  success : ∀ op : PictureOp, (op.perform s).value.2 = none →
    (∃ p', (op.perform s).value.1 = s.withPictures (Table.put s.pictures op.target p')) ∧
      ∀ other ≠ op.target,
        Pictures.get (op.perform s).value.1.pictures other = Pictures.get s.pictures other
  /-- Two negations give back the picture of before, whatever the three names are. -/
  negation : ∀ (p q r : String) (pic : Picture), Pictures.get s.pictures p = .ok pic →
    ∃ s' s'', ((PictureOp.negateAssign q p).perform s).value = (s', none) ∧
      ((PictureOp.negateAssign r q).perform s').value = (s'', none) ∧
      Pictures.get s''.pictures r = .ok pic
  /-- One contour comes behind those of the target for each contour that the source had. -/
  accumulation : ∀ (dst src : String) (m : Affine) (reversed : Bool) (op : PictureOp),
    op = .accumulate dst src reversed ∧ m = Affine.identity ∨
      op = .accumulateTransformed dst src m reversed →
    ∀ p q, Pictures.get s.pictures dst = .ok p → Pictures.get s.pictures src = .ok q →
    (Pictures.Picture.contribution q m reversed).length = q.outline.length ∧
    ∃ s', (op.perform s).value = (s', none) ∧
      Pictures.get s'.pictures dst =
        .ok { p with outline := p.outline ++ Pictures.Picture.contribution q m reversed }
  /-- A picture that no operation of a sequence is about stays what it is. -/
  untouched : ∀ (ops : List PictureOp) (name : String), (∀ op ∈ ops, name ≠ op.target) →
    Pictures.get (PictureOp.performAll ops s).value.pictures name = Pictures.get s.pictures name
  /-- A named point of a picture that is only added to stays where it is. -/
  points : ∀ (ops : List PictureOp) (name : String) (p : Picture),
    (∀ op ∈ ops, op.target = name → op.adds = true) → Pictures.get s.pictures name = .ok p →
    ∃ p', Pictures.get (PictureOp.performAll ops s).value.pictures name = .ok p' ∧
      p.outline <+: p'.outline ∧
      ∀ point place, Table.find? p.namedPoints point = some place →
        Table.find? p'.namedPoints point = some place ∧
          ∀ found, p.pointAt? place = some found → p'.pointAt? place = some found

theorem perform_negateAssign_of_get {s : State σ} {p : String} {pic : Picture}
    (h : Pictures.get s.pictures p = .ok pic) (q : String) :
    ((PictureOp.negateAssign q p).perform s).value =
      (s.withPictures (Table.put s.pictures q pic.negated), none) := by
  refine PictureOp.perform_of_run ?_
  show (Pictures.get s.pictures p).map _ = _
  rw [h]
  rfl

/-- The laws hold in every state that a replay may be in. -/
theorem picture_algebra (s : State σ) : PictureAlgebra s where
  fails_iff op := by
    rw [← op.missing?_isSome_iff]
    rcases op.perform_cases s with ⟨name, hmissing, hs⟩ | ⟨p', hmissing, hs⟩
    · simp [hmissing, hs]
    · simp [hmissing, hs]
  failure op reason h := by
    rcases op.perform_cases s with ⟨name, hmissing, hs⟩ | ⟨p', -, hs⟩
    · rw [hs] at h ⊢
      exact ⟨rfl, name, hmissing, (Option.some.inj h).symm⟩
    · rw [hs] at h
      cases h
  success op h := by
    refine ⟨?_, fun other hother => op.get_perform_of_ne s hother⟩
    rcases op.perform_cases s with ⟨name, -, hs⟩ | ⟨p', -, hs⟩
    · rw [hs] at h
      cases h
    · exact ⟨p', by rw [hs]⟩
  negation p q r pic h := by
    have hnegated : Pictures.get (Table.put s.pictures q pic.negated) q = .ok pic.negated := by
      rw [Pictures.get_put, if_pos rfl]
    refine ⟨_, _, perform_negateAssign_of_get h q,
      perform_negateAssign_of_get (s := s.withPictures _) hnegated r, ?_⟩
    show Pictures.get (Table.put _ r pic.negated.negated) r = _
    rw [Pictures.get_put, if_pos rfl, Picture.negated_negated]
  accumulation dst src m reversed op hop p q hp hq := by
    have hrun : op.run s.pictures = .ok (Table.put s.pictures dst
        { p with outline := p.outline ++ Pictures.Picture.contribution q m reversed }) := by
      rcases hop with ⟨rfl, rfl⟩ | rfl
      · exact PictureOp.run_accumulate_of_get hp hq Affine.identity reversed
      · exact PictureOp.run_accumulate_of_get hp hq m reversed
    refine ⟨Pictures.length_contribution q m reversed, _, PictureOp.perform_of_run hrun, ?_⟩
    show Pictures.get (Table.put s.pictures dst _) dst = _
    rw [Pictures.get_put, if_pos rfl]
  untouched ops name h := PictureOp.get_performAll_of_not_target ops s h
  points ops name p hadds hp := by
    obtain ⟨p', hp', hextends⟩ := PictureOp.extends_performAll ops s hadds hp
    refine ⟨p', hp', hextends.outline, fun point place hplace => ⟨?_, ?_⟩⟩
    · rw [hextends.namedPoints, hplace]
    · exact fun found hfound => hextends.pointAt? hfound

end FontTrace
