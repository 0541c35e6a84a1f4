import FontTrace.Proofs.Replay.Step

/-!
# FontTrace.Proofs.Picture.Edits

Records that edit a picture.  What they do is put the edited picture in the place of the old
one; an edit that gives the picture back changes nothing.

* `PictureEdit.read_of_fields` — the picture comes first, the operands of the edit behind it;
* `State.edited` — the state with one of its pictures edited;
* `value_step_edit` — what a record of an edit does.
-/

namespace FontTrace

theorem Table.put_of_find? {κ β : Type} [DecidableEq κ] {t : Table κ β} {k : κ} {v : β}
    (h : find? t k = some v) : put t k v = t := by
  induction t with
  | nil => cases h
  | cons entry t ih =>
      obtain ⟨k', v'⟩ := entry
      unfold find? at h
      unfold put
      split at h
      · next hk =>
        obtain rfl := Option.some.inj h
        rw [if_pos hk, hk]
      · next hk => rw [if_neg hk, ih h]

theorem Table.put_put {κ β : Type} [DecidableEq κ] (t : Table κ β) (k : κ) (v w : β) :
    put (put t k v) k w = put t k w := by
  induction t with
  | nil => simp [put]
  | cons entry t ih =>
      obtain ⟨k', v'⟩ := entry
      by_cases hk : k' = k <;> simp [put, hk, ih]

theorem Pictures.find?_of_get {ps : Pictures} {name : String} {p : Picture}
    (h : get ps name = .ok p) : Table.find? ps name = some p := by
  unfold get at h
  split at h
  · next q hq =>
    rw [hq, Except.ok.inj h]
  · cases h

theorem PictureEdit.read_of_fields {command : OutlineCommand} {r : Record} {picture : String}
    {args : List String} {edit : PointEdit} (hfields : r.fields = picture :: args)
    (hedit : readEdit command r args = .ok edit) :
    read command r = .ok ⟨pictureName picture, edit⟩ := by
  rw [read, Record.firstField, hfields, List.drop_one, List.tail_cons, hedit]
  rfl

variable {σ : Type}

/-- The state with one of its pictures edited. -/
def State.edited (e : Engine σ) (s : State σ) (name : String) (edit : PointEdit) (p : Picture) :
    State σ :=
  { s with
    pictures := Table.put s.pictures name (edit.apply e p s.engine).value.1
    engine := (edit.apply e p s.engine).value.2 }

/-- A state is as it was after an edit that gives the picture back. -/
theorem State.edited_eq_self {e : Engine σ} {s : State σ} {name : String} {edit : PointEdit}
    {p : Picture} (hp : Pictures.get s.pictures name = .ok p)
    (hedit : (edit.apply e p s.engine).value = (p, s.engine)) : s.edited e name edit p = s := by
  rw [edited, hedit, Table.put_of_find? (Pictures.find?_of_get hp)]

theorem value_edit_perform (e : Engine σ) {s : State σ} {edit : PictureEdit} {p : Picture}
    (hp : Pictures.get s.pictures edit.picture = .ok p) :
    (edit.perform e s).value = .ok (s.edited e edit.picture edit.edit p) := by
  unfold PictureEdit.perform
  rw [hp]
  rfl

/-- What a record of an edit does, if the family of these records is switched on and the picture
is there. -/
theorem value_step_edit (e : Engine σ) {cfg : Settings} {s : State σ} {r : Record}
    {command : OutlineCommand} {edit : PictureEdit} {p : Picture}
    (henabled : cfg.enables .outline = true) (hop : r.op = .outline command)
    (hread : PictureEdit.read command r = .ok edit)
    (hp : Pictures.get s.pictures edit.picture = .ok p) (c : Cursor) :
    (State.step e cfg s (Script.construct r c).1).value = s.edited e edit.picture edit.edit p := by
  have hcommand : (Script.construct r c).1.command = .ok (.edit edit) := by
    show ((Command.read r).run c).1 = _
    rw [Command.read, hop]
    exact Command.run_of_ok .edit (by rw [hread]; rfl)
  have hdisabled : (Script.construct r c).1.isDisabled cfg = false := by
    show r.op.extension?.any _ = false
    rw [hop]
    simp [Op.extension?, henabled]
  have hperform : (Script.construct r c).1.perform e cfg s = atomically (edit.perform e) s := by
    rw [Construct.perform, hdisabled, hcommand]
    rfl
  rw [value_step, hperform, value_atomically, value_edit_perform e hp]
  exact congrArg (fun skipped => { s.edited e edit.picture edit.edit p with skipped := skipped })
    (List.append_nil s.skipped)

end FontTrace
