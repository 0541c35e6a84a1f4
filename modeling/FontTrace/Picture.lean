import FontTrace.Geometry.Contour
import FontTrace.Skip
import FontTrace.Table

/-!
# FontTrace.Picture

Picture variables by name.  A picture is an outline and some points of it that
were given names; a named point is a contour and a position among its nodes on
the curve, and no operation on the outline moves it.

Every operation below either fails, because a picture it reads is not there, or
changes one picture:

* `get_put` — the picture that was put is there, and all others are as before;
* `negateAssign_negateAssign` — negating twice gives the picture back;
* `accumulate_outline` — accumulated contours come behind those of the target.
-/

namespace FontTrace

/-- An outline and the named points on it. -/
structure Picture where
  outline : Outline := []
  namedPoints : Table String (Nat × Nat) := []
deriving DecidableEq, Repr

/-- The picture with every contour reversed. -/
def Picture.negated (p : Picture) : Picture := { p with outline := p.outline.reversed }

@[simp] theorem Picture.negated_negated (p : Picture) : p.negated.negated = p := by
  simp [negated]

/-- All picture variables. -/
abbrev Pictures := Table String Picture

namespace Pictures

/-- The picture that is there from the start. -/
def nullName : String := "nullpicture"

/-- The pictures a run starts with. -/
def initial : Pictures := [(nullName, {})]

/-- The picture of the given name. -/
def get (ps : Pictures) (name : String) : Except Skip Picture :=
  match Table.find? ps name with
  | some p => .ok p
  | none => .error (.unknownPicture name)

/-- The pictures with an empty one of the given name. -/
def declare (ps : Pictures) (name : String) : Pictures := Table.put ps name {}

/-- The pictures with one of them changed. -/
def change (ps : Pictures) (name : String) (f : Picture → Picture) : Except Skip Pictures :=
  (get ps name).map fun p => Table.put ps name (f p)

/-- The pictures with a copy of one of them. -/
def assign (ps : Pictures) (target source : String) : Except Skip Pictures :=
  (get ps source).map (Table.put ps target)

/-- The pictures with a copy of one of them, every contour reversed. -/
def negateAssign (ps : Pictures) (target source : String) : Except Skip Pictures :=
  (get ps source).map fun p => Table.put ps target p.negated

/-- The pictures with contours added to one of them. -/
def append (ps : Pictures) (target : String) (o : Outline) : Except Skip Pictures :=
  change ps target fun p => { p with outline := p.outline ++ o }

/-- The contours that a picture adds to another one: transformed, and reversed
if asked to. -/
def Picture.contribution (p : Picture) (m : Affine) (reversed : Bool) : Outline :=
  let o := if reversed then p.outline.reversed else p.outline
  if m.same Affine.identity then o else o.transform m

/-- The pictures with the contours of one added to another, which may be the same. -/
def accumulate (ps : Pictures) (target source : String) (m : Affine) (reversed : Bool) :
    Except Skip Pictures := do
  let _ ← get ps target
  let p ← get ps source
  append ps target (Picture.contribution p m reversed)

/-! ## laws -/

theorem get_put (ps : Pictures) (name other : String) (p : Picture) :
    get (Table.put ps name p) other = if name = other then .ok p else get ps other := by
  by_cases h : name = other <;> simp [get, Table.find?_put, h]

theorem negateAssign_negateAssign {ps ps' : Pictures} {p q r : String}
    (h : negateAssign ps q p = .ok ps') :
    (negateAssign ps' r q).map (get · r) = (get ps p).map .ok := by
  unfold negateAssign at h
  cases hp : get ps p with
  | error e => simp [hp, Except.map] at h
  | ok pic =>
    simp only [hp, Except.map, Except.ok.injEq] at h
    subst h
    simp [negateAssign, get_put, Except.map]

theorem accumulate_outline {ps ps' : Pictures} {target source : String} {m : Affine} {reversed : Bool}
    (h : accumulate ps target source m reversed = .ok ps') :
    ∃ p q, get ps target = .ok p ∧ get ps source = .ok q ∧
      get ps' target =
        .ok { p with outline := p.outline ++ Picture.contribution q m reversed } := by
  unfold accumulate at h
  cases hp : get ps target with
  | error e => simp [hp, bind, Except.bind] at h
  | ok p =>
    cases hq : get ps source with
    | error e => simp [hp, hq, bind, Except.bind] at h
    | ok q =>
      simp only [hp, hq, bind, Except.bind, append, change, Except.map, Except.ok.injEq] at h
      subst h
      exact ⟨p, q, rfl, rfl, by simp [get_put]⟩

end Pictures

end FontTrace
