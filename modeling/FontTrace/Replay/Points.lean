import FontTrace.Replay.Picture

/-!
# FontTrace.Replay.Points

Edits of contours and named points.  A name stands for a contour and a position
among its nodes on the curve, looked up anew with every use; an edit that moves
nodes can leave a name pointing somewhere else.
-/

namespace FontTrace

variable {σ : Type}

/-! ## contours in a direction -/

/-- What nodes are compared by: how far they are in a direction, how far from
the baseline, and how far to the right. -/
structure DirectionKey where
  distance : Int
  height : Int
  right : Int
deriving DecidableEq, Repr

/-- The order of the keys. -/
def DirectionKey.le (a b : DirectionKey) : Bool :=
  a.distance < b.distance || (a.distance == b.distance &&
    (a.height < b.height || (a.height == b.height && a.right ≤ b.right)))

/-- The key of a point in the direction with the given sine and cosine. -/
def directionKey (sin cos : Float) (p : Point) : DirectionKey :=
  ⟨totalKey (sin * p.x + cos * p.y), totalKey p.y.abs, totalKey p.x⟩

/-- The place of the first node on the curve in a direction, and its distance;
of equal ones the first. -/
def firstInDirection? (sin cos : Float) (c : Contour) : Option (DirectionKey × Nat) :=
  leastBy? (fun a b => DirectionKey.le a.1 b.1)
    (c.nodes.zipIdx.filterMap fun (n, i) =>
      if n.onCurve then some (directionKey sin cos n.pos, i) else none)

/-- A contour that starts with its first node in a direction, and the distance
of that node. -/
def turnedToward (sin cos : Float) (c : Contour) : Option Int × Contour :=
  match firstInDirection? sin cos c with
  | some (key, i) => (some key.distance, c.startingAt i)
  | none => (none, c)

/-- By distance; contours without a node on the curve come last. -/
def distanceLe (a b : Option Int × Contour) : Bool :=
  match a.1, b.1 with
  | some x, some y => x ≤ y
  | none, some _ => false
  | _, none => true

/-- The contours in the order of a direction, closed ones starting with their
first nodes. -/
def sortedToward (degrees : Float) (o : Outline) : Outline :=
  let angle := radians degrees
  ((o.map (turnedToward angle.sin angle.cos)).mergeSort distanceLe).map (·.2)

/-! ## named points -/

/-- The nodes on the curve of all contours, each with its contour and its
position in it. -/
def curveNodes (o : Outline) : List (Point × (Nat × Nat)) :=
  o.zipIdx.flatMap fun (c, i) =>
    (c.nodes.filter (·.onCurve)).zipIdx.map fun (n, k) => (n.pos, (i, k))

/-- The nearest node on the curve within a radius, of equally near ones the first. -/
def nearest? (target : Point) (radius : Float) (o : Outline) : Option (Nat × Nat) :=
  let near := (curveNodes o).filterMap fun (p, place) =>
    let d := p.distance target
    if d ≤ radius then some (d, place) else none
  (leastBy? (fun (a b : Float × (Nat × Nat)) => !(b.1 < a.1)) near).map (·.2)

/-- Whether there is such a node on the curve. -/
def isPlace (o : Outline) (contour index : Nat) : Bool :=
  o[contour]?.any fun c => index < c.onCurveCount

/-- The picture with one more named point. -/
def Picture.naming (p : Picture) (name : String) (place : Nat × Nat) : Picture :=
  { p with namedPoints := Table.put p.namedPoints name place }

/-- The picture with one of its contours changed. -/
def Picture.withContour (p : Picture) (i : Nat) (c : Contour) : Picture :=
  { p with outline := p.outline.set i c }

/-- The contour of a named point: its place and itself, and the place of the
point among its nodes. -/
def Picture.pointAt? (p : Picture) (place : Nat × Nat) : Option (Contour × Nat) := do
  let c ← p.outline[place.1]?
  return (c, ← c.onCurveIndex? place.2)

/-- A change of the contour that a named point is on. -/
def changeAtPoint (name : String) (f : Contour → Nat → StateM σ Contour) (p : Picture) :
    StateT σ Noted Picture := do
  match Table.find? p.namedPoints name with
  | none =>
    report (.noPointNamed name)
    return p
  | some place =>
    match p.pointAt? place with
    | none =>
      report (.pointGone name)
      return p
    | some (c, i) => return p.withContour place.1 (← silently (f c i))

/-- A change of the contours around the one that a named point is on. -/
def changeOutlineAt (name : String) (f : Outline → Contour → Nat → Outline) (p : Picture) :
    StateT σ Noted Picture := do
  match Table.find? p.namedPoints name with
  | none =>
    report (.noPointNamed name)
    return p
  | some (i, _) =>
    match p.outline[i]? with
    | none =>
      report (.contourGone name)
      return p
    | some c => return { p with outline := f p.outline c i }

/-! ## edits -/

/-- The picture after an edit. -/
def PointEdit.apply (e : Engine σ) (edit : PointEdit) (p : Picture) : StateT σ Noted Picture := do
  match edit with
  | .canonicalize => return { p with outline := ← silently (e.canonicalize p.outline) }
  | .sortToward degrees => return { p with outline := sortedToward degrees p.outline }
  | .nameNear target radius name =>
    match nearest? target radius p.outline with
    | some place => return p.naming name place
    | none =>
      report (.noPointAt target.x target.y name)
      return p
  | .nameAt contour index name =>
    if isPlace p.outline contour index then return p.naming name (contour, index)
    else
      report (.noPointAtIndex contour index name)
      return p
  | .makeFirst name => changeAtPoint name (fun c i => pure (c.startingAt i)) p
  | .delete name => changeAtPoint name e.mergePoint p
  | .makeFirstContour name => changeOutlineAt name (fun o c i => c :: o.eraseIdx i) p
  | .deleteContour name => changeOutlineAt name (fun o _ i => o.eraseIdx i) p

/-- An edit of the picture it is about. -/
def PictureEdit.perform (e : Engine σ) (edit : PictureEdit) : Update σ :=
  fun s =>
    match Pictures.get s.pictures edit.picture with
    | .error k => pure (.error k)
    | .ok p => do
      let (p, engine) ← edit.edit.apply e p s.engine
      return .ok { s with pictures := Table.put s.pictures edit.picture p, engine := engine }

end FontTrace
