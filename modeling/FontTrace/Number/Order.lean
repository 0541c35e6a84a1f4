/-!
# FontTrace.Number.Order

Orders on doubles, and least elements.  Points are sorted by a total order, in
which `-0` stands before `0` and what is not a number has a place too; boxes are
joined with minima and maxima that pass over what is not a number.
-/

namespace FontTrace

/-- A double's place in the total order: its bits as sign and magnitude. -/
def totalKey (x : Float) : Int :=
  let bits := x.toBits.toNat
  if bits < Nat.pow 2 63 then bits else -1 - ((bits - Nat.pow 2 63 : Nat) : Int)

/-- The smaller of two doubles; a number if either of them is one. -/
def lower (a b : Float) : Float :=
  if a.isNaN then b else if b < a then b else a

/-- The larger of two doubles; a number if either of them is one. -/
def upper (a b : Float) : Float :=
  if a.isNaN then b else if a < b then b else a

/-- The value of `x` with the sign of `y`. -/
def withSignOf (x y : Float) : Float :=
  if y.toBits.toNat < Nat.pow 2 63 then x.abs else -x.abs

/-- The first of the least elements of a list in an order. -/
def leastBy? {α : Type} (le : α → α → Bool) : List α → Option α
  | [] => none
  | a :: as => some (as.foldl (fun m b => if le m b then m else b) a)

end FontTrace
