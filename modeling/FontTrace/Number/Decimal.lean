import FontTrace.Number.Binary
import FontTrace.Number.Integer

/-!
# FontTrace.Number.Decimal

Doubles in decimal.

* `Decimal.ofText?` reads a signed decimal with optional point and exponent, rounding
  to the nearest double;
* `shortest` finds the fewest digits that read back as the same double, and of
  those the ones nearest to it;
* `Decimal.text` and `Decimal.jsonText` write those digits in two notations.
-/

namespace FontTrace

/-- The value `digits · 10 ^ exponent`. -/
structure Decimal where
  digits : Nat
  exponent : Int
deriving DecidableEq

namespace Decimal

/-! ## reading -/

/-- The nearest double.  Exponents far outside the range of doubles are
answered without computing the power of ten. -/
def toFloat (d : Decimal) : Float :=
  let top : Int := (Nat.toDigits 10 d.digits).length + d.exponent
  if d.digits = 0 ∨ top < -400 then 0
  else if 400 < top then 1 / 0
  else if d.exponent < 0 then Float.ofScientific d.digits true d.exponent.natAbs
  else Float.ofScientific d.digits false d.exponent.natAbs

/-- The exponent part of a number: nothing, or `e`, a sign and digits. -/
def exponentOfText? : List Char → Option Int
  | [] => some 0
  | e :: cs => if e = 'e' ∨ e = 'E' then intOfText? 10 cs else none

/-- Digits with an optional point among them, and an optional exponent. -/
def ofDigits? (cs : List Char) : Option Decimal :=
  let whole := cs.takeWhile Char.isDigit
  let rest := cs.dropWhile Char.isDigit
  let (part, rest) :=
    match rest with
    | '.' :: r => (r.takeWhile Char.isDigit, r.dropWhile Char.isDigit)
    | r => ([], r)
  do
    let digits ← natOfDigits? 10 (whole ++ part)
    let exponent ← exponentOfText? rest
    return ⟨digits, exponent - part.length⟩

/-- A double from its text: a sign, then a decimal number or one of the words
for infinity and for what is not a number, in any case. -/
def ofText? (cs : List Char) : Option Float :=
  let (negative, body) :=
    match cs with
    | '-' :: r => (true, r)
    | '+' :: r => (false, r)
    | r => (false, r)
  let word := String.ofList (body.map Char.toLower)
  let magnitude :=
    if word = "inf" ∨ word = "infinity" then some (1 / 0)
    else if word = "nan" then some (0 / 0)
    else (ofDigits? body).map toFloat
  magnitude.map fun x => if negative then -x else x

/-! ## the fewest digits -/

/-- `10 ^ e ≤ n / d`. -/
def tenPowerLe (e : Int) (n d : Nat) : Bool :=
  Nat.pow 10 e.toNat * d ≤ n * Nat.pow 10 (-e).toNat

/-- The exponent of the leading decimal digit of `mantissa · 2 ^ exponent`.
The binary logarithm times `log 2` is at most one off. -/
def leadingExponent (b : BinaryFraction) : Int :=
  let n := b.mantissa * Nat.pow 2 b.exponent.toNat
  let d := Nat.pow 2 (-b.exponent).toNat
  let guess : Int := ((b.mantissa.log2 : Int) + b.exponent) * 30103 / 100000
  if tenPowerLe (guess + 1) n d then guess + 1
  else if tenPowerLe guess n d then guess
  else guess - 1

/-- Whether `c · 10 ^ k` lies among the reals that round to the double `b`.
In quarters of the last place the interval reaches two up and two down, or one
down where the doubles below are twice as dense; its ends belong to it if the
mantissa is even. -/
def readsBack (b : BinaryFraction) (c : Nat) (k : Int) : Bool :=
  let below := if b.mantissa = Nat.pow 2 52 ∧ -1074 < b.exponent then 1 else 2
  let e := b.exponent - 2
  let unit := Nat.pow 2 e.toNat * Nat.pow 10 (-k).toNat
  let point := c * (Nat.pow 10 k.toNat * Nat.pow 2 (-e).toNat)
  let low := (4 * b.mantissa - below) * unit
  let high := (4 * b.mantissa + 2) * unit
  if b.mantissa % 2 = 0 then low ≤ point && point ≤ high else low < point && point < high

/-- The neighbour of `b` on the grid of multiples of `10 ^ k` that reads back
as `b`; of two the nearer one, and the larger one of two at the same distance. -/
def onGrid? (b : BinaryFraction) (k : Int) : Option Nat :=
  let n := b.mantissa * Nat.pow 2 b.exponent.toNat * Nat.pow 10 (-k).toNat
  let d := Nat.pow 2 (-b.exponent).toNat * Nat.pow 10 k.toNat
  let c := n / d
  match readsBack b c k, readsBack b (c + 1) k with
  | true, true => some (roundHalfUp n d)
  | true, false => some c
  | false, true => some (c + 1)
  | false, false => none

/-- The first grid with a hit, from one digit on.  Seventeen digits always
tell two doubles apart. -/
def firstHit (b : BinaryFraction) (k : Int) : Nat → Decimal
  | 0 => ⟨0, 0⟩
  | fuel + 1 =>
    match onGrid? b k with
    | some c => ⟨c, k⟩
    | none => firstHit b (k - 1) fuel

/-- Zeros at the end of the digits go into the exponent. -/
def dropZeros (d : Decimal) : Decimal :=
  if d.digits = 0 then d
  else if d.digits % 10 = 0 then dropZeros ⟨d.digits / 10, d.exponent + 1⟩
  else d
termination_by d.digits
decreasing_by omega

/-- The fewest digits that read back as `b`. -/
def shortest (b : BinaryFraction) : Decimal :=
  if b.mantissa = 0 then ⟨0, 0⟩ else dropZeros (firstHit b (leadingExponent b) 18)

/-! ## writing -/

/-- The digits in positional notation. -/
def positional (d : Decimal) : List Char :=
  let ds := Nat.toDigits 10 d.digits
  if 0 ≤ d.exponent then ds ++ List.replicate d.exponent.toNat '0'
  else
    let places := (-d.exponent).toNat
    if places < ds.length then
      ds.take (ds.length - places) ++ '.' :: ds.drop (ds.length - places)
    else ['0', '.'] ++ List.replicate (places - ds.length) '0' ++ ds

/-- The digits with the point after the first one and an exponent. -/
def exponential (d : Decimal) : List Char :=
  let ds := Nat.toDigits 10 d.digits
  let e := d.exponent + ds.length - 1
  ds.take 1 ++ (if ds.length = 1 then [] else '.' :: ds.drop 1) ++ 'e' :: (toString e).toList

/-- A double with a text for its magnitude, if it is finite. -/
def signedText (magnitude : Decimal → List Char) (x : Float) : Option String :=
  (BinaryFraction.ofFloat? x).map fun b =>
    String.ofList ((if b.negative then ['-'] else []) ++ magnitude (shortest b))

/-- Metadata and messages show the fewest digits that read back, always in
positional notation. -/
def text (x : Float) : String :=
  (signedText positional x).getD (if x > 0 then "inf" else if x < 0 then "-inf" else "NaN")

/-- JSON numbers have a point or an exponent: positional from `1e-5` up to
`1e16`, exponential outside. -/
def jsonMagnitude (d : Decimal) : List Char :=
  let point : Int := (Nat.toDigits 10 d.digits).length + d.exponent
  if d.digits = 0 then ['0', '.', '0']
  else if -5 < point ∧ point ≤ 16 then
    if 0 ≤ d.exponent then positional d ++ ['.', '0'] else positional d
  else exponential d

/-- A double as a JSON number; what is not finite has none. -/
def jsonText (x : Float) : String := (signedText jsonMagnitude x).getD "null"

end Decimal

end FontTrace
