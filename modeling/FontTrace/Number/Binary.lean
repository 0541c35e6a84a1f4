/-!
# FontTrace.Number.Binary

Doubles as exact binary fractions.  A finite double is `± mantissa · 2 ^ exponent`,
and everything that has to be exact — rounding to font units, printing, a
product and sum rounded once — is done on that pair of integers:

* `roundHalfUp`, `roundHalfEven` — the quotient of two naturals, to the nearest integer;
* `roundUnits`, `truncUnits` — a double as a 64-bit integer, clamped at the ends;
* `roundWhole` — the nearest whole double;
* `mulAdd` — `a * b + c` with a single rounding.

Powers are taken with `Nat.pow`, which is the same whatever else is imported.
-/

namespace FontTrace

/-- The value `± mantissa · 2 ^ exponent`. -/
structure BinaryFraction where
  negative : Bool
  mantissa : Nat
  exponent : Int
deriving DecidableEq

namespace BinaryFraction

/-- The exact value of a finite double, read off its 64 bits. -/
def ofFloat? (x : Float) : Option BinaryFraction :=
  let bits := x.toBits.toNat
  let field := bits / Nat.pow 2 52 % 2048
  let fraction := bits % Nat.pow 2 52
  if field = 2047 then none
  else if field = 0 then some ⟨bits / Nat.pow 2 63 == 1, fraction, -1074⟩
  else some ⟨bits / Nat.pow 2 63 == 1, fraction + Nat.pow 2 52, Int.ofNat field - 1075⟩

end BinaryFraction

/-! ## quotients to the nearest integer -/

/-- `n / d` to the nearest integer, a half upwards. -/
def roundHalfUp (n d : Nat) : Nat := (2 * n + d) / (2 * d)

/-- `n / d` to the nearest integer, a half to the even neighbour. -/
def roundHalfEven (n d : Nat) : Nat :=
  let q := n / d
  let r := 2 * (n % d)
  if d < r ∨ (r = d ∧ q % 2 = 1) then q + 1 else q

theorem roundHalfUp_mul (k : Nat) {d : Nat} (hd : 0 < d) : roundHalfUp (k * d) d = k := by
  have h : 2 * (k * d) + d = d + 2 * d * k := by
    rw [Nat.add_comm, Nat.mul_comm k d, ← Nat.mul_assoc]
  rw [roundHalfUp, h, Nat.add_mul_div_left _ _ (by omega), Nat.div_eq_of_lt (by omega)]
  omega

/-! ## doubles as integers -/

/-- The smallest and the largest 64-bit integer. -/
def minInt64 : Int := -9223372036854775808

@[inherit_doc minInt64]
def maxInt64 : Int := 9223372036854775807

/-- The 64-bit integer nearest to `n`. -/
def clampInt64 (n : Int) : Int := max minInt64 (min maxInt64 n)

/-- A double as a 64-bit integer, where `magnitude` turns the absolute value
into a natural number.  Infinities go to the ends of the range, and what is not
a number counts as zero. -/
def toUnits (magnitude : BinaryFraction → Nat) (x : Float) : Int :=
  match BinaryFraction.ofFloat? x with
  | some b => clampInt64 (if b.negative then -(magnitude b : Int) else magnitude b)
  | none => if x > 0 then maxInt64 else if x < 0 then minInt64 else 0

/-- The absolute value to the nearest integer, a half away from zero. -/
def BinaryFraction.rounded (b : BinaryFraction) : Nat :=
  if 0 ≤ b.exponent then b.mantissa * Nat.pow 2 b.exponent.toNat
  else roundHalfUp b.mantissa (Nat.pow 2 (-b.exponent).toNat)

/-- The integer part of the absolute value. -/
def BinaryFraction.truncated (b : BinaryFraction) : Nat :=
  if 0 ≤ b.exponent then b.mantissa * Nat.pow 2 b.exponent.toNat
  else b.mantissa / Nat.pow 2 (-b.exponent).toNat

/-- The nearest integer, a half away from zero: box dimensions and codes are
rounded this way before they reach the font. -/
def roundUnits (x : Float) : Int := toUnits BinaryFraction.rounded x

/-- The integer part. -/
def truncUnits (x : Float) : Int := toUnits BinaryFraction.truncated x

/-- The nearest whole double, a half away from zero.  A zero keeps the sign of
what it came from, and from `2 ^ 52` on every double is whole. -/
def roundWhole (x : Float) : Float :=
  match BinaryFraction.ofFloat? x with
  | some b =>
    if 0 ≤ b.exponent then x
    else if b.negative then -(Float.ofNat b.rounded) else Float.ofNat b.rounded
  | none => x

/-- `r * a ^ n` by repeated squaring of `a`, lowest binary digit of `n` first. -/
def timesPower (r a : Float) (n : Nat) : Float :=
  if n = 0 then r
  else timesPower (if n % 2 = 1 then r * a else r) (a * a) (n / 2)
termination_by n
decreasing_by omega

/-- Rounded to a number of decimal places (to tens and hundreds if negative). -/
def roundDigits (x : Float) (digits : Int) : Float :=
  let power := timesPower 1 10 digits.natAbs
  let factor := if digits < 0 then 1 / power else power
  roundWhole (x * factor) / factor

/-! ## back to doubles -/

/-- The double nearest to `± mantissa · 2 ^ exponent`, a tie to the even one.
The mantissa is brought to 53 bits, or to as many as the smallest exponent
leaves; a carry into the 54th bit lands in the exponent field by itself. -/
def BinaryFraction.toFloat (b : BinaryFraction) : Float :=
  if b.mantissa = 0 then (if b.negative then -0.0 else 0.0)
  else
    let shift : Int := max ((b.mantissa.log2 : Int) - 52) (-1074 - b.exponent)
    let q :=
      if 0 ≤ shift then roundHalfEven b.mantissa (Nat.pow 2 shift.toNat)
      else b.mantissa * Nat.pow 2 (-shift).toNat
    let bits :=
      if q < Nat.pow 2 52 then q
      else (b.exponent + shift + 1074).toNat * Nat.pow 2 52 + q
    let x := Float.ofBits (UInt64.ofNat (min bits (2047 * Nat.pow 2 52)))
    if b.negative then -x else x

/-- The exact sum of two binary fractions.  A zero sum is negative only if both
summands are. -/
def BinaryFraction.add (a b : BinaryFraction) : BinaryFraction :=
  let e := min a.exponent b.exponent
  let signed (x : BinaryFraction) : Int :=
    let m : Int := x.mantissa * Nat.pow 2 (x.exponent - e).toNat
    if x.negative then -m else m
  let s := signed a + signed b
  ⟨if s = 0 then a.negative && b.negative else s < 0, s.natAbs, e⟩

/-- `a * b + c`, rounded once. -/
def mulAdd (a b c : Float) : Float :=
  match BinaryFraction.ofFloat? a, BinaryFraction.ofFloat? b, BinaryFraction.ofFloat? c with
  | some x, some y, some z =>
    (BinaryFraction.add
      ⟨x.negative != y.negative, x.mantissa * y.mantissa, x.exponent + y.exponent⟩ z).toFloat
  | _, _, _ => a * b + c

end FontTrace
