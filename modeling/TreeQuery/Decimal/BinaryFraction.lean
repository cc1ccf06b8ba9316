import TreeQuery.Power

/-!
# Exact values of doubles

A finite double is `± significand · 2 ^ exponent`. `BinaryFraction` holds these three parts, and
everything this library says about a double beyond the four arithmetic operations is computed from
them with natural numbers: whether it is whole, its nearest whole number, its remainder after
division, and its decimal digits.
-/

set_option autoImplicit false

namespace TreeQuery.Decimal

/-- Where a value half way between two neighbours goes. -/
inductive Tie where
  | away
  | even
  deriving DecidableEq, Repr

/-- The whole number nearest to `num / den`; a half goes as `tie` says. -/
def roundDiv (num den : Nat) (tie : Tie) : Nat :=
  let q := num / den
  let twice := 2 * (num % den)
  if twice < den then q
  else if den < twice then q + 1
  else match tie with
    | .away => q + 1
    | .even => if q % 2 = 0 then q else q + 1

/-- The rational `± significand · 2 ^ exponent`. -/
structure BinaryFraction where
  negative : Bool
  significand : Nat
  exponent : Int
  deriving DecidableEq, Repr

namespace BinaryFraction

/-- The exact value of a finite double; none for an infinity and for a value that is not a number. -/
def ofFloat? (x : Float) : Option BinaryFraction :=
  let bits := x.toBits.toNat
  let negative := decide (twoTo 63 ≤ bits)
  let biased : Nat := bits / twoTo 52 % twoTo 11
  let fraction : Nat := bits % twoTo 52
  if biased = 2047 then none
  else if biased = 0 then some ⟨negative, fraction, -1074⟩
  else some ⟨negative, twoTo 52 + fraction, (biased : Int) - 1075⟩

/-- The double with this value, for a value that some double has. -/
def toFloat (x : BinaryFraction) : Float :=
  let sign := if x.negative then twoTo 63 else 0
  if x.significand = 0 then Float.ofBits (UInt64.ofNat sign)
  else
    let top : Int := x.significand.log2
    let exponent := max (x.exponent + top - 52) (-1074)
    let shift := x.exponent - exponent
    let significand := x.significand * twoTo shift.toNat / twoTo (-shift).toNat
    let magnitude :=
      if significand < twoTo 52 then significand
      else (exponent + 1075).toNat * twoTo 52 + (significand - twoTo 52)
    Float.ofBits (UInt64.ofNat (sign + magnitude))

/-- The magnitude times `10 ^ places`, as numerator and denominator. -/
def scaled (x : BinaryFraction) (places : Nat) : Nat × Nat :=
  (x.significand * tenTo places * twoTo x.exponent.toNat, twoTo (-x.exponent).toNat)

/-- The nearest multiple of `10 ^ -places` to the magnitude, counted in such multiples. -/
def roundedTo (x : BinaryFraction) (places : Nat) (tie : Tie) : Nat :=
  roundDiv (x.scaled places).1 (x.scaled places).2 tie

def isWhole (x : BinaryFraction) : Bool :=
  (x.scaled 0).1 % (x.scaled 0).2 == 0

/-- The value without its fractional part. -/
def toInt (x : BinaryFraction) : Int :=
  let magnitude : Int := ((x.scaled 0).1 / (x.scaled 0).2 : Nat)
  if x.negative then -magnitude else magnitude

/-- What is left of `x` after taking away `y` as often as it fits; it has the sign of `x`. -/
def remainder (x y : BinaryFraction) : BinaryFraction :=
  let exponent := min x.exponent y.exponent
  let left := x.significand * twoTo (x.exponent - exponent).toNat
  let right := y.significand * twoTo (y.exponent - exponent).toNat
  ⟨x.negative, left % right, exponent⟩

end BinaryFraction

/-- Whether a double is finite and has no fractional part. -/
def isWhole (x : Float) : Bool :=
  match BinaryFraction.ofFloat? x with
  | none => false
  | some b => b.isWhole

/-- The nearest whole double; a half goes away from zero and the sign of zero is kept. -/
def nearestWhole (x : Float) : Float :=
  match BinaryFraction.ofFloat? x with
  | none => x
  | some b =>
    if 0 ≤ b.exponent then x
    else
      let magnitude := Float.ofNat (b.roundedTo 0 .away)
      if b.negative then -magnitude else magnitude

/-- The remainder of the division truncated toward zero, with the sign of the dividend. An infinite
divisor leaves the dividend as it is. -/
def remainder (x y : Float) : Float :=
  match BinaryFraction.ofFloat? x, BinaryFraction.ofFloat? y with
  | some a, some b => if b.significand = 0 then 0.0 / 0.0 else (a.remainder b).toFloat
  | some _, none => if y.isNaN then y else x
  | none, _ => 0.0 / 0.0

/-- A double as a signed 64-bit whole number: truncated, and clamped to the range. -/
def toInt64Clamped (x : Float) : Int :=
  match BinaryFraction.ofFloat? x with
  | some b => max (-twoTo 63) (min (twoTo 63 - 1) b.toInt)
  | none => if x.isNaN then 0 else if 0 < x then twoTo 63 - 1 else -twoTo 63

/-- The double nearest to a whole number. -/
def ofInt (n : Int) : Float :=
  Float.ofInt n

end TreeQuery.Decimal
