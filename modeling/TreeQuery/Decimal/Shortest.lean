import TreeQuery.Decimal.BinaryFraction

/-!
# The fewest digits that read back

A finite double is the nearest double to every real in an interval around it, whose ends belong to
it when the significand is even. `shortest` finds the decimal with the fewest digits in that
interval: it tries the grids of one, two, … seventeen significant digits, and on each of them the
two neighbours of the value. Of two hits the nearer wins, and of two equally near ones that which
the tie rule names.
-/

set_option autoImplicit false

namespace TreeQuery.Decimal

/-- The magnitude `digits · 10 ^ exponent`. -/
structure Digits where
  digits : Nat
  exponent : Int
  deriving DecidableEq, Repr

namespace Digits

/-- Moves the zeros at the end of the digits into the exponent. -/
def strip : Nat → Digits → Digits
  | 0, d => d
  | fuel + 1, d =>
    if d.digits ≠ 0 ∧ d.digits % 10 = 0 then strip fuel ⟨d.digits / 10, d.exponent + 1⟩ else d

/-- The number of digits after the point when the value is written out. -/
def places (d : Digits) : Nat :=
  (-d.exponent).toNat

end Digits

def digitCount (n : Nat) : Nat :=
  (Nat.toDigits 10 n).length

/-- The largest `e` with `10 ^ e ≤ num / den`, for a positive quotient. -/
def decimalExponent (num den : Nat) : Int :=
  let e : Int := (digitCount num : Int) - digitCount den
  if den * tenTo e.toNat ≤ num * tenTo (-e).toNat then e else e - 1

/-- The reals that round to a double, as multiples of `2 ^ exponent / 4`. -/
structure Interval where
  value : Nat
  low : Nat
  high : Nat
  closed : Bool
  exponent : Int

namespace Interval

/-- Below a power of two the neighbour is half as far away. -/
def of (x : BinaryFraction) : Interval :=
  let m := x.significand
  let low := if m = twoTo 52 ∧ x.exponent ≠ -1074 then 4 * m - 1 else 4 * m - 2
  ⟨4 * m, low, 4 * m + 2, m % 2 == 0, x.exponent - 2⟩

/-- `n · 2 ^ exponent` against `d · 10 ^ e`, both made whole. -/
def scaleTo (i : Interval) (e : Int) (n d : Nat) : Nat × Nat :=
  (n * twoTo i.exponent.toNat * tenTo (-e).toNat, d * tenTo e.toNat * twoTo (-i.exponent).toNat)

def contains (i : Interval) (d : Nat) (e : Int) : Bool :=
  let low := i.scaleTo e i.low d
  let high := i.scaleTo e i.high d
  if i.closed then low.1 ≤ low.2 && high.2 ≤ high.1 else low.1 < low.2 && high.2 < high.1

/-- The decimal with the given last place that reads back, if there is one. -/
def onGrid (i : Interval) (tie : Tie) (e : Int) : Option Nat :=
  let (num, den) := i.scaleTo e i.value 1
  let below := num / den
  let above := below + 1
  match i.contains below e, i.contains above e with
  | true, true => some (roundDiv num den tie)
  | true, false => some below
  | false, true => some above
  | false, false => none

/-- Tries the remaining grids from coarse to fine. -/
def search (i : Interval) (tie : Tie) : Nat → Int → Digits
  | 0, e => ⟨(i.scaleTo e i.value 1).1 / (i.scaleTo e i.value 1).2, e⟩
  | fuel + 1, e =>
    match i.onGrid tie e with
    | some d => Digits.strip 20 ⟨d, e⟩
    | none => search i tie fuel (e - 1)

end Interval

/-- The decimal with the fewest digits that reads back as this magnitude. -/
def shortest (x : BinaryFraction) (tie : Tie) : Digits :=
  if x.significand = 0 then ⟨0, 0⟩
  else
    let i := Interval.of x
    let (num, den) := x.scaled 0
    i.search tie 17 (decimalExponent num den)

end TreeQuery.Decimal
