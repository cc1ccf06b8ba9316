import TreeQuery.Decimal.Reading
import TreeQuery.Decimal.Writing
import TreeQuery.Text.Blank

/-!
# Numerals

A numeral is a double with a count of decimal places, its precision. A numeral that was read from
text keeps the places that were written; one that was computed without a count takes the places of
its shortest decimal text. Arithmetic keeps the larger precision of its operands, comparison rounds
both operands to it, and the displayed text has exactly that many places.
-/

set_option autoImplicit false

namespace TreeQuery

/-- A count of decimal places, at most fifteen. -/
abbrev Precision := Fin 16

def Precision.ofNat (n : Nat) : Precision :=
  ⟨min n 15, by omega⟩

def Precision.larger (a b : Precision) : Precision :=
  if a.val < b.val then b else a

/-- A double, and its precision once one is known. -/
structure Numeral where
  value : Float
  marker : Option Precision

/-- The places that a written decimal gives its numeral: those after the point, less the power of
ten. A power that does not fit 32 bits counts as zero, and the difference is taken in 32 bits. -/
def Decimal.Literal.precision (l : Decimal.Literal) : Precision :=
  let power := if -twoTo 31 ≤ l.power ∧ l.power < twoTo 31 then l.power else 0
  Precision.ofNat (Int32.ofNat l.places - Int32.ofInt power).toInt.toNat

def Decimal.Written.precision : Decimal.Written → Precision
  | .literal l => l.precision
  | _ => 0

namespace Numeral

/-- A numeral whose precision follows from its value. -/
def ofFloat (x : Float) : Numeral :=
  ⟨x, none⟩

def withPrecision (x : Float) (places : Nat) : Numeral :=
  ⟨x, some (Precision.ofNat places)⟩

def ofInt (n : Int) : Numeral :=
  ⟨Decimal.ofInt n, some 0⟩

/-- Reads decimal text, blanks at its ends aside, and keeps the precision as written. -/
def parse? (s : String) : Option Numeral :=
  (Decimal.read? (Text.trim s).toList).map fun w => ⟨w.value, some w.precision⟩

/-- The places of the shortest decimal text of a double. -/
def placesOf (x : Float) : Precision :=
  match Decimal.BinaryFraction.ofFloat? x with
  | none => 0
  | some b => Precision.ofNat (Decimal.shortest b .away).places

def precision (n : Numeral) : Precision :=
  n.marker.getD (placesOf n.value)

def isWhole (n : Numeral) : Bool :=
  Decimal.isWhole n.value

/-- The value as a signed 64-bit whole number. The double `2 ^ 63` counts as the largest one. -/
def toInt? (n : Numeral) : Option Int :=
  match Decimal.BinaryFraction.ofFloat? n.value with
  | none => none
  | some b =>
    if b.isWhole ∧ -twoTo 63 ≤ b.toInt ∧ b.toInt ≤ twoTo 63 then some (min b.toInt (twoTo 63 - 1))
    else none

/-- The double rounded to a number of places: scaled, taken to the nearest whole number with halves
away from zero, and scaled back. A value that cannot be scaled stays as it is. -/
def roundTo (x : Float) (places : Precision) : Float :=
  if x.isFinite then
    let factor := Float.ofNat (tenTo places.val)
    let scaled := Decimal.nearestWhole (x * factor) / factor
    if scaled.isFinite then scaled else x
  else x

/-- What the numeral means: its value rounded to its precision. -/
def rounded (n : Numeral) : Float :=
  roundTo n.value n.precision

/-- A result at the larger precision of the two operands. -/
def combine (a b : Numeral) (value : Float) : Numeral :=
  ⟨value, some (a.precision.larger b.precision)⟩

def add (a b : Numeral) : Numeral :=
  combine a b (a.value + b.value)

def sub (a b : Numeral) : Numeral :=
  combine a b (a.value - b.value)

def mul (a b : Numeral) : Numeral :=
  combine a b (a.value * b.value)

def pow (a b : Numeral) : Numeral :=
  combine a b (Float.pow a.value b.value)

/-- None when the divisor is zero. A whole quotient of two numerals without places has none either;
any other quotient takes the places of its value. -/
def div? (a b : Numeral) : Option Numeral :=
  if b.value == 0.0 then none
  else
    let value := a.value / b.value
    if a.precision = 0 ∧ b.precision = 0 ∧ Decimal.isWhole value then some ⟨value, some 0⟩
    else some (ofFloat value)

/-- None when the divisor is zero. -/
def rem? (a b : Numeral) : Option Numeral :=
  if b.value == 0.0 then none else some (combine a b (Decimal.remainder a.value b.value))

def neg (n : Numeral) : Numeral :=
  ⟨-n.value, n.marker⟩

/-- Equality of the values rounded to the larger precision. -/
def eq (a b : Numeral) : Bool :=
  let places := a.precision.larger b.precision
  !a.value.isNaN && !b.value.isNaN && roundTo a.value places == roundTo b.value places

/-- Order of the values rounded to the larger precision; none if one of them is not a number. -/
def compare? (a b : Numeral) : Option Ordering :=
  let places := a.precision.larger b.precision
  let x := roundTo a.value places
  let y := roundTo b.value places
  if x < y then some .lt else if x == y then some .eq else if y < x then some .gt else none

/-- The displayed text. Without places the value goes to the nearest whole number, halves away from
zero, and a zero has no sign; with places it is rounded exactly, halves to the even neighbour. -/
def display (n : Numeral) : String :=
  match Decimal.BinaryFraction.ofFloat? n.value with
  | none => "null"
  | some b =>
    if n.precision = 0 then
      let magnitude := b.roundedTo 0 .away
      String.ofList (Decimal.signText (b.negative && magnitude != 0) ++ Decimal.digitText magnitude)
    else String.ofList (b.fixed n.precision.val)

end Numeral

end TreeQuery
