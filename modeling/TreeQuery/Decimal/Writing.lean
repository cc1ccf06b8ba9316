import TreeQuery.Decimal.Shortest

/-!
# Decimal text of a double

Three ways of writing a finite double: with a fixed number of places, with the fewest digits that
read back and no exponent, and in the interchange form, which has an exponent for very small and
very large magnitudes and otherwise always a point.
-/

set_option autoImplicit false

namespace TreeQuery.Decimal

def digitText (n : Nat) : List Char :=
  Nat.toDigits 10 n

def zeros (n : Nat) : List Char :=
  List.replicate n '0'

def signText (negative : Bool) : List Char :=
  if negative then ['-'] else []

/-- `n · 10 ^ -places`, with exactly that many digits after the point. -/
def placed (n places : Nat) : List Char :=
  if places = 0 then digitText n
  else
    let ds := digitText n
    let padded := zeros (places + 1 - ds.length) ++ ds
    let whole := padded.length - places
    padded.take whole ++ '.' :: padded.drop whole

namespace BinaryFraction

/-- The value rounded to a fixed number of places, a half to the even neighbour. The sign is
written whenever it is negative, also in front of a zero. -/
def fixed (x : BinaryFraction) (places : Nat) : List Char :=
  signText x.negative ++ placed (x.roundedTo places .even) places

end BinaryFraction

namespace Digits

/-- All digits and no exponent. -/
def positional (d : Digits) : List Char :=
  if 0 ≤ d.exponent then digitText d.digits ++ zeros d.exponent.toNat
  else placed d.digits d.places

/-- One digit before the point, and the signed power of ten. -/
def scientific (d : Digits) : List Char :=
  let ds := digitText d.digits
  let power := d.exponent + ds.length - 1
  let mantissa := match ds with
    | [] => []
    | [c] => [c]
    | c :: rest => c :: '.' :: rest
  let sign := if power < 0 then '-' else '+'
  mantissa ++ 'e' :: sign :: digitText power.natAbs

/-- The interchange form: positional with a point when the point falls at most sixteen digits into
the number and at most four zeros follow it, scientific otherwise. -/
def interchange (d : Digits) : List Char :=
  let point := d.exponent + (digitText d.digits).length
  if d.digits = 0 then ['0', '.', '0']
  else if point ≤ -5 ∨ 16 < point then d.scientific
  else if 0 ≤ d.exponent then d.positional ++ ['.', '0']
  else d.positional

end Digits

/-- The fewest digits that read back, without an exponent. Of two equally near decimals the larger
magnitude is written. -/
def plainText (x : Float) : String :=
  match BinaryFraction.ofFloat? x with
  | none => if x.isNaN then "NaN" else if x < 0 then "-inf" else "inf"
  | some b => String.ofList (signText b.negative ++ (shortest b .away).positional)

/-- The interchange form of a finite double. Of two equally near decimals the even one is written. -/
def interchangeText (x : Float) : String :=
  match BinaryFraction.ofFloat? x with
  | none => "null"
  | some b => String.ofList (signText b.negative ++ (shortest b .even).interchange)

end TreeQuery.Decimal
