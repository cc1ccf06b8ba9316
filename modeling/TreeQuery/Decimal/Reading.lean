/-!
# Reading decimal text

`read?` accepts an optional sign followed by digits with an optional point and an optional power
of ten, or by a word for infinity or for a value that is not a number. At least one digit has to be
written in front of the power, and at least one after its mark. The value is the nearest double.
-/

set_option autoImplicit false

namespace TreeQuery.Decimal

/-- A decimal as written: its digits without the point, how many of them follow the point, and the
power of ten. -/
structure Literal where
  negative : Bool
  digits : List Char
  places : Nat
  power : Int
  deriving DecidableEq, Repr

inductive Written where
  | infinity (negative : Bool)
  | notNumber
  | literal (l : Literal)
  deriving DecidableEq, Repr

def digitsValue (cs : List Char) : Nat :=
  cs.foldl (fun n c => 10 * n + (c.toNat - 48)) 0

/-- Splits off a sign; true stands for minus. -/
def takeSign : List Char → Bool × List Char
  | '-' :: r => (true, r)
  | '+' :: r => (false, r)
  | cs => (false, cs)

/-- The signed power of ten that makes up the whole of the given text. -/
def readPower? (cs : List Char) : Option Int :=
  let (negative, ds) := takeSign cs
  if ds.isEmpty || !ds.all Char.isDigit then none
  else
    let n : Int := digitsValue ds
    some (if negative then -n else n)

def readUnsigned? (negative : Bool) (cs : List Char) : Option Literal :=
  let whole := cs.takeWhile Char.isDigit
  let rest := cs.dropWhile Char.isDigit
  let (fraction, tail) := match rest with
    | '.' :: r => (r.takeWhile Char.isDigit, r.dropWhile Char.isDigit)
    | _ => ([], rest)
  let digits := whole ++ fraction
  if digits.isEmpty then none
  else match tail with
    | [] => some ⟨negative, digits, fraction.length, 0⟩
    | c :: power =>
      if c = 'e' ∨ c = 'E' then (readPower? power).map (⟨negative, digits, fraction.length, ·⟩)
      else none

/-- Reads a text from its first to its last character. -/
def read? (cs : List Char) : Option Written :=
  let (negative, body) := takeSign cs
  let word := body.map Char.toLower
  if word = ['i', 'n', 'f'] ∨ word = ['i', 'n', 'f', 'i', 'n', 'i', 't', 'y'] then
    some (.infinity negative)
  else if word = ['n', 'a', 'n'] then some .notNumber
  else (readUnsigned? negative body).map .literal

/-- The double nearest to `digits · 10 ^ power`. Magnitudes beyond every double are infinite and
those below every double are zero, whatever the length of the power. -/
def nearest (digits : Nat) (power : Int) : Float :=
  let point : Int := (Nat.toDigits 10 digits).length + power
  if digits = 0 then 0.0
  else if 400 < point then 1.0 / 0.0
  else if point < -400 then 0.0
  else Float.ofScientific digits (decide (power < 0)) power.natAbs

namespace Literal

def value (l : Literal) : Float :=
  let magnitude := nearest (digitsValue l.digits) (l.power - l.places)
  if l.negative then -magnitude else magnitude

end Literal

namespace Written

def value : Written → Float
  | .infinity negative => if negative then -(1.0 / 0.0) else 1.0 / 0.0
  | .notNumber => 0.0 / 0.0
  | .literal l => l.value

end Written

/-- The double that a text denotes, if it denotes one. -/
def readFloat? (s : String) : Option Float :=
  (read? s.toList).map Written.value

end TreeQuery.Decimal
