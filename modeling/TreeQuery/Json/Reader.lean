import TreeQuery.Decimal.Reading
import TreeQuery.Json.Basic

/-!
# Reading JSON text

The reader takes the standard grammar and nothing beyond it. Blanks are space, tab, line feed and
carriage return; a control character in a text, half of a surrogate pair, a number beyond every
double, text after the value and a nesting of more than 127 containers are refused. A number without
point and power that fits 64 bits is whole; minus zero and all others are doubles.
-/

set_option autoImplicit false

namespace TreeQuery.Json

/-- Reads something at the start of a text and gives the rest. -/
abbrev Reader (α : Type) := List Char → Option (α × List Char)

def isBlank (c : Char) : Bool :=
  c == ' ' || c == '\t' || c == '\n' || c == '\r'

def skipBlank (cs : List Char) : List Char :=
  cs.dropWhile isBlank

def hexValue? (c : Char) : Option Nat :=
  if '0' ≤ c ∧ c ≤ '9' then some (c.toNat - 48)
  else if 'a' ≤ c ∧ c ≤ 'f' then some (c.toNat - 87)
  else if 'A' ≤ c ∧ c ≤ 'F' then some (c.toNat - 55)
  else none

def hex4? (a b c d : Char) : Option Nat := do
  let a ← hexValue? a
  let b ← hexValue? b
  let c ← hexValue? c
  let d ← hexValue? d
  some (((a * 16 + b) * 16 + c) * 16 + d)

/-- The character that a one-letter escape stands for. -/
def escaped? : Char → Option Char
  | '"' => some '"'
  | '\\' => some '\\'
  | '/' => some '/'
  | 'b' => some '\x08'
  | 'f' => some '\x0c'
  | 'n' => some '\n'
  | 'r' => some '\r'
  | 't' => some '\t'
  | _ => none

def isHighSurrogate (n : Nat) : Bool :=
  0xD800 ≤ n && n < 0xDC00

def isLowSurrogate (n : Nat) : Bool :=
  0xDC00 ≤ n && n < 0xE000

/-- Reads a text up to and including its closing quote. -/
def readText : Reader (List Char)
  | [] => none
  | '"' :: rest => some ([], rest)
  | '\\' :: 'u' :: a :: b :: c :: d :: rest =>
    match hex4? a b c d with
    | none => none
    | some n =>
      if isHighSurrogate n then
        match rest with
        | '\\' :: 'u' :: e :: f :: g :: h :: rest =>
          match hex4? e f g h with
          | none => none
          | some m =>
            if isLowSurrogate m then
              (readText rest).map fun (s, r) =>
                (Char.ofNat (0x10000 + (n - 0xD800) * 0x400 + (m - 0xDC00)) :: s, r)
            else none
        | _ => none
      else if isLowSurrogate n then none
      else (readText rest).map fun (s, r) => (Char.ofNat n :: s, r)
  | '\\' :: l :: rest =>
    match escaped? l with
    | some c => (readText rest).map fun (s, r) => (c :: s, r)
    | none => none
  | c :: rest =>
    if c = '\\' ∨ c.toNat < 32 then none else (readText rest).map fun (s, r) => (c :: s, r)

/-- The digits of a whole part: zero alone, or digits that do not start with zero. -/
def readWhole : Reader (List Char) := fun cs =>
  let digits := cs.takeWhile Char.isDigit
  let rest := cs.dropWhile Char.isDigit
  match digits with
  | [] => none
  | ['0'] => some (digits, rest)
  | c :: _ => if c = '0' then none else some (digits, rest)

/-- The digits after a point, of which there has to be one, or none without a point. -/
def readFraction : Reader (List Char) := fun cs =>
  match cs with
  | '.' :: r =>
    let digits := r.takeWhile Char.isDigit
    if digits.isEmpty then none else some (digits, r.dropWhile Char.isDigit)
  | _ => some ([], cs)

/-- The power of ten, if one is written. -/
def readExponent : Reader (Option Int) := fun cs =>
  match cs with
  | c :: r =>
    if c = 'e' ∨ c = 'E' then
      let (negative, body) := Decimal.takeSign r
      let digits := body.takeWhile Char.isDigit
      if digits.isEmpty then none
      else
        let n : Int := Decimal.digitsValue digits
        some (some (if negative then -n else n), body.dropWhile Char.isDigit)
    else some (none, cs)
  | [] => some (none, [])

/-- A whole number of 64 bits, unless it is minus zero. -/
def wholeOf? (negative : Bool) (n : Nat) : Option Int :=
  if negative then if 0 < n ∧ n ≤ twoTo 63 then some (-(n : Int)) else none
  else if n < twoTo 64 then some n else none

def readNumber (negative : Bool) : Reader Json := fun cs => do
  let (whole, rest) ← readWhole cs
  let (fraction, rest) ← readFraction rest
  let (power, rest) ← readExponent rest
  match fraction, power, wholeOf? negative (Decimal.digitsValue whole) with
  | [], none, some n => some (.integer n, rest)
  | _, _, _ =>
    let l : Decimal.Literal := ⟨negative, whole ++ fraction, fraction.length, power.getD 0⟩
    if l.value.isFinite then some (.real l.value, rest) else none

/-- Reads a quoted text, its quotes included. -/
def readQuoted : Reader String
  | '"' :: rest => (readText rest).map fun (s, rest) => (String.ofList s, rest)
  | _ => none

/-- Reads the rest of an array after its first bracket and blanks; the fuel bounds the elements. -/
def readItems {α : Type} (one : Reader α) : Nat → Reader (List α)
  | 0, _ => none
  | fuel + 1, cs => do
    let (v, rest) ← one cs
    match skipBlank rest with
    | ',' :: rest =>
      let (vs, rest) ← readItems one fuel rest
      some (v :: vs, rest)
    | ']' :: rest => some ([v], rest)
    | _ => none

/-- Reads the rest of an object after its first brace and blanks; the fuel bounds the members. How a
member is read may depend on its key. -/
def readMembers {κ α : Type} (key : Reader κ) (one : κ → Reader α) : Nat → Reader (List (κ × α))
  | 0, _ => none
  | fuel + 1, cs => do
    let (k, rest) ← key cs
    match skipBlank rest with
    | ':' :: rest =>
      let (v, rest) ← one k rest
      match skipBlank rest with
      | ',' :: rest =>
        let (members, rest) ← readMembers key one fuel (skipBlank rest)
        some ((k, v) :: members, rest)
      | '\x7d' :: rest => some ([(k, v)], rest)
      | _ => none
    | _ => none

/-- Reads one value and gives what follows it. The first argument is how many containers may still
be opened; each element takes at least one character, so the length of the text bounds the
elements. -/
def readValue : Nat → Reader Json
  | nesting, cs =>
    match skipBlank cs with
    | 'n' :: 'u' :: 'l' :: 'l' :: rest => some (.null, rest)
    | 't' :: 'r' :: 'u' :: 'e' :: rest => some (.bool true, rest)
    | 'f' :: 'a' :: 'l' :: 's' :: 'e' :: rest => some (.bool false, rest)
    | '"' :: rest => (readText rest).map fun (s, rest) => (.text (String.ofList s), rest)
    | '-' :: rest => readNumber true rest
    | '[' :: rest =>
      match nesting with
      | 0 => none
      | nesting + 1 =>
        match skipBlank rest with
        | ']' :: rest => some (.array [], rest)
        | rest => (readItems (readValue nesting) rest.length rest).map fun (js, rest) =>
            (.array js, rest)
    | '\x7b' :: rest =>
      match nesting with
      | 0 => none
      | nesting + 1 =>
        match skipBlank rest with
        | '\x7d' :: rest => some (.object [], rest)
        | rest =>
          (readMembers readQuoted (fun _ => readValue nesting) rest.length rest).map
            fun (members, rest) => (.object members, rest)
    | rest => readNumber false rest

/-- How many containers may stand inside each other. -/
def maxNesting : Nat := 127

/-- What the whole of a text is read as; only blanks may follow. -/
def readAll? {α : Type} (one : Reader α) (s : String) : Option α := do
  let (v, rest) ← one s.toList
  if (skipBlank rest).isEmpty then some v else none

/-- The tree that a text denotes, if it is well formed from its first to its last character. -/
def parse? (s : String) : Option Json :=
  readAll? (readValue maxNesting) s

end TreeQuery.Json
