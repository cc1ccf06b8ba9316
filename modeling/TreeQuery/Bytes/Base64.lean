import TreeQuery.Power
import TreeQuery.Bytes.Hex

/-!
# Bytes as base64 text

Three bytes make four symbols of the standard alphabet; a last group of one or two bytes is padded
with `=`. Reading trims the text and accepts only what writing produces: the padding has to be
complete and the unused bits of the last symbol zero.
-/

set_option autoImplicit false

namespace TreeQuery.Bytes

/-- Why a text is not base64. Symbols are byte values, offsets count bytes. -/
inductive Base64Error where
  | symbol (byte offset : Nat)
  | length (n : Nat)
  | padding
  | lastSymbol (byte offset : Nat)
  deriving DecidableEq, Repr

def Base64Error.message : Base64Error → String
  | .symbol byte offset =>
    "Invalid symbol " ++ toString byte ++ ", offset " ++ toString offset ++ "."
  | .length n => "Invalid input length: " ++ toString n
  | .padding => "Invalid padding"
  | .lastSymbol byte offset =>
    "Invalid last symbol " ++ toString byte ++ ", offset " ++ toString offset ++ "."

/-- The symbol of a six-bit group. -/
def symbolOf (n : Nat) : Char :=
  if n < 26 then Char.ofNat (65 + n)
  else if n < 52 then Char.ofNat (71 + n)
  else if n < 62 then Char.ofNat (n - 4)
  else if n = 62 then '+'
  else '/'

/-- The six-bit group of the byte that encodes a symbol. -/
def groupOf? (b : UInt8) : Option Nat :=
  let n := b.toNat
  if 65 ≤ n ∧ n ≤ 90 then some (n - 65)
  else if 97 ≤ n ∧ n ≤ 122 then some (n - 71)
  else if 48 ≤ n ∧ n ≤ 57 then some (n + 4)
  else if n = 43 then some 62
  else if n = 47 then some 63
  else none

def pad : UInt8 := 61

def base64Chars : Bytes → List Char
  | [] => []
  | [a] =>
    let n := a.toNat * 16
    [symbolOf (n / 64), symbolOf (n % 64), '=', '=']
  | [a, b] =>
    let n := (a.toNat * 256 + b.toNat) * 4
    [symbolOf (n / 4096), symbolOf (n / 64 % 64), symbolOf (n % 64), '=']
  | a :: b :: c :: rest =>
    let n := (a.toNat * 256 + b.toNat) * 256 + c.toNat
    symbolOf (n / 262144) :: symbolOf (n / 4096 % 64) :: symbolOf (n / 64 % 64)
      :: symbolOf (n % 64) :: base64Chars rest

def toBase64 (bytes : Bytes) : String :=
  String.ofList (base64Chars bytes)

/-- The groups of the last four symbols or fewer, and how many pads follow them. A pad may not
stand in the first two places nor in front of a symbol. -/
def lastGroups (start : Nat) : (position : Nat) → (firstPad : Option Nat) → Bytes →
    Except Base64Error (List (UInt8 × Nat) × Nat)
  | _, _, [] => .ok ([], 0)
  | position, firstPad, b :: rest =>
    if b = pad then
      if position < 2 then .error (.symbol 61 (start + position))
      else do
        let (groups, pads) ← lastGroups start (position + 1) (firstPad <|> some position) rest
        .ok (groups, pads + 1)
    else match firstPad with
      | some p => .error (.symbol 61 (start + p))
      | none => match groupOf? b with
        | none => .error (.symbol b.toNat (start + position))
        | some g => do
          let (groups, pads) ← lastGroups start (position + 1) none rest
          .ok ((b, g) :: groups, pads)

/-- Reads the last four symbols or fewer. -/
def ofLastQuad (start : Nat) (quad : Bytes) : Except Base64Error Bytes := do
  let (groups, pads) ← lastGroups start 0 none quad
  let count := groups.length
  if count < 2 then .error (.length (start + count))
  else if (count + pads) % 4 ≠ 0 then .error .padding
  else
    let bits : Nat := groups.foldl (fun n g => 64 * n + g.2) 0
    let unused := 6 * count % 8
    let size := 6 * count / 8
    let last := groups.getLast?.map (·.1.toNat) |>.getD 0
    if bits % twoTo unused ≠ 0 then .error (.lastSymbol last (start + count - 1))
    else
      let n := bits / twoTo unused
      .ok ((List.range size).map fun i => UInt8.ofNat (n / twoTo (8 * (size - 1 - i))))

/-- Reads four symbols that are not the last. -/
def ofQuad (start : Nat) (a b c d : UInt8) : Except Base64Error Nat :=
  match groupOf? a, groupOf? b, groupOf? c, groupOf? d with
  | some p, some q, some r, some s => .ok (((p * 64 + q) * 64 + r) * 64 + s)
  | none, _, _, _ => .error (.symbol a.toNat start)
  | _, none, _, _ => .error (.symbol b.toNat (start + 1))
  | _, _, none, _ => .error (.symbol c.toNat (start + 2))
  | _, _, _, none => .error (.symbol d.toNat (start + 3))

/-- Reads quads from the given offset on; the last one has one to four bytes. -/
def ofQuads (start : Nat) : Bytes → Except Base64Error Bytes
  | [] => .ok []
  | a :: b :: c :: d :: e :: rest => do
    let n ← ofQuad start a b c d
    let tail ← ofQuads (start + 4) (e :: rest)
    .ok (UInt8.ofNat (n / 65536) :: UInt8.ofNat (n / 256) :: UInt8.ofNat n :: tail)
  | quad => ofLastQuad start quad

/-- The bytes that a base64 text denotes. A lone last byte is looked at before all others. -/
def ofBase64 (s : String) : Except Base64Error Bytes :=
  let encoded := ofText (Text.trim s)
  let size := encoded.length
  match encoded.getLast? with
  | none => .ok []
  | some last =>
    if size % 4 = 1 ∧ last ≠ pad ∧ groupOf? last = none then
      .error (.symbol last.toNat (size - 1))
    else ofQuads 0 encoded

end TreeQuery.Bytes
