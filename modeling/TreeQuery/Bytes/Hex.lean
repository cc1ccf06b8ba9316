import TreeQuery.Text.Blank
import TreeQuery.Text.Quoted

/-!
# Bytes as hexadecimal text

Two lowercase digits a byte, high half first. Reading trims the text, takes digits of either case,
and on failure gives the offset of the first pair that is not made of two digits; a text with an odd
number of bytes fails at its end.
-/

set_option autoImplicit false

namespace TreeQuery

/-- A sequence of bytes without any encoding. -/
abbrev Bytes := List UInt8

namespace Bytes

/-- The encoded form of a text. -/
def ofText (s : String) : Bytes :=
  s.toUTF8.data.toList

/-- The text whose encoded form these bytes are, if they are well formed. -/
def toText? (bytes : Bytes) : Option String :=
  String.fromUTF8? ⟨bytes.toArray⟩

def hexPair (b : UInt8) : List Char :=
  [Text.hexDigit (b.toNat / 16), Text.hexDigit (b.toNat % 16)]

def toHex (bytes : Bytes) : String :=
  String.ofList (bytes.flatMap hexPair)

/-- The value of the byte that encodes a hexadecimal digit. -/
def hexValue? (b : UInt8) : Option Nat :=
  let n := b.toNat
  if 48 ≤ n ∧ n ≤ 57 then some (n - 48)
  else if 97 ≤ n ∧ n ≤ 102 then some (n - 87)
  else if 65 ≤ n ∧ n ≤ 70 then some (n - 55)
  else none

/-- Reads pairs of digits from the given offset on. -/
def ofHexPairs (offset : Nat) : Bytes → Except Nat Bytes
  | [] => .ok []
  | [_] => .error (offset + 1)
  | high :: low :: rest =>
    match hexValue? high, hexValue? low with
    | some h, some l => (ofHexPairs (offset + 2) rest).map (UInt8.ofNat (16 * h + l) :: ·)
    | _, _ => .error offset

/-- The bytes that a hexadecimal text denotes, or the offset at which it fails. -/
def ofHex (s : String) : Except Nat Bytes :=
  let encoded := ofText (Text.trim s)
  if encoded.length % 2 ≠ 0 then .error encoded.length else ofHexPairs 0 encoded

end Bytes

end TreeQuery
