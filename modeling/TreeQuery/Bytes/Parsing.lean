import TreeQuery.Bytes.Base64

/-!
# Failures of reading bytes

The three readings that can fail, base64 text, hexadecimal text and encoded text, with one type for
their causes.
-/

set_option autoImplicit false

namespace TreeQuery

/-- Why bytes could not be read from text, or text from bytes. -/
inductive BytesError where
  | base64 (cause : Bytes.Base64Error)
  | hex (offset : Nat)
  | text
  deriving DecidableEq, Repr

def BytesError.message : BytesError → String
  | .base64 cause => "invalid base64: " ++ cause.message
  | .hex offset => "invalid hex at offset " ++ toString offset
  | .text => "bytes are not valid UTF-8"

namespace Bytes

def parseBase64 (s : String) : Except BytesError Bytes :=
  (ofBase64 s).mapError .base64

def parseHex (s : String) : Except BytesError Bytes :=
  (ofHex s).mapError .hex

def readText (b : Bytes) : Except BytesError String :=
  match toText? b with
  | some s => .ok s
  | none => .error .text

end Bytes

end TreeQuery
