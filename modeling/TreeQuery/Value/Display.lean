import TreeQuery.Bytes.Base64
import TreeQuery.Value.Basic

/-!
# Displayed text of values

The text in which values appear in messages. Elements and members that are empty are left out.
-/

set_option autoImplicit false

namespace TreeQuery

/-- Bytes between quotes, in base64. -/
def Bytes.display (b : Bytes) : String :=
  "b\"" ++ Bytes.toBase64 b ++ "\""

/-- How bytes are described without their content. -/
def Bytes.summary (b : Bytes) : String :=
  "Raw(" ++ toString b.length ++ " bytes)"

mutual

def Value.display : Value → String
  | .empty => "empty"
  | .null => "null"
  | .bool b => if b then "true" else "false"
  | .number n => n.display
  | .text s => Text.quote .display s
  | .bytes b => Bytes.display b
  | .array items => "[" ++ String.intercalate ", " (Value.displayItems items) ++ "]"
  | .object fields => "\x7b" ++ String.intercalate ", " (Value.displayFields fields) ++ "\x7d"
  | .fault ⟨kind, _, message, _, _, _, _, _⟩ => "Error(" ++ kind.name ++ ": " ++ message ++ ")"
  | .address a => a.text
  | .stream _ => "\"<stream>\""
  | .lambda _ => "\"<lambda>\""

def Value.displayItems : List Value → List String
  | [] => []
  | v :: rest => if v.isEmpty then Value.displayItems rest else v.display :: Value.displayItems rest

def Value.displayFields : List (String × Value) → List String
  | [] => []
  | (key, v) :: rest =>
    if v.isEmpty then Value.displayFields rest
    else (quotedKey key ++ ": " ++ v.display) :: Value.displayFields rest

end

end TreeQuery
