import TreeQuery.Json.Reader
import TreeQuery.Value.Display

/-!
# Values as JSON

Every value has a JSON tree: what is empty is left out of containers and null elsewhere, bytes are
base64 text, an error is an object of its fields, an address is its text, and streams and functions
are the empty text. Back from JSON, whole numbers have precision zero and others none as yet.
-/

set_option autoImplicit false

namespace TreeQuery

def Numeral.toJson (n : Numeral) : Json :=
  if n.value.isFinite then
    match n.toInt? with
    | some i => .integer i
    | none => .real n.rounded
  else .null

namespace Value

/-- A member that is written only when there is something to write. -/
def optionalText (key : String) : Option String → List (String × Json)
  | some s => [(key, .text s)]
  | none => []

mutual

def toJson : Value → Json
  | .empty => .null
  | .null => .null
  | .bool b => .bool b
  | .number n => n.toJson
  | .text s => .text s
  | .bytes b => .text (Bytes.toBase64 b)
  | .array items => .array (toJsonItems items)
  | .object fields => .object (toJsonFields fields)
  | .fault ⟨kind, code, message, payload, library, function, location, _⟩ =>
    .object ([("type", .text kind.name)] ++ optionalText "code" code
      ++ [("message", .text message)]
      ++ (if payload.isEmpty then [] else [("value", toJson payload)])
      ++ optionalText "functionNamespace" library ++ optionalText "functionName" function
      ++ optionalText "location" location)
  | .address a => .text a.text
  | .stream _ => .text ""
  | .lambda _ => .text ""

def toJsonItems : List Value → List Json
  | [] => []
  | v :: rest => if v.isEmpty then toJsonItems rest else toJson v :: toJsonItems rest

def toJsonFields : List (String × Value) → List (String × Json)
  | [] => []
  | (key, v) :: rest =>
    if v.isEmpty then toJsonFields rest else (key, toJson v) :: toJsonFields rest

end

mutual

/-- The value of a tree; `whole` says what becomes of a whole number. -/
def ofJsonWith (whole : Int → Numeral) : Json → Value
  | .null => .null
  | .bool b => .bool b
  | .integer n => .number (whole n)
  | .real x => .number (Numeral.ofFloat x)
  | .text s => .text s
  | .array items => .array (ofJsonItems whole items)
  | .object members => .object (Assoc.ofEntries (ofJsonMembers whole members))

def ofJsonItems (whole : Int → Numeral) : List Json → List Value
  | [] => []
  | j :: rest => ofJsonWith whole j :: ofJsonItems whole rest

def ofJsonMembers (whole : Int → Numeral) : List (String × Json) → List (String × Value)
  | [] => []
  | (key, j) :: rest => (key, ofJsonWith whole j) :: ofJsonMembers whole rest

end

/-- The value of a tree; all whole numbers have precision zero. -/
def ofJson (j : Json) : Value :=
  ofJsonWith Numeral.ofInt j

/-- A whole number that does not fit 64 signed bits loses its precision. -/
def signedWhole (n : Int) : Numeral :=
  if n < twoTo 63 then Numeral.ofInt n else Numeral.ofFloat (Decimal.ofInt n)

/-- The value of a tree whose large whole numbers count as plain doubles. -/
def ofSettingsJson (j : Json) : Value :=
  ofJsonWith signedWhole j

def compactJson (v : Value) : String :=
  v.toJson.compact

def indentedJson (v : Value) : String :=
  v.toJson.indented

/-- The value that a JSON text denotes. -/
def parseJson? (s : String) : Option Value :=
  (Json.parse? s).map ofJson

end Value

end TreeQuery
