import TreeQuery.Fault
import TreeQuery.Value.Display
import TreeQuery.Value.Interchange

/-!
# Options

Options are the members of an object that configures something. Reading one fails with a cause that
names the option; the wording of all causes stands in one place.
-/

set_option autoImplicit false

namespace TreeQuery

/-- Why a configuration is refused. -/
inductive OptionError where
  | outOfRange (option : String) (value low high : Float)
  | invalidType (option expected found : String)
  | invalidValue (option value : String)
  | unknown (option : String)
  | malformed

namespace OptionError

def message : OptionError → String
  | .outOfRange option value low high =>
    "option '" ++ option ++ "' = " ++ Decimal.plainText value ++ " is out of range "
      ++ Decimal.plainText low ++ "..=" ++ Decimal.plainText high
  | .invalidType option expected found =>
    "option '" ++ option ++ "' must be " ++ expected ++ ", got " ++ found
  | .invalidValue option value => "option '" ++ option ++ "' has unknown value '" ++ value ++ "'"
  | .unknown option => "unknown option '" ++ option ++ "'"
  | .malformed => "malformed configuration"

/-- The option at fault; a malformed text has none. -/
def option : OptionError → Value
  | .outOfRange o _ _ _ => .text o
  | .invalidType o _ _ => .text o
  | .invalidValue o _ => .text o
  | .unknown o => .text o
  | .malformed => .empty

def toFault (e : OptionError) : Fault :=
  (Fault.of .configuration e.message).withPayload (.object [("option", e.option)])

end OptionError

/-- Fails unless the value lies between the ends, both included. -/
def checkRange (option : String) (value low high : Float) : Except OptionError Unit :=
  if value < low || high < value then .error (.outOfRange option value low high) else .ok ()

structure Options where
  fields : List (String × Value)

namespace Options

/-- Empty and null mean that there are no options; all else has to be an object. -/
def ofValue : Value → Except OptionError Options
  | .object fields => .ok ⟨fields⟩
  | .empty => .ok ⟨[]⟩
  | .null => .ok ⟨[]⟩
  | v => .error (.invalidType "options" "Object" v.typeName)

/-- Fails on the first option that is not known. -/
def only (o : Options) (known : List String) : Except OptionError Unit :=
  match o.fields.find? fun field => !known.contains field.1 with
  | some field => .error (.unknown field.1)
  | none => .ok ()

def get? (o : Options) (option : String) : Option Value :=
  Assoc.get? o.fields option

/-- A whole number in a range, or the default when it is not given. -/
def integer (o : Options) (option : String) (low high default : Int) : Except OptionError Int :=
  match o.get? option with
  | none => .ok default
  | some v =>
    match v with
    | .number n =>
      if n.isWhole then do
        checkRange option n.value (Decimal.ofInt low) (Decimal.ofInt high)
        .ok (Decimal.toInt64Clamped n.value)
      else .error (.invalidType option "an integer" v.typeName)
    | _ => .error (.invalidType option "an integer" v.typeName)

def array? (o : Options) (option : String) : Except OptionError (Option (List Value)) :=
  match o.get? option with
  | none => .ok none
  | some (.array items) => .ok (some items)
  | some v => .error (.invalidType option "an Array" v.typeName)

end Options

end TreeQuery
