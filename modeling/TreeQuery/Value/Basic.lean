import TreeQuery.Assoc
import TreeQuery.Program

/-!
# Values

The values that programs compute with. Absence is a value of its own, `empty`, apart from null. An
error, an address with the tree it was found in, a stream and a function are values too. A stream is
known by its identity, and what is left in it is part of the state of the machine. A function has an
identity as well: two functions are the same if they came from one evaluation of one expression.

The result of an evaluation is a value with the operator overrides it carries.
-/

set_option autoImplicit false

namespace TreeQuery

/-- The classification of an error; a program raises errors under names of its own. -/
inductive FaultKind where
  | operator
  | function
  | component
  | componentLoad
  | configuration
  | evaluation
  | raised (name : String)
  deriving DecidableEq, Repr

mutual

inductive Value where
  | empty
  | null
  | bool (b : Bool)
  | number (n : Numeral)
  | text (s : String)
  | bytes (b : Bytes)
  | array (items : List Value)
  | object (fields : List (String × Value))
  | fault (f : Fault)
  | address (a : Address)
  | stream (id : Nat)
  | lambda (l : Lambda)

/-- A structured error. -/
structure Fault where
  kind : FaultKind
  code : Option String
  message : String
  payload : Value
  library : Option String
  function : Option String
  location : Option String
  /-- The error that was being handled when this one arose. -/
  cause : Option Fault

/-- The tree that an address was found in. -/
inductive Link where
  | unlinked
  | root (value : Value)
  /-- Linked to a tree that no longer exists. -/
  | lost

structure Address where
  steps : List Step
  link : Link

/-- A function with the named values it captured. -/
structure Lambda where
  id : Nat
  definition : Definition
  captured : List (String × Evaluated)

/-- A user function in place of an operator. -/
structure Override where
  function : Lambda
  /-- Whether the result of the function carries the overrides on. -/
  cascade : Bool

structure Overrides where
  entries : List (String × Override)
  active : Bool

structure Evaluated where
  value : Value
  overrides : Overrides

end

instance : Inhabited Value := ⟨.empty⟩

namespace FaultKind

def name : FaultKind → String
  | .operator => "OperatorError"
  | .function => "FunctionError"
  | .component => "ComponentError"
  | .componentLoad => "ComponentLoadError"
  | .configuration => "ConfigurationError"
  | .evaluation => "EvaluationError"
  | .raised name => name

/-- The kind with a given name; a name that is not built in is a raised kind. -/
def ofName (s : String) : FaultKind :=
  ([.operator, .function, .component, .componentLoad, .configuration, .evaluation].find?
    fun k => name k == s).getD (.raised s)

def isRaised : FaultKind → Bool
  | .raised _ => true
  | _ => false

end FaultKind

namespace Value

def ofInt (n : Int) : Value :=
  .number (Numeral.ofInt n)

def ofNat (n : Nat) : Value :=
  ofInt n

def isEmpty : Value → Bool
  | .empty => true
  | _ => false

def isNull : Value → Bool
  | .null => true
  | _ => false

def isArray : Value → Bool
  | .array _ => true
  | _ => false

def isObject : Value → Bool
  | .object _ => true
  | _ => false

def isBytes : Value → Bool
  | .bytes _ => true
  | _ => false

def isText : Value → Bool
  | .text _ => true
  | _ => false

def isNumber : Value → Bool
  | .number _ => true
  | _ => false

def isAddress : Value → Bool
  | .address _ => true
  | _ => false

def isLambda : Value → Bool
  | .lambda _ => true
  | _ => false

def isFault : Value → Bool
  | .fault _ => true
  | _ => false

/-- An object or an array. -/
def isStructure (v : Value) : Bool :=
  v.isObject || v.isArray

/-- A text, a number, a truth value or null. -/
def isScalar : Value → Bool
  | .text _ | .number _ | .bool _ | .null => true
  | _ => false

/-- The name of the type, with a name for each truth value. -/
def typeName : Value → String
  | .empty => "Empty"
  | .null => "Null"
  | .bool true => "True"
  | .bool false => "False"
  | .number _ => "Number"
  | .text _ => "String"
  | .bytes _ => "Raw"
  | .array _ => "Array"
  | .object _ => "Object"
  | .fault _ => "Error"
  | .address _ => "Path"
  | .stream _ => "Stream"
  | .lambda _ => "Lambda"

def toInt? : Value → Option Int
  | .number n => n.toInt?
  | _ => none

def text? : Value → Option String
  | .text s => some s
  | _ => none

def bool? : Value → Option Bool
  | .bool b => some b
  | _ => none

/-- The member of an object. -/
def member? : Value → String → Option Value
  | .object fields, key => Assoc.get? fields key
  | _, _ => none

/-- The element of an array. -/
def element? : Value → Nat → Option Value
  | .array items, position => items[position]?
  | _, _ => none

/-- What conditions and filters take for true. -/
def truthy : Value → Bool
  | .empty | .null | .fault _ => false
  | .bool b => b
  | .number n => n.value != 0.0
  | .text s => !s.isEmpty
  | .array items => !items.isEmpty
  | .object fields => !fields.isEmpty
  | .bytes b => !b.isEmpty
  | .address _ | .stream _ | .lambda _ => true

end Value

namespace Address

/-- Links to an object or an array; nothing else can be a root. -/
def linkedTo (steps : List Step) (root : Value) : Address :=
  ⟨steps, if root.isStructure then .root root else .unlinked⟩

def unlinked (steps : List Step) : Address :=
  ⟨steps, .unlinked⟩

/-- One step deeper in the same tree. -/
def child (a : Address) (s : Step) : Address :=
  ⟨a.steps ++ [s], a.link⟩

def text (a : Address) : String :=
  addressText a.steps

/-- Whether a link was set, lost or not. -/
def isLinked (a : Address) : Bool :=
  match a.link with
  | .unlinked => false
  | _ => true

def root? (a : Address) : Option Value :=
  match a.link with
  | .root v => some v
  | _ => none

/-- The same address after its tree is gone. -/
def forgetRoot (a : Address) : Address :=
  match a.link with
  | .root _ => ⟨a.steps, .lost⟩
  | _ => a

end Address

namespace Overrides

def none : Overrides :=
  ⟨[], false⟩

def ofEntries (entries : List (String × Override)) : Overrides :=
  ⟨entries, !entries.isEmpty⟩

def isEmpty (o : Overrides) : Bool :=
  o.entries.isEmpty

/-- The override for a symbol, as long as overrides apply. -/
def find? (o : Overrides) (symbol : String) : Option Override :=
  if o.active then Assoc.get? o.entries symbol else Option.none

def symbols (o : Overrides) : List String :=
  Assoc.keys o.entries

def deactivated (o : Overrides) : Overrides :=
  ⟨o.entries, false⟩

/-- Applies again, if there is anything to apply. -/
def activated (o : Overrides) : Overrides :=
  ⟨o.entries, !o.entries.isEmpty⟩

end Overrides

namespace Evaluated

/-- A value without overrides. -/
def plain (v : Value) : Evaluated :=
  ⟨v, Overrides.none⟩

end Evaluated

end TreeQuery
