import TreeQuery.Json.Skip
import TreeQuery.Settings
import TreeQuery.Text.Printable
import TreeQuery.Value.Translate

/-!
# Components

Components take the values that programs hand out, and answer each with a value or an error. Any
function of that value and of what was collected before can be one. A log passes values on; a memory
also keeps them, up to its capacity. A registry knows how to build components of the registered types
from definitions, which are read from JSON.
-/

set_option autoImplicit false

namespace TreeQuery

/-- A component refused a value. -/
structure ComponentError where
  code : String
  reason : String
  deriving DecidableEq, Repr

namespace ComponentError

def message (e : ComponentError) : String :=
  e.code ++ ": " ++ e.reason

def toFault (e : ComponentError) : Fault :=
  ((Fault.of .component e.reason).withCode e.code).withPayload
    (.object [("code", .text e.code), ("message", .text e.reason)])

end ComponentError

/-- A component could not be found or built. -/
inductive LoadError where
  | unknownComponent (name : String)
  | unknownType (kind : String)
  | definitions
  | configuration (name : String) (cause : OptionError)

namespace LoadError

def message : LoadError → String
  | .unknownComponent name => "no definition for component '" ++ name ++ "'"
  | .unknownType kind => "no factory registered for component type '" ++ kind ++ "'"
  | .definitions => "malformed component definitions"
  | .configuration name cause =>
    "component '" ++ name ++ "' is misconfigured: " ++ cause.message

def toFault (e : LoadError) : Fault :=
  Fault.of .componentLoad e.message

end LoadError

/-- A component: what it answers to a value, given what it has collected so far, and what it has
collected then. Functions and streams are opaque to it. -/
structure Component where
  name : String
  produce : List Value → Value → Except ComponentError Value × List Value
  /-- It does the same with other functions and streams. -/
  uniform : ∀ (τ : Translation) (collected : List Value) (v : Value),
    produce (collected.map (Value.translate τ)) (v.translate τ) =
      ((produce collected v).1.map (Value.translate τ),
        (produce collected v).2.map (Value.translate τ))
  /-- Those in an answer are among those of the value that it answers. -/
  answered : ∀ (τ : Translation) (collected : List Value) (v answer : Value),
    (produce collected v).1 = .ok answer → v.translate τ = v → answer.translate τ = answer

namespace Component

/-- Passes values on. -/
def log (name : String) : Component where
  name
  produce collected v := (.ok v, collected)
  uniform _ _ _ := rfl
  answered := by
    rintro τ collected v _ ⟨⟩ inert
    exact inert

/-- Keeps the values that it passes on, up to a capacity. -/
def memory (name : String) (capacity : Nat) : Component where
  name
  produce collected v :=
    if capacity ≤ collected.length then
      (.error ⟨"CAPACITY",
        "component '" ++ name ++ "' is full (" ++ toString capacity ++ " values)"⟩, collected)
    else (.ok v, collected ++ [v])
  uniform τ collected v := by
    rw [List.length_map]
    split
    · rfl
    · simp [Except.map]
  answered := by
    intro τ collected v answer produced inert
    split at produced
    · cases produced
    · cases produced
      exact inert

/-- A memory with the capacity that the options give. -/
def memoryOf (name : String) (options : Value) : Except OptionError Component := do
  let options ← Options.ofValue options
  options.only ["capacity"]
  let capacity ← options.integer "capacity" 1 1000000 10000
  .ok (.memory name capacity.toNat)

structure Definition where
  kind : String
  name : String
  resolveUri : Option String := none
  configuration : Option Json := none

namespace Definition

/-- The configuration as a value; empty when there is none. -/
def options (d : Definition) : Value :=
  match d.configuration with
  | some j => Value.ofSettingsJson j
  | none => .empty

/-- The members of a definition, in the order in which an array gives them. -/
def declared : List String :=
  ["type", "name", "resolveUri", "configuration"]

def ofJson? (j : Json) : Option Definition := do
  let record ← j.record? declared
  let kind ← Json.field? record "type" none Json.text?
  let name ← Json.field? record "name" none Json.text?
  let resolveUri ← Json.field? record "resolveUri" (some none) (Json.optional? Json.text?)
  let configuration ← Json.field? record "configuration" (some none) (Json.optional? some)
  some { kind, name, resolveUri, configuration }

end Definition

/-- The types of component that a registry can build. -/
inductive Factory where
  | log
  | memory
  deriving DecidableEq, Repr

def Factory.build : Factory → Definition → Except OptionError Component
  | .log, d => .ok (.log d.name)
  | .memory, d => memoryOf d.name d.options

structure Registry where
  factories : Assoc String Factory := []
  definitions : Assoc String Definition := []

namespace Registry

def withBuiltins : Registry :=
  { factories := [("log", .log), ("memory", .memory)] }

def define (r : Registry) (d : Definition) : Registry :=
  { r with definitions := Assoc.insert r.definitions d.name d }

/-- Adds the definitions of a JSON text and gives their number. -/
def load (r : Registry) (text : String) : Except LoadError (Nat × Registry) :=
  match (Json.parseRecords? Definition.declared text).bind (·.mapM Definition.ofJson?) with
  | some defs => .ok (defs.length, defs.foldl define r)
  | none => .error .definitions

def listed (names : List String) : String :=
  "[" ++ String.intercalate ", " (names.map Text.diagnostic) ++ "]"

/-- The types and definitions of a registry, for diagnosis. -/
def summary (r : Registry) : String :=
  "ComponentRegistry \x7b types: " ++ listed (Assoc.keys r.factories) ++ ", definitions: "
    ++ listed (Assoc.keys r.definitions) ++ " \x7d"

def definition? (r : Registry) (name : String) : Option Definition :=
  Assoc.get? r.definitions name

def isRegistered (r : Registry) (kind : String) : Bool :=
  Assoc.contains r.factories kind

/-- Builds the component that is defined under a name. -/
def instantiate (r : Registry) (name : String) : Except LoadError Component :=
  match r.definition? name with
  | none => .error (.unknownComponent name)
  | some d =>
    match Assoc.get? r.factories d.kind with
    | none => .error (.unknownType d.kind)
    | some factory => (factory.build d).mapError (.configuration name)

end Registry

end Component

end TreeQuery
