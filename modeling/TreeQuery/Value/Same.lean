import TreeQuery.Value.Basic

/-!
# Sameness of values

Two values are the same when they have the same content: numbers by their meaning, arrays element
by element, objects member by member in any order, errors field by field, addresses by their steps
alone, streams and functions by their identity. Values of different kinds are never the same.
-/

set_option autoImplicit false

namespace TreeQuery

mutual

def Value.same : Value → Value → Bool
  | .empty, .empty => true
  | .null, .null => true
  | .bool a, .bool b => a == b
  | .number a, .number b => a.eq b
  | .text a, .text b => a == b
  | .bytes a, .bytes b => a == b
  | .array a, .array b => Value.sameItems a b
  | .object a, .object b => a.length == b.length && Value.sameFields a b
  | .fault a, .fault b => Fault.same a b
  | .address a, .address b => a.steps == b.steps
  | .stream a, .stream b => a == b
  | .lambda a, .lambda b => a.id == b.id
  | _, _ => false
termination_by structural v => v

def Value.sameItems : List Value → List Value → Bool
  | [], [] => true
  | v :: vs, w :: ws => Value.same v w && Value.sameItems vs ws
  | _, _ => false
termination_by structural vs => vs

/-- Every member of the first has a same member in the second. -/
def Value.sameFields : List (String × Value) → List (String × Value) → Bool
  | [], _ => true
  | (key, v) :: rest, others =>
    (match Assoc.get? others key with
      | some w => Value.same v w
      | none => false) && Value.sameFields rest others
termination_by structural fields => fields

def Fault.same : Fault → Fault → Bool
  | ⟨kind, code, message, payload, library, function, location, cause⟩, b =>
    kind == b.kind && code == b.code && message == b.message && Value.same payload b.payload
      && library == b.library && function == b.function && location == b.location
      && Fault.sameCause cause b.cause
termination_by structural a => a

def Fault.sameCause : Option Fault → Option Fault → Bool
  | none, none => true
  | some a, some b => Fault.same a b
  | _, _ => false
termination_by structural a => a

end

end TreeQuery
