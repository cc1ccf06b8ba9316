import TreeQuery.Value.Basic

/-!
# Library functions and their signatures

The functions that a program can call by library and name, and for each the types of its
parameters. A call is checked twice: the number of arguments before they are evaluated, their types
after. An empty argument for an optional parameter counts as absent.
-/

set_option autoImplicit false

namespace TreeQuery.Library

inductive ParamType where
  | text | bool | array | object | bytes | address | fault | stream | any
  deriving DecidableEq, Repr

namespace ParamType

def name : ParamType → String
  | .text => "String"
  | .bool => "Boolean"
  | .array => "Array"
  | .object => "Object"
  | .bytes => "Raw"
  | .address => "Path"
  | .fault => "Error"
  | .stream => "Stream"
  | .any => "Any"

def accepts : ParamType → Value → Bool
  | .text, .text _ => true
  | .bool, .bool _ => true
  | .array, .array _ => true
  | .object, .object _ => true
  | .bytes, .bytes _ => true
  | .address, .address _ => true
  | .fault, .fault _ => true
  | .stream, .stream _ => true
  | .any, _ => true
  | _, _ => false

end ParamType

structure Parameter where
  type : ParamType
  optional : Bool := false
  deriving DecidableEq, Repr

abbrev Signature := List Parameter

inductive SignatureError where
  | unknownFunction (library name : String)
  | argumentCount (low high actual : Nat)
  | typeMismatch (index : Nat) (expected : ParamType) (found : String)
  deriving DecidableEq, Repr

def SignatureError.message : SignatureError → String
  | .unknownFunction library name => "unknown function " ++ library ++ ":" ++ name
  | .argumentCount low high actual =>
    "argument count mismatch: expected " ++ toString low ++ "..=" ++ toString high ++ ", got "
      ++ toString actual
  | .typeMismatch index expected found =>
    "argument " ++ toString index ++ ": expected " ++ expected.name ++ ", got " ++ found

namespace Signature

def required (s : Signature) : Nat :=
  (s.filter fun p => !p.optional).length

def checkCount (s : Signature) (actual : Nat) : Except SignatureError Unit :=
  if actual < required s ∨ s.length < actual then
    .error (.argumentCount (required s) s.length actual)
  else .ok ()

/-- Checks the arguments from an index on against the parameters from there on. -/
def checkTypesFrom : Nat → Signature → List Value → Except SignatureError Unit
  | index, p :: params, v :: args =>
    if (p.optional && v.isEmpty) || p.type.accepts v then checkTypesFrom (index + 1) params args
    else .error (.typeMismatch index p.type v.typeName)
  | _, _, _ => .ok ()

def checkTypes (s : Signature) (args : List Value) : Except SignatureError Unit :=
  checkTypesFrom 0 s args

def check (s : Signature) (args : List Value) : Except SignatureError Unit := do
  checkCount s args.length
  checkTypes s args

end Signature

end TreeQuery.Library

namespace TreeQuery

/-- The library functions. -/
inductive Function where
  | coreType | coreCopy | coreIsEmpty | coreCount
  | objectUpdate | objectUpsert | objectRename | objectRemove
  | pathRetain | pathReclude | pathMerge | pathPaths | pathValue | pathGet | pathCurrent | pathCreate
  | rawEncodeBase64 | rawDecodeBase64 | rawToHex | rawFromHex | rawToString | rawFromString
  | errorCreate | errorKind | errorMessage | errorPayload | errorHandled
  | stateGet | stateSet
  | streamCollect
  deriving DecidableEq, Repr

namespace Function

open Library

def all : List Function :=
  [coreType, coreCopy, coreIsEmpty, coreCount, objectUpdate, objectUpsert, objectRename,
    objectRemove, pathRetain, pathReclude, pathMerge, pathPaths, pathValue, pathGet, pathCurrent,
    pathCreate, rawEncodeBase64, rawDecodeBase64, rawToHex, rawFromHex, rawToString, rawFromString,
    errorCreate, errorKind, errorMessage, errorPayload, errorHandled, stateGet, stateSet,
    streamCollect]

/-- The library of a function and its name in it. -/
def fullName : Function → String × String
  | coreType => ("core", "type")
  | coreCopy => ("core", "copy")
  | coreIsEmpty => ("core", "isEmpty")
  | coreCount => ("core", "count")
  | objectUpdate => ("object", "update")
  | objectUpsert => ("object", "upsert")
  | objectRename => ("object", "rename")
  | objectRemove => ("object", "remove")
  | pathRetain => ("path", "retain")
  | pathReclude => ("path", "reclude")
  | pathMerge => ("path", "merge")
  | pathPaths => ("path", "paths")
  | pathValue => ("path", "value")
  | pathGet => ("path", "get")
  | pathCurrent => ("path", "current")
  | pathCreate => ("path", "create")
  | rawEncodeBase64 => ("raw", "encodeBase64")
  | rawDecodeBase64 => ("raw", "decodeBase64")
  | rawToHex => ("raw", "toHex")
  | rawFromHex => ("raw", "fromHex")
  | rawToString => ("raw", "toString")
  | rawFromString => ("raw", "fromString")
  | errorCreate => ("error", "create")
  | errorKind => ("error", "kind")
  | errorMessage => ("error", "message")
  | errorPayload => ("error", "payload")
  | errorHandled => ("error", "handled")
  | stateGet => ("state", "get")
  | stateSet => ("state", "set")
  | streamCollect => ("stream", "collect")

def find? (library name : String) : Option Function :=
  all.find? fun f => f.fullName == (library, name)

def signature : Function → Signature
  | coreType | coreCopy | coreIsEmpty | coreCount => [⟨.any, false⟩]
  | objectUpdate | objectUpsert => [⟨.object, false⟩, ⟨.object, false⟩]
  | objectRename => [⟨.object, false⟩, ⟨.text, false⟩, ⟨.text, false⟩]
  | objectRemove => [⟨.object, false⟩, ⟨.text, false⟩]
  | pathRetain | pathReclude => [⟨.object, false⟩, ⟨.any, false⟩]
  | pathMerge => [⟨.any, false⟩, ⟨.any, false⟩]
  | pathPaths => [⟨.any, false⟩]
  | pathValue => [⟨.address, false⟩]
  | pathGet => [⟨.any, false⟩, ⟨.address, false⟩]
  | pathCurrent => []
  | pathCreate => [⟨.array, false⟩]
  | rawEncodeBase64 | rawToHex | rawToString => [⟨.bytes, false⟩]
  | rawDecodeBase64 | rawFromHex | rawFromString => [⟨.text, false⟩]
  | errorCreate => [⟨.text, false⟩, ⟨.text, false⟩, ⟨.any, true⟩]
  | errorKind | errorMessage | errorPayload => [⟨.fault, false⟩]
  | errorHandled => [⟨.bool, false⟩]
  | stateGet => [⟨.text, false⟩, ⟨.any, true⟩]
  | stateSet => [⟨.text, false⟩, ⟨.any, false⟩]
  | streamCollect => [⟨.stream, false⟩]

/-- The function with a name, or the error that there is none. -/
def lookup (library name : String) : Except SignatureError Function :=
  match find? library name with
  | some f => .ok f
  | none => .error (.unknownFunction library name)

theorem fullName_of_lookup {library name : String} {f : Function}
    (found : lookup library name = .ok f) : f.fullName = (library, name) := by
  rw [lookup] at found
  split at found
  · rename_i g named
    cases found
    have same := List.find?_some named
    exact eq_of_beq same
  · cases found

end Function

end TreeQuery
