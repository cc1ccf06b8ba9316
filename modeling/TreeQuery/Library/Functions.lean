import TreeQuery.Library.Signature
import TreeQuery.Operation
import TreeQuery.Store

/-!
# What library functions compute

The functions that need nothing but their arguments. The functions on the machine's own state (the
cursor, the handled flag, the store and the streams) are in the evaluator.
-/

set_option autoImplicit false

namespace TreeQuery.Library

/-- Why a call of a library function fails. -/
inductive CallError where
  | signature (cause : SignatureError)
  | expectedObject (found : String)
  | patchNotObject
  | expectedAddresses
  | badSteps
  | doNotFit (count : Nat) (library name : String)
  | bytes (cause : BytesError)
  | store (cause : StoreError)

namespace CallError

def message : CallError → String
  | .signature cause => cause.message
  | .expectedObject found => "argument error: expected an Object, got " ++ found
  | .patchNotObject => "argument error: patch must be an Object"
  | .expectedAddresses => "argument error: expected a Path or an Array of Paths"
  | .badSteps => "argument error: path parts must be Strings or non-negative integers"
  | .doNotFit count library name =>
    "argument error: " ++ toString count ++ " arguments do not fit " ++ library ++ ":" ++ name
  | .bytes cause => cause.message
  | .store cause => cause.message

/-- The structured error, tagged with the function. A store keeps its own kind and code. -/
def toFault (e : CallError) (library name : String) : Fault :=
  (match e with
    | .store cause => cause.toFault
    | other => Fault.of .function other.message).inFunction library name

end CallError

/-! ## Any value -/

/-- Empty, or a text, array, object or byte sequence without content. -/
def isEmpty : Value → Bool
  | .empty => true
  | .text s => s.isEmpty
  | .array items => items.isEmpty
  | .object fields => fields.isEmpty
  | .bytes b => b.isEmpty
  | _ => false

/-- The number of elements or members; none for empty, one for anything else. -/
def count : Value → Nat
  | .empty => 0
  | .array items => items.length
  | .object fields => fields.length
  | _ => 1

/-! ## Objects -/

def fieldsOf : Value → Except CallError (List (String × Value))
  | .object fields => .ok fields
  | v => .error (.expectedObject v.typeName)

def patchOf : Value → Except CallError (List (String × Value))
  | .object fields => .ok fields
  | _ => .error .patchNotObject

/-- Applies one member of a patch: empty deletes, anything else replaces or, if new members are
let in, appends. -/
def applyMember (insertNew : Bool) (fields : List (String × Value)) (entry : String × Value) :
    List (String × Value) :=
  if entry.2.isEmpty then Assoc.erase fields entry.1
  else if insertNew || Assoc.contains fields entry.1 then Assoc.insert fields entry.1 entry.2
  else fields

def applyPatch (insertNew : Bool) (fields patch : List (String × Value)) : List (String × Value) :=
  patch.foldl (applyMember insertNew) fields

/-- Replaces members that exist. -/
def update (v patch : Value) : Except CallError Value := do
  let fields ← fieldsOf v
  let patch ← patchOf patch
  .ok (.object (applyPatch false fields patch))

/-- Replaces or appends members. -/
def upsert (v patch : Value) : Except CallError Value := do
  let fields ← fieldsOf v
  let patch ← patchOf patch
  .ok (.object (applyPatch true fields patch))

/-- Puts the member `source` under the key `target`, where it stands; another member under that key
is dropped. -/
def renameField (fields : List (String × Value)) (source target : String) :
    List (String × Value) :=
  if Assoc.contains fields source ∧ source ≠ target then
    (fields.filter fun field => field.1 ≠ target).map fun field =>
      if field.1 = source then (target, field.2) else field
  else fields

def rename (v : Value) (source target : String) : Except CallError Value := do
  let fields ← fieldsOf v
  .ok (.object (renameField fields source target))

def remove (v : Value) (key : String) : Except CallError Value := do
  let fields ← fieldsOf v
  .ok (.object (Assoc.erase fields key))

/-! ## Addresses -/

def addressesOf (v : Value) : Except CallError (List Address) :=
  match Operation.addressList? v with
  | some list => .ok list
  | none => .error .expectedAddresses

def retain (v list : Value) : Except CallError Value := do
  let list ← addressesOf list
  .ok (v.retain (Operation.ways list))

def reclude (v list : Value) : Except CallError Value := do
  let list ← addressesOf list
  .ok (v.reclude (Operation.ways list))

def leaves (v : Value) : Value :=
  .array (v.leaves.map .address)

def createAddress (v : Value) : Except CallError Value :=
  match Address.ofValue? v with
  | some a => .ok (.address a)
  | none => .error .badSteps

/-! ## Bytes -/

def decodeBase64 (s : String) : Except CallError Value :=
  match Bytes.parseBase64 s with
  | .ok b => .ok (.bytes b)
  | .error e => .error (.bytes e)

def fromHex (s : String) : Except CallError Value :=
  match Bytes.parseHex s with
  | .ok b => .ok (.bytes b)
  | .error e => .error (.bytes e)

def toText (b : Bytes) : Except CallError Value :=
  match Bytes.readText b with
  | .ok s => .ok (.text s)
  | .error e => .error (.bytes e)

/-! ## Streams -/

def chunksOf : List Value → Bytes
  | [] => []
  | .bytes b :: rest => b ++ chunksOf rest
  | _ :: rest => chunksOf rest

/-- Byte chunks are joined; anything else becomes an array. -/
def collected (items : List Value) : Value :=
  if !items.isEmpty && items.all Value.isBytes then .bytes (chunksOf items) else .array items

end TreeQuery.Library
