import TreeQuery.Value.Basic

/-!
# Translations

A translation renames the identities of functions and streams, and changes the definitions of
functions, wherever they occur in a value: in containers, in errors and their causes, in the tree an
address is linked to, in what functions have captured and in overrides. All else stays as it is.
-/

set_option autoImplicit false

namespace TreeQuery

/-- Other functions and streams in place of those that are there. -/
structure Translation where
  definition : Definition → Definition
  lambda : Nat → Nat
  stream : Nat → Nat
  lambda_injective : ∀ a b, lambda a = lambda b → a = b
  stream_injective : ∀ a b, stream a = stream b → a = b

mutual

def Value.translate (τ : Translation) : Value → Value
  | .empty => .empty
  | .null => .null
  | .bool b => .bool b
  | .number n => .number n
  | .text s => .text s
  | .bytes b => .bytes b
  | .array items => .array (Value.translateItems τ items)
  | .object fields => .object (Value.translateFields τ fields)
  | .fault f => .fault (f.translate τ)
  | .address a => .address (a.translate τ)
  | .stream id => .stream (τ.stream id)
  | .lambda l => .lambda (l.translate τ)

def Value.translateItems (τ : Translation) : List Value → List Value
  | [] => []
  | v :: rest => v.translate τ :: Value.translateItems τ rest

def Value.translateFields (τ : Translation) : List (String × Value) → List (String × Value)
  | [] => []
  | (key, v) :: rest => (key, v.translate τ) :: Value.translateFields τ rest

def Fault.translate (τ : Translation) : Fault → Fault
  | ⟨kind, code, message, payload, library, function, location, cause⟩ =>
    ⟨kind, code, message, payload.translate τ, library, function, location,
      Fault.translateCause τ cause⟩

def Fault.translateCause (τ : Translation) : Option Fault → Option Fault
  | none => none
  | some f => some (f.translate τ)

def Link.translate (τ : Translation) : Link → Link
  | .unlinked => .unlinked
  | .root v => .root (v.translate τ)
  | .lost => .lost

def Address.translate (τ : Translation) : Address → Address
  | ⟨steps, link⟩ => ⟨steps, link.translate τ⟩

def Lambda.translate (τ : Translation) : Lambda → Lambda
  | ⟨id, definition, captured⟩ =>
    ⟨τ.lambda id, τ.definition definition, Evaluated.translateNamed τ captured⟩

def Evaluated.translateNamed (τ : Translation) :
    List (String × Evaluated) → List (String × Evaluated)
  | [] => []
  | (name, v) :: rest => (name, v.translate τ) :: Evaluated.translateNamed τ rest

def Override.translate (τ : Translation) : Override → Override
  | ⟨function, cascade⟩ => ⟨function.translate τ, cascade⟩

def Override.translateEntries (τ : Translation) : List (String × Override) → List (String × Override)
  | [] => []
  | (symbol, o) :: rest => (symbol, o.translate τ) :: Override.translateEntries τ rest

def Overrides.translate (τ : Translation) : Overrides → Overrides
  | ⟨entries, active⟩ => ⟨Override.translateEntries τ entries, active⟩

def Evaluated.translate (τ : Translation) : Evaluated → Evaluated
  | ⟨value, overrides⟩ => ⟨value.translate τ, overrides.translate τ⟩

end

end TreeQuery
