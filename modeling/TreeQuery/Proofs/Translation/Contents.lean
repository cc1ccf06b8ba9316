import TreeQuery.Proofs.Translation.Values

/-!
# The functions in a value

`Value.Holds p` says that all functions in a value have identities and definitions with `p`, at any
depth, those that other functions have captured included. A translation that leaves these identities
and definitions alone, and all streams, leaves the value as it is (`Value.translate_holds`).
-/

set_option autoImplicit false

namespace TreeQuery

mutual

/-- What holds of the identity and the definition of every function in a value. -/
def Value.Holds (p : Nat → Definition → Prop) : Value → Prop
  | .array items => Value.HoldsItems p items
  | .object fields => Value.HoldsFields p fields
  | .fault f => f.Holds p
  | .address a => a.Holds p
  | .lambda l => l.Holds p
  | .empty | .null | .bool _ | .number _ | .text _ | .bytes _ | .stream _ => True

def Value.HoldsItems (p : Nat → Definition → Prop) : List Value → Prop
  | [] => True
  | v :: rest => v.Holds p ∧ Value.HoldsItems p rest

def Value.HoldsFields (p : Nat → Definition → Prop) : List (String × Value) → Prop
  | [] => True
  | (_, v) :: rest => v.Holds p ∧ Value.HoldsFields p rest

def Fault.Holds (p : Nat → Definition → Prop) : Fault → Prop
  | ⟨_, _, _, payload, _, _, _, cause⟩ => payload.Holds p ∧ Fault.HoldsCause p cause

def Fault.HoldsCause (p : Nat → Definition → Prop) : Option Fault → Prop
  | none => True
  | some f => f.Holds p

def Link.Holds (p : Nat → Definition → Prop) : Link → Prop
  | .root v => v.Holds p
  | .unlinked | .lost => True

def Address.Holds (p : Nat → Definition → Prop) : Address → Prop
  | ⟨_, link⟩ => link.Holds p

def Lambda.Holds (p : Nat → Definition → Prop) : Lambda → Prop
  | ⟨id, definition, captured⟩ => p id definition ∧ Evaluated.HoldsNamed p captured

def Evaluated.HoldsNamed (p : Nat → Definition → Prop) : List (String × Evaluated) → Prop
  | [] => True
  | (_, v) :: rest => v.Holds p ∧ Evaluated.HoldsNamed p rest

def Override.Holds (p : Nat → Definition → Prop) : Override → Prop
  | ⟨function, _⟩ => function.Holds p

def Override.HoldsEntries (p : Nat → Definition → Prop) : List (String × Override) → Prop
  | [] => True
  | (_, o) :: rest => o.Holds p ∧ Override.HoldsEntries p rest

def Overrides.Holds (p : Nat → Definition → Prop) : Overrides → Prop
  | ⟨entries, _⟩ => Override.HoldsEntries p entries

def Evaluated.Holds (p : Nat → Definition → Prop) : Evaluated → Prop
  | ⟨value, overrides⟩ => value.Holds p ∧ overrides.Holds p

end

/-- No functions at any depth. -/
def Value.FunctionFree (v : Value) : Prop :=
  v.Holds fun _ _ => False

/-- A translation that changes neither streams nor functions with `p`. -/
structure Translation.Fixes (τ : Translation) (p : Nat → Definition → Prop) : Prop where
  lambda : ∀ id d, p id d → τ.lambda id = id
  definition : ∀ id d, p id d → τ.definition d = d
  stream : ∀ id, τ.stream id = id

section Fixed

variable {τ : Translation} {p : Nat → Definition → Prop}

mutual

theorem Value.translate_holds (fixes : τ.Fixes p) : ∀ v : Value, v.Holds p → v.translate τ = v
  | .empty, _ | .null, _ | .bool _, _ | .number _, _ | .text _, _ | .bytes _, _ => rfl
  | .stream id, _ => by rw [Value.translate, fixes.stream]
  | .array items, holds => by rw [Value.translate, Value.translateItems_holds fixes items holds]
  | .object fields, holds => by rw [Value.translate, Value.translateFields_holds fixes fields holds]
  | .fault f, holds => by rw [Value.translate, Fault.translate_holds fixes f holds]
  | .address a, holds => by rw [Value.translate, Address.translate_holds fixes a holds]
  | .lambda l, holds => by rw [Value.translate, Lambda.translate_holds fixes l holds]

theorem Value.translateItems_holds (fixes : τ.Fixes p) :
    ∀ items : List Value, Value.HoldsItems p items → Value.translateItems τ items = items
  | [], _ => rfl
  | v :: rest, holds => by
      rw [Value.translateItems, Value.translate_holds fixes v holds.1,
        Value.translateItems_holds fixes rest holds.2]

theorem Value.translateFields_holds (fixes : τ.Fixes p) : ∀ fields : List (String × Value),
    Value.HoldsFields p fields → Value.translateFields τ fields = fields
  | [], _ => rfl
  | (_, v) :: rest, holds => by
      rw [Value.translateFields, Value.translate_holds fixes v holds.1,
        Value.translateFields_holds fixes rest holds.2]

theorem Fault.translate_holds (fixes : τ.Fixes p) : ∀ f : Fault, f.Holds p → f.translate τ = f
  | ⟨_, _, _, payload, _, _, _, cause⟩, holds => by
      rw [Fault.translate, Value.translate_holds fixes payload holds.1,
        Fault.translateCause_holds fixes cause holds.2]

theorem Fault.translateCause_holds (fixes : τ.Fixes p) :
    ∀ cause : Option Fault, Fault.HoldsCause p cause → Fault.translateCause τ cause = cause
  | none, _ => rfl
  | some f, holds => by rw [Fault.translateCause, Fault.translate_holds fixes f holds]

theorem Link.translate_holds (fixes : τ.Fixes p) : ∀ l : Link, l.Holds p → l.translate τ = l
  | .unlinked, _ | .lost, _ => rfl
  | .root v, holds => by rw [Link.translate, Value.translate_holds fixes v holds]

theorem Address.translate_holds (fixes : τ.Fixes p) : ∀ a : Address, a.Holds p → a.translate τ = a
  | ⟨_, link⟩, holds => by rw [Address.translate, Link.translate_holds fixes link holds]

theorem Lambda.translate_holds (fixes : τ.Fixes p) : ∀ l : Lambda, l.Holds p → l.translate τ = l
  | ⟨id, definition, captured⟩, holds => by
      rw [Lambda.translate, fixes.lambda id definition holds.1,
        fixes.definition id definition holds.1,
        Evaluated.translateNamed_holds fixes captured holds.2]

theorem Evaluated.translateNamed_holds (fixes : τ.Fixes p) : ∀ named : List (String × Evaluated),
    Evaluated.HoldsNamed p named → Evaluated.translateNamed τ named = named
  | [], _ => rfl
  | (_, v) :: rest, holds => by
      rw [Evaluated.translateNamed, Evaluated.translate_holds fixes v holds.1,
        Evaluated.translateNamed_holds fixes rest holds.2]

theorem Override.translate_holds (fixes : τ.Fixes p) : ∀ o : Override, o.Holds p → o.translate τ = o
  | ⟨function, _⟩, holds => by rw [Override.translate, Lambda.translate_holds fixes function holds]

theorem Override.translateEntries_holds (fixes : τ.Fixes p) : ∀ entries : List (String × Override),
    Override.HoldsEntries p entries → Override.translateEntries τ entries = entries
  | [], _ => rfl
  | (_, o) :: rest, holds => by
      rw [Override.translateEntries, Override.translate_holds fixes o holds.1,
        Override.translateEntries_holds fixes rest holds.2]

theorem Overrides.translate_holds (fixes : τ.Fixes p) :
    ∀ o : Overrides, o.Holds p → o.translate τ = o
  | ⟨entries, _⟩, holds => by
      rw [Overrides.translate, Override.translateEntries_holds fixes entries holds]

theorem Evaluated.translate_holds (fixes : τ.Fixes p) :
    ∀ v : Evaluated, v.Holds p → v.translate τ = v
  | ⟨value, overrides⟩, holds => by
      rw [Evaluated.translate, Value.translate_holds fixes value holds.1,
        Overrides.translate_holds fixes overrides holds.2]

end

theorem Value.map_translate_holds (fixes : τ.Fixes p) {items : List Value}
    (holds : ∀ v ∈ items, v.Holds p) : items.map (Value.translate τ) = items := by
  have each : ∀ v ∈ items, v.translate τ = id v := fun v member =>
    Value.translate_holds fixes v (holds v member)
  rw [List.map_congr_left each, List.map_id]

theorem Value.streams_translate_holds (fixes : τ.Fixes p) {streams : Assoc Nat (List Value)}
    (holds : ∀ entry ∈ streams, ∀ v ∈ entry.2, v.Holds p) :
    Assoc.mapValues (List.map (Value.translate τ)) streams = streams :=
  Assoc.mapValues_eq_self fun entry member =>
    Value.map_translate_holds fixes (holds entry member)

end Fixed

end TreeQuery
