import Mathlib.Logic.Basic
import TreeQuery.Fault
import TreeQuery.Proofs.Translation.Syntax
import TreeQuery.Value.Translate

/-!
# Translations of values

What translations do to values, case by case, and that the identity does nothing to them.

A value that a translation leaves alone holds nothing that the translation would move. Translations
thus say what values hold as well: a value without functions and streams (`Value.inert`) is one that
the translation which renames all of them leaves alone.
-/

set_option autoImplicit false

namespace TreeQuery

namespace Assoc

variable {κ α β : Type}

/-- The same keys in the same order, with other values. -/
def mapValues (f : α → β) (m : Assoc κ α) : Assoc κ β :=
  m.map fun entry => (entry.1, f entry.2)

@[simp] theorem mapValues_nil (f : α → β) : mapValues f ([] : Assoc κ α) = [] := rfl

@[simp] theorem mapValues_cons (f : α → β) (key : κ) (v : α) (rest : Assoc κ α) :
    mapValues f ((key, v) :: rest) = (key, f v) :: mapValues f rest := rfl

@[simp] theorem isEmpty_mapValues (f : α → β) (m : Assoc κ α) :
    (mapValues f m).isEmpty = m.isEmpty := by
  cases m <;> rfl

@[simp] theorem length_mapValues (f : α → β) (m : Assoc κ α) :
    (mapValues f m).length = m.length := by
  simp [mapValues]

theorem mapValues_eq_self {f : α → α} {m : Assoc κ α} (same : ∀ entry ∈ m, f entry.2 = entry.2) :
    mapValues f m = m := by
  induction m with
  | nil => rfl
  | cons entry rest ih =>
      obtain ⟨key, v⟩ := entry
      rw [mapValues_cons, same (key, v) List.mem_cons_self,
        ih fun entry member => same entry (List.mem_cons_of_mem _ member)]

variable [DecidableEq κ]

theorem get?_mapValues (f : α → β) (m : Assoc κ α) (key : κ) :
    get? (mapValues f m) key = (get? m key).map f := by
  induction m with
  | nil => rfl
  | cons entry rest ih =>
      obtain ⟨k, v⟩ := entry
      by_cases here : k = key <;> simp [get?, here, ih]

/-- What is found in a table that stays as it is stays as it is. -/
theorem fixed_of_get? {f : α → α} {m : Assoc κ α} (same : mapValues f m = m) {key : κ} {v : α}
    (found : get? m key = some v) : f v = v := by
  have entry := get?_mapValues f m key
  rw [same, found] at entry
  exact (Option.some.inj entry).symm

theorem contains_mapValues (f : α → β) (m : Assoc κ α) (key : κ) :
    contains (mapValues f m) key = contains m key := by
  simp [contains, get?_mapValues]

theorem insert_mapValues (f : α → β) (m : Assoc κ α) (key : κ) (v : α) :
    insert (mapValues f m) key (f v) = mapValues f (insert m key v) := by
  induction m with
  | nil => rfl
  | cons entry rest ih =>
      obtain ⟨k, w⟩ := entry
      by_cases here : k = key <;> simp [insert, here, ih]

theorem erase_mapValues (f : α → β) (m : Assoc κ α) (key : κ) :
    erase (mapValues f m) key = mapValues f (erase m key) := by
  simp only [erase, mapValues, List.filter_map]
  rfl

theorem modify_mapValues {f : α → β} {g : α → α} {h : β → β} (commute : ∀ v, h (f v) = f (g v))
    (m : Assoc κ α) (key : κ) :
    modify (mapValues f m) key h = mapValues f (modify m key g) := by
  unfold modify
  rw [get?_mapValues]
  cases get? m key with
  | none => rfl
  | some v => simp only [Option.map_some, commute, insert_mapValues]

theorem insertAll_mapValues (f : α → β) (m entries : Assoc κ α) :
    insertAll (mapValues f m) (mapValues f entries) = mapValues f (insertAll m entries) := by
  unfold insertAll
  induction entries generalizing m with
  | nil => rfl
  | cons entry rest ih =>
      obtain ⟨key, v⟩ := entry
      simp only [mapValues_cons, List.foldl_cons, insert_mapValues]
      exact ih (insert m key v)

end Assoc

def Signal.translate (τ : Translation) : Signal → Signal
  | .fault f => .fault (f.translate τ)
  | .breakLoop => .breakLoop
  | .continueLoop => .continueLoop
  | .stop reason v => .stop reason (v.translate τ)

section Lists

variable (τ : Translation)

theorem Value.translateItems_eq (items : List Value) :
    Value.translateItems τ items = items.map (Value.translate τ) := by
  induction items with
  | nil => rfl
  | cons v rest ih => simp [Value.translateItems, ih]

theorem Value.translateFields_eq (fields : List (String × Value)) :
    Value.translateFields τ fields = Assoc.mapValues (Value.translate τ) fields := by
  induction fields with
  | nil => rfl
  | cons field rest ih =>
      obtain ⟨key, v⟩ := field
      simp [Value.translateFields, ih]

theorem Fault.translateCause_eq (cause : Option Fault) :
    Fault.translateCause τ cause = cause.map (Fault.translate τ) := by
  cases cause <;> rfl

theorem Evaluated.translateNamed_eq (captured : List (String × Evaluated)) :
    Evaluated.translateNamed τ captured = Assoc.mapValues (Evaluated.translate τ) captured := by
  induction captured with
  | nil => rfl
  | cons entry rest ih =>
      obtain ⟨name, v⟩ := entry
      simp [Evaluated.translateNamed, ih]

theorem Override.translateEntries_eq (entries : List (String × Override)) :
    Override.translateEntries τ entries = Assoc.mapValues (Override.translate τ) entries := by
  induction entries with
  | nil => rfl
  | cons entry rest ih =>
      obtain ⟨symbol, o⟩ := entry
      simp [Override.translateEntries, ih]

@[simp] theorem Value.translate_empty : Value.empty.translate τ = .empty := rfl

@[simp] theorem Value.translate_null : Value.null.translate τ = .null := rfl

@[simp] theorem Value.translate_bool (b : Bool) : (Value.bool b).translate τ = .bool b := rfl

@[simp] theorem Value.translate_number (n : Numeral) :
    (Value.number n).translate τ = .number n := rfl

@[simp] theorem Value.translate_text (s : String) : (Value.text s).translate τ = .text s := rfl

@[simp] theorem Value.translate_bytes (b : Bytes) : (Value.bytes b).translate τ = .bytes b := rfl

@[simp] theorem Value.translate_array (items : List Value) :
    (Value.array items).translate τ = .array (items.map (Value.translate τ)) := by
  rw [Value.translate, Value.translateItems_eq]

@[simp] theorem Value.translate_object (fields : List (String × Value)) :
    (Value.object fields).translate τ = .object (Assoc.mapValues (Value.translate τ) fields) := by
  rw [Value.translate, Value.translateFields_eq]

@[simp] theorem Value.translate_fault (f : Fault) :
    (Value.fault f).translate τ = .fault (f.translate τ) := rfl

@[simp] theorem Value.translate_address (a : Address) :
    (Value.address a).translate τ = .address (a.translate τ) := rfl

@[simp] theorem Value.translate_stream (id : Nat) :
    (Value.stream id).translate τ = .stream (τ.stream id) := rfl

@[simp] theorem Value.translate_lambda (l : Lambda) :
    (Value.lambda l).translate τ = .lambda (l.translate τ) := rfl

theorem Lambda.translate_eq (l : Lambda) : l.translate τ =
    ⟨τ.lambda l.id, τ.definition l.definition,
      Assoc.mapValues (Evaluated.translate τ) l.captured⟩ := by
  cases l
  rw [Lambda.translate, Evaluated.translateNamed_eq]

theorem Overrides.translate_eq (o : Overrides) : o.translate τ =
    ⟨Assoc.mapValues (Override.translate τ) o.entries, o.active⟩ := by
  cases o
  rw [Overrides.translate, Override.translateEntries_eq]

@[simp] theorem Evaluated.value_translate (v : Evaluated) :
    (v.translate τ).value = v.value.translate τ := by
  cases v
  rfl

@[simp] theorem Evaluated.overrides_translate (v : Evaluated) :
    (v.translate τ).overrides = v.overrides.translate τ := by
  cases v
  rfl

@[simp] theorem Evaluated.translate_plain (v : Value) :
    (Evaluated.plain v).translate τ = .plain (v.translate τ) := rfl

@[simp] theorem Overrides.isEmpty_translate (o : Overrides) :
    (o.translate τ).isEmpty = o.isEmpty := by
  rw [Overrides.translate_eq]
  simp [Overrides.isEmpty]

@[simp] theorem Overrides.translate_none : Overrides.none.translate τ = .none := rfl

@[simp] theorem Address.steps_translate (a : Address) : (a.translate τ).steps = a.steps := by
  cases a
  rfl

@[simp] theorem Address.text_translate (a : Address) : (a.translate τ).text = a.text := by
  simp [Address.text]

end Lists

/-! ## Translations that change nothing -/

/-- The translation that leaves everything as it is. -/
def Translation.identity : Translation :=
  ⟨id, id, id, fun _ _ same => same, fun _ _ same => same⟩

/-- The translation that gives functions other identities. -/
def Translation.renaming (lambda : Nat → Nat) (injective : ∀ a b, lambda a = lambda b → a = b) :
    Translation :=
  ⟨id, lambda, id, injective, fun _ _ same => same⟩

mutual

theorem Value.translate_identity : ∀ v : Value, v.translate .identity = v
  | .empty | .null | .bool _ | .number _ | .text _ | .bytes _ | .stream _ => rfl
  | .array items => by rw [Value.translate, Value.translateItems_identity items]
  | .object fields => by rw [Value.translate, Value.translateFields_identity fields]
  | .fault f => by rw [Value.translate, Fault.translate_identity f]
  | .address a => by rw [Value.translate, Address.translate_identity a]
  | .lambda l => by rw [Value.translate, Lambda.translate_identity l]

theorem Value.translateItems_identity :
    ∀ items : List Value, Value.translateItems .identity items = items
  | [] => rfl
  | v :: rest => by
      rw [Value.translateItems, Value.translate_identity v, Value.translateItems_identity rest]

theorem Value.translateFields_identity :
    ∀ fields : List (String × Value), Value.translateFields .identity fields = fields
  | [] => rfl
  | (_, v) :: rest => by
      rw [Value.translateFields, Value.translate_identity v, Value.translateFields_identity rest]

theorem Fault.translate_identity : ∀ f : Fault, f.translate .identity = f
  | ⟨_, _, _, payload, _, _, _, cause⟩ => by
      rw [Fault.translate, Value.translate_identity payload, Fault.translateCause_identity cause]

theorem Fault.translateCause_identity :
    ∀ cause : Option Fault, Fault.translateCause .identity cause = cause
  | none => rfl
  | some f => by rw [Fault.translateCause, Fault.translate_identity f]

theorem Link.translate_identity : ∀ l : Link, l.translate .identity = l
  | .unlinked | .lost => rfl
  | .root v => by rw [Link.translate, Value.translate_identity v]

theorem Address.translate_identity : ∀ a : Address, a.translate .identity = a
  | ⟨_, link⟩ => by rw [Address.translate, Link.translate_identity link]

theorem Lambda.translate_identity : ∀ l : Lambda, l.translate .identity = l
  | ⟨_, _, captured⟩ => by
      rw [Lambda.translate, Evaluated.translateNamed_identity captured]
      rfl

theorem Evaluated.translateNamed_identity :
    ∀ named : List (String × Evaluated), Evaluated.translateNamed .identity named = named
  | [] => rfl
  | (_, v) :: rest => by
      rw [Evaluated.translateNamed, Evaluated.translate_identity v,
        Evaluated.translateNamed_identity rest]

theorem Override.translate_identity : ∀ o : Override, o.translate .identity = o
  | ⟨function, _⟩ => by rw [Override.translate, Lambda.translate_identity function]

theorem Override.translateEntries_identity :
    ∀ entries : List (String × Override), Override.translateEntries .identity entries = entries
  | [] => rfl
  | (_, o) :: rest => by
      rw [Override.translateEntries, Override.translate_identity o,
        Override.translateEntries_identity rest]

theorem Overrides.translate_identity : ∀ o : Overrides, o.translate .identity = o
  | ⟨entries, _⟩ => by rw [Overrides.translate, Override.translateEntries_identity entries]

theorem Evaluated.translate_identity : ∀ v : Evaluated, v.translate .identity = v
  | ⟨value, overrides⟩ => by
      rw [Evaluated.translate, Value.translate_identity value,
        Overrides.translate_identity overrides]

end

theorem Signal.translate_identity (s : Signal) : s.translate .identity = s := by
  cases s with
  | fault f => rw [Signal.translate, Fault.translate_identity]
  | stop reason v => rw [Signal.translate, Value.translate_identity]
  | _ => rfl

theorem Address.map_translate_identity (a : Option Address) :
    a.map (Address.translate .identity) = a := by
  cases a with
  | none => rfl
  | some a => exact congrArg some a.translate_identity

/-! ## Values without functions and streams -/

mutual

/-- Whether a value holds no function and no stream, at any depth. -/
def Value.inert : Value → Bool
  | .array items => Value.inertItems items
  | .object fields => Value.inertFields fields
  | .fault f => f.inert
  | .address a => a.inert
  | .stream _ | .lambda _ => false
  | .empty | .null | .bool _ | .number _ | .text _ | .bytes _ => true

def Value.inertItems : List Value → Bool
  | [] => true
  | v :: rest => v.inert && Value.inertItems rest

def Value.inertFields : List (String × Value) → Bool
  | [] => true
  | (_, v) :: rest => v.inert && Value.inertFields rest

def Fault.inert : Fault → Bool
  | ⟨_, _, _, payload, _, _, _, cause⟩ => payload.inert && Fault.inertCause cause

def Fault.inertCause : Option Fault → Bool
  | none => true
  | some f => f.inert

def Link.inert : Link → Bool
  | .root v => v.inert
  | .unlinked | .lost => true

def Address.inert : Address → Bool
  | ⟨_, link⟩ => link.inert

end

/-- The translation that gives every function and every stream another identity. -/
def Translation.shift : Translation :=
  ⟨id, (· + 1), (· + 1), fun _ _ same => Nat.succ.inj same, fun _ _ same => Nat.succ.inj same⟩

section Inert

variable (τ : Translation)

mutual

theorem Value.translate_inert : ∀ v : Value, v.inert = true → v.translate τ = v
  | .empty, _ | .null, _ | .bool _, _ | .number _, _ | .text _, _ | .bytes _, _ => rfl
  | .array items, inert => by rw [Value.translate, Value.translateItems_inert items inert]
  | .object fields, inert => by rw [Value.translate, Value.translateFields_inert fields inert]
  | .fault f, inert => by rw [Value.translate, Fault.translate_inert f inert]
  | .address a, inert => by rw [Value.translate, Address.translate_inert a inert]
  | .stream _, inert => by simp [Value.inert] at inert
  | .lambda _, inert => by simp [Value.inert] at inert

theorem Value.translateItems_inert :
    ∀ items : List Value, Value.inertItems items = true → Value.translateItems τ items = items
  | [], _ => rfl
  | v :: rest, inert => by
      rw [Value.inertItems, Bool.and_eq_true] at inert
      rw [Value.translateItems, Value.translate_inert v inert.1,
        Value.translateItems_inert rest inert.2]

theorem Value.translateFields_inert :
    ∀ fields : List (String × Value), Value.inertFields fields = true →
      Value.translateFields τ fields = fields
  | [], _ => rfl
  | (_, v) :: rest, inert => by
      rw [Value.inertFields, Bool.and_eq_true] at inert
      rw [Value.translateFields, Value.translate_inert v inert.1,
        Value.translateFields_inert rest inert.2]

theorem Fault.translate_inert : ∀ f : Fault, f.inert = true → f.translate τ = f
  | ⟨_, _, _, payload, _, _, _, cause⟩, inert => by
      rw [Fault.inert, Bool.and_eq_true] at inert
      rw [Fault.translate, Value.translate_inert payload inert.1,
        Fault.translateCause_inert cause inert.2]

theorem Fault.translateCause_inert :
    ∀ cause : Option Fault, Fault.inertCause cause = true →
      Fault.translateCause τ cause = cause
  | none, _ => rfl
  | some f, inert => by rw [Fault.translateCause, Fault.translate_inert f inert]

theorem Link.translate_inert : ∀ l : Link, l.inert = true → l.translate τ = l
  | .unlinked, _ | .lost, _ => rfl
  | .root v, inert => by rw [Link.translate, Value.translate_inert v inert]

theorem Address.translate_inert : ∀ a : Address, a.inert = true → a.translate τ = a
  | ⟨_, link⟩, inert => by rw [Address.translate, Link.translate_inert link inert]

end

end Inert

end TreeQuery
