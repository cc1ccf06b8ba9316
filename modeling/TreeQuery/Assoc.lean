/-!
# Ordered associations

An association is a list of entries in the order in which their keys first came. Setting a key that
is present replaces its value in place; a new key goes to the end. Every operation here keeps the
keys distinct when they are distinct to begin with.
-/

set_option autoImplicit false

namespace TreeQuery

abbrev Assoc (κ α : Type) := List (κ × α)

namespace Assoc

variable {κ α : Type} [DecidableEq κ]

def get? : Assoc κ α → κ → Option α
  | [], _ => none
  | (k, v) :: rest, key => if k = key then some v else get? rest key

def contains (m : Assoc κ α) (key : κ) : Bool :=
  (get? m key).isSome

/-- Replaces the value of a present key where it stands; appends a new one. -/
def insert : Assoc κ α → κ → α → Assoc κ α
  | [], key, v => [(key, v)]
  | (k, w) :: rest, key, v => if k = key then (key, v) :: rest else (k, w) :: insert rest key v

/-- The other entries, in order. -/
def erase (m : Assoc κ α) (key : κ) : Assoc κ α :=
  m.filter fun entry => entry.1 ≠ key

/-- Applies a function to the value of a key, if it is present. -/
def modify (m : Assoc κ α) (key : κ) (f : α → α) : Assoc κ α :=
  match get? m key with
  | some v => insert m key (f v)
  | none => m

def keys (m : Assoc κ α) : List κ :=
  m.map Prod.fst

/-- Inserts the entries of the second association one after the other. -/
def insertAll (m entries : Assoc κ α) : Assoc κ α :=
  entries.foldl (fun acc entry => insert acc entry.1 entry.2) m

/-- A repeated key keeps its first position and takes its last value. -/
def ofEntries (entries : List (κ × α)) : Assoc κ α :=
  insertAll [] entries

theorem get?_insert (m : Assoc κ α) (key other : κ) (v : α) :
    get? (insert m key v) other = if key = other then some v else get? m other := by
  induction m with
  | nil => simp [insert, get?]
  | cons entry rest ih =>
    obtain ⟨k, w⟩ := entry
    by_cases here : k = key
    · subst here
      by_cases same : k = other <;> simp [insert, get?, same]
    · simp only [insert, here, if_false, get?, ih]
      by_cases same : k = other
      · subst same
        simp [Ne.symm here]
      · simp [same]

theorem get?_append (m rest : Assoc κ α) (key : κ) :
    get? (m ++ rest) key = (get? m key).or (get? rest key) := by
  induction m with
  | nil => simp [get?]
  | cons entry m ih =>
    obtain ⟨k, v⟩ := entry
    by_cases here : k = key
    · simp [get?, here]
    · simp [get?, here, ih]

theorem keys_insert (m : Assoc κ α) (key : κ) (v : α) :
    keys (insert m key v) = if key ∈ keys m then keys m else keys m ++ [key] := by
  induction m with
  | nil => simp [insert, keys]
  | cons entry rest ih =>
    obtain ⟨k, w⟩ := entry
    by_cases here : k = key
    · simp [insert, keys, here]
    · have apart : key ≠ k := fun h => here h.symm
      simp only [keys] at ih
      by_cases later : key ∈ rest.map Prod.fst <;>
        simp_all [insert, keys]

end Assoc

end TreeQuery
