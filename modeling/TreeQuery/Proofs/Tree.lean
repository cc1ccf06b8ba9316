import Mathlib.Data.List.Forall2
import TreeQuery.Value.Selection

/-!
# Trees

Arrays and objects as trees: an induction principle over them, and what holds at every location.

* `Value.partInduction`: a property of all values from their parts up, `Value.treeInduction`, the
  same from the elements of arrays and the members of objects only, and `Value.childInduction`, from
  what single steps lead to;
* `Value.Everywhere`: a property of every location that can be walked to, and `Value.Distinct`, the
  case that the keys of every object are distinct.
-/

set_option autoImplicit false

namespace TreeQuery

namespace Assoc

variable {κ α : Type} [DecidableEq κ]

theorem get?_eq_none_iff (m : Assoc κ α) (key : κ) : get? m key = none ↔ key ∉ keys m := by
  induction m with
  | nil => simp [get?, keys]
  | cons entry rest ih =>
      obtain ⟨k, v⟩ := entry
      by_cases here : k = key
      · simp [get?, keys, here]
      · simp only [keys] at ih
        simp [get?, keys, here, Ne.symm here, ih]

theorem mem_of_get? {m : Assoc κ α} {key : κ} {v : α} (found : get? m key = some v) :
    (key, v) ∈ m := by
  induction m with
  | nil => simp [get?] at found
  | cons entry rest ih =>
      obtain ⟨k, w⟩ := entry
      by_cases here : k = key
      · simp only [get?, here, if_true, Option.some.injEq] at found
        simp [here, found]
      · simp only [get?, here, if_false] at found
        exact List.mem_cons_of_mem _ (ih found)

theorem get?_of_mem {m : Assoc κ α} {key : κ} {v : α} (distinct : (keys m).Nodup)
    (member : (key, v) ∈ m) : get? m key = some v := by
  induction m with
  | nil => simp at member
  | cons entry rest ih =>
      obtain ⟨k, w⟩ := entry
      simp only [keys, List.map_cons, List.nodup_cons] at distinct
      rcases List.mem_cons.mp member with same | later
      · cases same
        simp [get?]
      · have apart : k ≠ key := by
          rintro rfl
          exact distinct.1 (List.mem_map.mpr ⟨_, later, rfl⟩)
        simp [get?, apart, ih distinct.2 later]

theorem insert_of_not_mem {m : Assoc κ α} {key : κ} (fresh : key ∉ keys m) (v : α) :
    insert m key v = m ++ [(key, v)] := by
  induction m with
  | nil => rfl
  | cons entry rest ih =>
      simp only [keys, List.map_cons, List.mem_cons, not_or] at fresh
      rw [insert, if_neg (Ne.symm fresh.1), ih fresh.2, List.cons_append]

/-- Entries without repeated keys are kept as they are. -/
theorem insertAll_of_nodup {m entries : Assoc κ α} (distinct : (keys (m ++ entries)).Nodup) :
    insertAll m entries = m ++ entries := by
  induction entries generalizing m with
  | nil => exact (List.append_nil m).symm
  | cons entry rest ih =>
      have whole : m ++ entry :: rest = (m ++ [entry]) ++ rest := by simp
      have fresh : entry.1 ∉ keys m := by
        rw [keys, List.map_append, List.map_cons, List.nodup_append] at distinct
        exact fun member => distinct.2.2 _ member _ (List.mem_cons_self ..) rfl
      rw [whole] at distinct ⊢
      rw [← ih distinct, ← insert_of_not_mem fresh entry.2]
      rfl

end Assoc

namespace Value

/-- A property of all values, from their parts up: the elements of arrays, the members of objects, and
the payload and the cause of faults. -/
@[elab_as_elim]
theorem partInduction {motive : Value → Prop}
    (leaf : ∀ v, v.isStructure = false → v.isFault = false → motive v)
    (array : ∀ items, (∀ v ∈ items, motive v) → motive (.array items))
    (object : ∀ fields, (∀ field ∈ fields, motive field.2) → motive (.object fields))
    (fault : ∀ f : Fault, motive f.payload → (∀ g, f.cause = some g → motive (.fault g)) →
      motive (.fault f))
    (v : Value) : motive v :=
  match v with
  | .array items => array items fun v _ => partInduction leaf array object fault v
  | .object fields => object fields fun field _ => partInduction leaf array object fault field.2
  | .fault ⟨kind, code, message, payload, library, function, location, cause⟩ =>
      fault ⟨kind, code, message, payload, library, function, location, cause⟩
        (partInduction leaf array object fault payload)
        fun g _ => partInduction leaf array object fault (.fault g)
  | .empty => leaf _ rfl rfl
  | .null => leaf _ rfl rfl
  | .bool _ => leaf _ rfl rfl
  | .number _ => leaf _ rfl rfl
  | .text _ => leaf _ rfl rfl
  | .bytes _ => leaf _ rfl rfl
  | .address _ => leaf _ rfl rfl
  | .stream _ => leaf _ rfl rfl
  | .lambda _ => leaf _ rfl rfl
termination_by sizeOf v
decreasing_by
  · rename_i member
    have smaller := List.sizeOf_lt_of_mem member
    simp only [Value.array.sizeOf_spec]
    omega
  · rename_i member
    have smaller := List.sizeOf_lt_of_mem member
    obtain ⟨key, w⟩ := field
    simp only [Value.object.sizeOf_spec, Prod.mk.sizeOf_spec] at smaller ⊢
    omega
  · simp only [Value.fault.sizeOf_spec, Fault.mk.sizeOf_spec]
    omega
  · rename_i caused
    subst caused
    simp only [Value.fault.sizeOf_spec, Fault.mk.sizeOf_spec, Option.some.sizeOf_spec]
    omega

/-- A property of all values, from the elements of arrays and the members of objects up. -/
@[elab_as_elim]
theorem treeInduction {motive : Value → Prop}
    (leaf : ∀ v, v.isStructure = false → motive v)
    (array : ∀ items, (∀ v ∈ items, motive v) → motive (.array items))
    (object : ∀ fields, (∀ field ∈ fields, motive field.2) → motive (.object fields))
    (v : Value) : motive v := by
  induction v using partInduction with
  | leaf v plain => exact leaf v plain
  | array items ih => exact array items ih
  | object fields ih => exact object fields ih
  | fault f => exact leaf _ rfl

/-- A property of all values, from what single steps lead to up. -/
@[elab_as_elim]
theorem childInduction {motive : Value → Prop}
    (here : ∀ v, (∀ s child, v.child? s = some child → motive child) → motive v) (v : Value) :
    motive v := by
  induction v using treeInduction with
  | leaf v plain =>
      refine here v fun s child step => ?_
      cases v <;> first | cases step | simp [isStructure, isObject, isArray] at plain
  | array items ih =>
      refine here _ fun s child step => ?_
      cases s with
      | key name => cases step
      | index i => exact ih child (List.mem_of_getElem? step)
  | object fields ih =>
      refine here _ fun s child step => ?_
      cases s with
      | index i => cases step
      | key name => exact ih (name, child) (Assoc.mem_of_get? step)

/-- A property of all values, from the children up, those that another one hides included. -/
@[elab_as_elim]
theorem childrenInduction {motive : Value → Prop}
    (here : ∀ v : Value, (∀ entry ∈ v.children, motive entry.2) → motive v) (v : Value) :
    motive v := by
  induction v using treeInduction with
  | leaf v plain =>
      refine here v fun entry member => ?_
      cases v <;> first | cases member | simp [isStructure, isObject, isArray] at plain
  | array items ih =>
      refine here _ fun entry member => ?_
      obtain ⟨i, inside, rfl⟩ := List.mem_mapIdx.mp member
      exact ih _ (List.getElem_mem inside)
  | object fields ih =>
      refine here _ fun entry member => ?_
      obtain ⟨field, inside, rfl⟩ := List.mem_map.mp member
      exact ih field inside

/-! ## Locations -/

theorem walk?_append (v : Value) (steps more : List Step) :
    v.walk? (steps ++ more) = (v.walk? steps).bind (walk? · more) := by
  induction steps generalizing v with
  | nil => rfl
  | cons s rest ih =>
      simp only [List.cons_append, walk?, Option.bind_assoc]
      congr 1
      funext child
      exact ih child

/-- What holds of the value at every location, the root included. -/
def Everywhere (p : Value → Prop) (v : Value) : Prop :=
  ∀ steps w, v.walk? steps = some w → p w

theorem Everywhere.root {p : Value → Prop} {v : Value} (everywhere : Everywhere p v) : p v :=
  everywhere [] v rfl

theorem Everywhere.child {p : Value → Prop} {v w : Value} {s : Step}
    (everywhere : Everywhere p v) (child : v.child? s = some w) : Everywhere p w := by
  intro steps u walked
  exact everywhere (s :: steps) u (by simp [walk?, child, walked])

theorem Everywhere.below {p : Value → Prop} {v w : Value} {way : List Step}
    (everywhere : Everywhere p v) (walked : v.walk? way = some w) : Everywhere p w := by
  intro steps u further
  exact everywhere (way ++ steps) u (by simp [walk?_append, walked, further])

theorem child?_leaf {v : Value} (plain : v.isStructure = false) (s : Step) : v.child? s = none := by
  cases v <;> first | rfl | simp [isStructure, isObject, isArray] at plain

theorem Everywhere.leaf {p : Value → Prop} {v : Value} (plain : v.isStructure = false)
    (root : p v) : Everywhere p v := by
  intro steps w walked
  cases steps with
  | nil => exact Option.some.inj walked ▸ root
  | cons s rest => simp [walk?, child?_leaf plain] at walked

theorem Everywhere.array {p : Value → Prop} {items : List Value} (root : p (.array items))
    (each : ∀ v ∈ items, Everywhere p v) : Everywhere p (.array items) := by
  intro steps w walked
  match steps with
  | [] => exact Option.some.inj walked ▸ root
  | .key name :: rest => simp [walk?, child?] at walked
  | .index i :: rest =>
      obtain ⟨v, found, below⟩ := Option.bind_eq_some_iff.mp walked
      exact each v (List.mem_of_getElem? found) rest w below

theorem Everywhere.object {p : Value → Prop} {fields : List (String × Value)}
    (root : p (.object fields)) (each : ∀ field ∈ fields, Everywhere p field.2) :
    Everywhere p (.object fields) := by
  intro steps w walked
  match steps with
  | [] => exact Option.some.inj walked ▸ root
  | .index i :: rest => simp [walk?, child?] at walked
  | .key name :: rest =>
      obtain ⟨v, found, below⟩ := Option.bind_eq_some_iff.mp walked
      exact each (name, v) (Assoc.mem_of_get? found) rest w below

/-- The keys of every object are distinct. -/
def Distinct (v : Value) : Prop :=
  Everywhere (fun w => ∀ fields, w = .object fields → (Assoc.keys fields).Nodup) v

theorem Distinct.keys {fields : List (String × Value)} (distinct : Distinct (.object fields)) :
    (Assoc.keys fields).Nodup :=
  distinct.root fields rfl

theorem Distinct.leaf {v : Value} (plain : v.isStructure = false) : Distinct v := by
  refine Everywhere.leaf plain ?_
  rintro fields rfl
  simp [isStructure, isObject] at plain

theorem Distinct.array {items : List Value} (each : ∀ v ∈ items, Distinct v) :
    Distinct (.array items) :=
  Everywhere.array (fun _ impossible => by cases impossible) each

theorem Distinct.object {fields : List (String × Value)} (keys : (Assoc.keys fields).Nodup)
    (each : ∀ field ∈ fields, Distinct field.2) : Distinct (.object fields) :=
  Everywhere.object (fun _ same => by cases same; exact keys) each

theorem child?_of_mem_fields {fields : List (String × Value)} {field : String × Value}
    (distinct : (Assoc.keys fields).Nodup) (member : field ∈ fields) :
    (Value.object fields).child? (.key field.1) = some field.2 :=
  Assoc.get?_of_mem distinct member

/-- In a tree with distinct keys, children are what single steps lead to. -/
theorem mem_children {v : Value} (distinct : Distinct v) {s : Step} {child : Value} :
    (s, child) ∈ v.children ↔ v.child? s = some child := by
  cases v with
  | object fields =>
      simp only [children, List.mem_map, Prod.mk.injEq]
      constructor
      · rintro ⟨⟨key, w⟩, member, rfl, rfl⟩
        exact child?_of_mem_fields distinct.keys member
      · intro found
        cases s with
        | key name => exact ⟨(name, child), Assoc.mem_of_get? found, rfl, rfl⟩
        | index i => cases found
  | array items =>
      simp only [children, List.mem_mapIdx, Prod.mk.injEq]
      constructor
      · rintro ⟨i, inside, rfl, rfl⟩
        exact List.getElem?_eq_getElem inside
      · intro found
        cases s with
        | key name => cases found
        | index i =>
            obtain ⟨inside, rfl⟩ := List.getElem?_eq_some_iff.mp found
            exact ⟨i, inside, rfl, rfl⟩
  | _ => simp [children, child?]

end Value

end TreeQuery
