import TreeQuery.Proofs.Partition

/-!
# What the parts of a tree hold at each address

The kept part and the rest of a tree, looked at one address at a time, for addresses that may lead
nowhere. Below a step both are the parts of what the step leads to, split by the ways under that
step (`resolve_keptPart`, `resolve_restPart`). So where a way of the set is a prefix of an address
the tree is in the kept part (`resolve_parts_reached`), and where no way is a prefix of it or goes
on from it the tree is in the rest (`resolve_parts_apart`).
-/

set_option autoImplicit false

namespace TreeQuery.Value

/-! ## One step down -/

theorem resolve_empty (steps : List Step) : resolve .empty steps = .empty := by
  cases steps <;> rfl

/-- The walk goes on from what the first step leads to, which is empty if it leads nowhere. -/
theorem resolve_cons (v : Value) (s : Step) (steps : List Step) :
    v.resolve (s :: steps) = (v.resolve [s]).resolve steps := by
  cases child : v.child? s with
  | none =>
      have nowhere : ∀ rest, v.resolve (s :: rest) = .empty := fun rest => by
        simp [resolve, walk?, child]
      rw [nowhere, nowhere, resolve_empty]
  | some w => simp [resolve, walk?, child]

theorem resolve_step (v : Value) (s : Step) : v.resolve [s] = (v.child? s).getD .empty := by
  cases child : v.child? s <;> simp [resolve, walk?, child]

/-- The part that is picked of each child, in a container of its kind; none if nothing is. -/
def picked (pick : Step → Value → Option Value) : Value → Option Value
  | .object fields => populated (pickFields pick fields)
  | .array items => holed (pickItems pick 0 items)
  | _ => none

/-- What is picked depends on what is picked from the children only. -/
theorem picked_congr_children {v : Value} {pick other : Step → Value → Option Value}
    (same : ∀ entry ∈ v.children, pick entry.1 entry.2 = other entry.1 entry.2) :
    picked pick v = picked other v := by
  cases v with
  | object fields =>
      refine congrArg populated (List.filterMap_congr fun field member => ?_)
      rw [same (.key field.1, field.2) (List.mem_map.mpr ⟨field, member, rfl⟩)]
  | array items =>
      refine congrArg holed (List.map_congr_left fun entry member => ?_)
      refine same (.index entry.2, entry.1) ?_
      rw [children, List.mapIdx_eq_zipIdx_map]
      exact List.mem_map.mpr ⟨entry, member, rfl⟩
  | _ => rfl

theorem child?_pickFields (pick : Step → Value → Option Value) {fields : List (String × Value)}
    (distinct : (Assoc.keys fields).Nodup) (s : Step) :
    (Value.object (pickFields pick fields)).child? s =
      ((Value.object fields).child? s).bind (pick s) := by
  cases s with
  | index i => rfl
  | key name =>
      simp only [child?]
      cases found : Assoc.get? fields name with
      | some w => exact get?_pickFields pick distinct (Assoc.mem_of_get? found)
      | none =>
          rw [Assoc.get?_eq_none_iff] at found
          exact (Assoc.get?_eq_none_iff _ _).mpr fun member => found (keys_pickFields_subset member)

theorem child?_pickItems (pick : Step → Value → Option Value) (items : List Value) (i : Nat) :
    (pickItems pick 0 items)[i]? = (items[i]?).map (pick (.index i)) := by
  simp [pickItems, List.getElem?_zipIdx]
  rfl

/-- Below a step there is the part that was picked there. -/
theorem resolve_picked (pick : Step → Value → Option Value) {v : Value} (distinct : Distinct v)
    (s : Step) :
    ((picked pick v).getD .empty).resolve [s] = ((v.child? s).bind (pick s)).getD .empty := by
  cases v with
  | object fields =>
      rw [← child?_pickFields pick distinct.keys s, resolve_step, picked, populated]
      split
      · rename_i nothing
        rw [List.isEmpty_iff.mp nothing]
        cases s <;> rfl
      · rfl
  | array items =>
      cases s with
      | key name =>
          rw [resolve_step, picked, holed]
          split <;> rfl
      | index i =>
          rw [resolve_step, picked, holed]
          split
          · rename_i nothing
            cases here : items[i]? with
            | none => simp [child?, here]
            | some w =>
                have dropped := pickItems_all_none.mp nothing (w, i)
                  (by simpa [List.mem_zipIdx_iff_getElem?] using here)
                simp [child?, here, dropped]
          · simp only [Option.getD_some, child?, List.getElem?_map, child?_pickItems]
            cases items[i]? <;> rfl
  | _ => cases s <;> rfl

/-! ## The two parts below a step -/

/-- What is kept of a value inside a tree; empty if nothing is. -/
def keptPart (v : Value) (ways : List (List Step)) : Value :=
  (retainAt v ways).getD .empty

/-- What is left of a value inside a tree; empty if nothing is. -/
def restPart (v : Value) (ways : List (List Step)) : Value :=
  (recludeAt v ways).getD .empty

variable {v : Value} {ways : List (List Step)}

theorem retainAt_eq_picked (inside : [] ∉ ways) (v : Value) :
    retainAt v ways = picked (fun s w => retainAt w (under s ways)) v := by
  cases v with
  | object fields => exact retainAt_object inside
  | array items => exact retainAt_array inside
  | _ => simp [retainAt, inside, picked]

theorem recludeAt_eq_picked (inside : [] ∉ ways) (some : ways ≠ [])
    (structured : v.isStructure = true) :
    recludeAt v ways = picked (fun s w => recludeAt w (under s ways)) v := by
  cases v with
  | object fields => exact recludeAt_object inside some
  | array items => exact recludeAt_array inside some
  | _ => cases structured

theorem recludeAt_leaf (inside : [] ∉ ways) (plain : v.isStructure = false) :
    recludeAt v ways = some v := by
  cases v <;> simp_all [recludeAt, isStructure, isObject, isArray]

theorem keptPart_empty (ways : List (List Step)) : keptPart .empty ways = .empty := by
  simp only [keptPart, retainAt]
  split <;> rfl

theorem restPart_empty (ways : List (List Step)) : restPart .empty ways = .empty := by
  simp only [restPart, recludeAt]
  split <;> rfl

theorem resolve_keptPart (distinct : Distinct v) (inside : [] ∉ ways) (s : Step)
    (steps : List Step) : (keptPart v ways).resolve (s :: steps) =
      (keptPart (v.resolve [s]) (under s ways)).resolve steps := by
  rw [resolve_cons, keptPart, retainAt_eq_picked inside, resolve_picked _ distinct, resolve_step]
  cases v.child? s with
  | none => rw [Option.getD_none, keptPart_empty]; rfl
  | some w => rfl

theorem resolve_restPart (distinct : Distinct v) (inside : [] ∉ ways) (s : Step)
    (steps : List Step) : (restPart v ways).resolve (s :: steps) =
      (restPart (v.resolve [s]) (under s ways)).resolve steps := by
  by_cases untouched : ways = []
  · subst untouched
    simp only [restPart, recludeAt_nil, under, List.filterMap_nil, Option.getD_some]
    exact resolve_cons v s steps
  · rw [resolve_cons, restPart]
    cases structured : v.isStructure with
    | false =>
        rw [recludeAt_leaf inside structured, Option.getD_some, resolve_step,
          child?_leaf structured, Option.getD_none, restPart_empty]
    | true =>
        rw [recludeAt_eq_picked inside untouched structured, resolve_picked _ distinct,
          resolve_step]
        cases v.child? s with
        | none => rw [Option.getD_none, restPart_empty]; rfl
        | some w => rfl

/-- A missing part at the root shows nothing below it. -/
theorem resolve_getD_emptyLike (part : Option Value) (v : Value) (s : Step) (steps : List Step) :
    (part.getD (emptyLike v)).resolve (s :: steps) = (part.getD .empty).resolve (s :: steps) := by
  cases part with
  | some w => rfl
  | none => cases v <;> cases s <;> rfl

/-! ## Addresses that the ways decide -/

/-- No way is a prefix of the steps or goes on from them. -/
def Apart (ways : List (List Step)) (steps : List Step) : Prop :=
  ∀ way ∈ ways, ¬ way <+: steps ∧ ¬ steps <+: way

theorem apart_cons {s : Step} {steps : List Step} :
    Apart ways (s :: steps) ↔ [] ∉ ways ∧ Apart (under s ways) steps := by
  constructor
  · intro apart
    refine ⟨fun whole => (apart [] whole).1 (List.nil_prefix ..), fun way member => ?_⟩
    simpa using apart _ (mem_under.mp member)
  · rintro ⟨inside, below⟩ way member
    cases way with
    | nil => exact (inside member).elim
    | cons t rest =>
        by_cases same : t = s
        · subst same
          simpa using below rest (mem_under.mpr member)
        · simp [same, Ne.symm same]

theorem apart_nil : Apart ways [] ↔ ways = [] := by
  refine ⟨fun apart => List.eq_nil_iff_forall_not_mem.mpr fun way member => ?_, ?_⟩
  · exact (apart way member).2 (List.nil_prefix ..)
  · rintro rfl way member
    cases member

theorem prefix_under {s : Step} {steps : List Step} (inside : [] ∉ ways)
    (reached : ∃ way ∈ ways, way <+: s :: steps) : ∃ way ∈ under s ways, way <+: steps := by
  obtain ⟨way, member, before⟩ := reached
  cases way with
  | nil => exact (inside member).elim
  | cons t rest =>
      obtain ⟨rfl, shorter⟩ := List.cons_prefix_cons.mp before
      exact ⟨rest, mem_under.mpr member, shorter⟩

theorem Distinct.resolve_step (distinct : Distinct v) (s : Step) : Distinct (v.resolve [s]) := by
  rw [Value.resolve_step]
  cases child : v.child? s with
  | none => exact .leaf rfl
  | some w => exact distinct.child child

/-- Where a way leads to or above, the tree is kept. -/
theorem resolve_parts_reached {probe : List Step} (distinct : Distinct v)
    (reached : ∃ way ∈ ways, way <+: probe) :
    (keptPart v ways).resolve probe = v.resolve probe ∧
      (restPart v ways).resolve probe = .empty := by
  induction probe generalizing v ways with
  | nil =>
      obtain ⟨way, member, before⟩ := reached
      have whole : [] ∈ ways := List.prefix_nil.mp before ▸ member
      simp [keptPart, restPart, retainAt_whole whole, recludeAt_whole whole, resolve_empty]
  | cons s rest ih =>
      by_cases whole : [] ∈ ways
      · simp [keptPart, restPart, retainAt_whole whole, recludeAt_whole whole, resolve_empty]
      · rw [resolve_keptPart distinct whole, resolve_restPart distinct whole, resolve_cons v s rest]
        exact ih (distinct.resolve_step s) (prefix_under whole reached)

/-- Where no way leads to, above or below, the tree is in the rest. -/
theorem resolve_parts_apart {probe : List Step} (distinct : Distinct v)
    (apart : Apart ways probe) :
    (keptPart v ways).resolve probe = .empty ∧
      (restPart v ways).resolve probe = v.resolve probe := by
  induction probe generalizing v ways with
  | nil =>
      obtain rfl := apart_nil.mp apart
      simp [keptPart, restPart, retainAt_nil, recludeAt_nil, resolve_empty]
  | cons s rest ih =>
      obtain ⟨inside, below⟩ := apart_cons.mp apart
      rw [resolve_keptPart distinct inside, resolve_restPart distinct inside,
        resolve_cons v s rest]
      exact ih (distinct.resolve_step s) below

/-- **The parts of a tree, address by address.** Below the root, an address that some way of the set
is a prefix of resolves in the kept part as in the tree, and to nothing in the rest. An address that
no way is a prefix of, and that is a prefix of none, resolves to nothing in the kept part, and in
the rest as in the tree. The ways and the address need not lead anywhere. -/
theorem resolve_retain_reclude (v : Value) (ways : List (List Step)) (probe : List Step)
    (distinct : Distinct v) (below : probe ≠ []) :
    ((∃ way ∈ ways, way <+: probe) →
        (retain v ways).resolve probe = v.resolve probe ∧
          (reclude v ways).resolve probe = .empty) ∧
      (Apart ways probe →
        (retain v ways).resolve probe = .empty ∧
          (reclude v ways).resolve probe = v.resolve probe) := by
  obtain ⟨s, rest, rfl⟩ := List.exists_cons_of_ne_nil below
  rw [retain_eq, reclude_eq, resolve_getD_emptyLike, resolve_getD_emptyLike]
  exact ⟨resolve_parts_reached distinct, resolve_parts_apart distinct⟩

/-- Ways to an element, into a truth value and to a missing member; the element stays at its
index. -/
theorem resolve_retain_reclude_shelf :
    let ways : List (List Step) :=
      [[.key "books", .index 1], [.key "open", .key "today"], [.key "owner"]]
    let second : List Step := [.key "books", .index 1, .key "title"]
    let first : List Step := [.key "books", .index 0]
    (∃ way ∈ ways, way <+: second) ∧ Apart ways first ∧
      ((retain shelf ways).resolve second = .text "b" ∧
        (reclude shelf ways).resolve second = .empty) ∧
      (retain shelf ways).resolve first = .empty ∧
        (reclude shelf ways).resolve first = .text "a" := by
  intro ways second first
  have reached : ∃ way ∈ ways, way <+: second := ⟨_, List.mem_cons_self .., by decide⟩
  have apart : Apart ways first := by simp [Apart, ways, first]
  have kept :=
    (resolve_retain_reclude shelf ways second shelf_distinct (by simp [second])).1 reached
  have dropped :=
    (resolve_retain_reclude shelf ways first shelf_distinct (by simp [first])).2 apart
  exact ⟨reached, apart, kept, dropped⟩

end TreeQuery.Value
