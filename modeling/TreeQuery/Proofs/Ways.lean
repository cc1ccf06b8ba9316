import Mathlib.Data.List.Induction
import TreeQuery.Proofs.Tree

/-!
# Lists of ways

A prefix tree stands for the list of ways that it was built of, and what it answers can be read off
that list: a way ends at its root if the list has the empty way (`Trie.terminal_build`), and below a
step it is the tree of the ways that go on after that step, if there are any (`Trie.child?_build`).

So the parts of a value can be said by lists of ways alone, without the tree (`Value.retainAt`,
`Value.recludeAt`), and are the same (`Value.retainAlong_build`, `Value.recludeAlong_build`).
-/

set_option autoImplicit false

namespace TreeQuery

namespace Value

/-- The ways that go on after a step. -/
def under (s : Step) (ways : List (List Step)) : List (List Step) :=
  ways.filterMap fun
    | [] => none
    | t :: rest => if t = s then some rest else none

theorem mem_under {s : Step} {ways : List (List Step)} {way : List Step} :
    way ∈ under s ways ↔ s :: way ∈ ways := by
  simp only [under, List.mem_filterMap]
  constructor
  · rintro ⟨whole, member, picked⟩
    cases whole with
    | nil => simp at picked
    | cons t rest =>
        simp only at picked
        split at picked
        · rename_i same
          cases picked
          exact same ▸ member
        · cases picked
  · intro member
    exact ⟨s :: way, member, by simp⟩

theorem under_concat_nil (s : Step) (ways : List (List Step)) :
    under s (ways ++ [[]]) = under s ways := by
  simp [under]

theorem under_concat_cons (s t : Step) (ways : List (List Step)) (rest : List Step) :
    under s (ways ++ [t :: rest]) = if t = s then under s ways ++ [rest] else under s ways := by
  by_cases same : t = s <;> simp [under, same]

end Value

/-! ## What a prefix tree answers -/

namespace Trie

open Value (under)

variable (t : Trie) (ways : List (List Step))

@[simp] theorem terminal_insert_nil : (t.insert []).terminal = true := by
  cases t
  rfl

@[simp] theorem terminal_insert_cons (s : Step) (rest : List Step) :
    (t.insert (s :: rest)).terminal = t.terminal := by
  cases t
  rfl

@[simp] theorem children_insert_nil : (t.insert []).children = t.children := by
  cases t
  rfl

theorem children_insert_cons (s : Step) (rest : List Step) :
    (t.insert (s :: rest)).children =
      Assoc.insert t.children s (((t.child? s).getD empty).insert rest) := by
  cases t
  rfl

theorem child?_insert_nil (s : Step) : (t.insert []).child? s = t.child? s := by
  rw [child?, children_insert_nil, child?]

theorem child?_insert_cons (s u : Step) (rest : List Step) :
    (t.insert (s :: rest)).child? u =
      if s = u then some (((t.child? s).getD empty).insert rest) else t.child? u := by
  rw [child?, children_insert_cons, Assoc.get?_insert, child?, child?]

theorem build_concat (way : List Step) : build (ways ++ [way]) = (build ways).insert way := by
  simp [build]

theorem terminal_build : (build ways).terminal = true ↔ [] ∈ ways := by
  induction ways using List.reverseRecOn with
  | nil => simp [build, empty, terminal]
  | append_singleton ways way ih => cases way <;> simp [build_concat, ih]

/-- Below a step stands the prefix tree of the ways that go on after it, if there are any. -/
theorem child?_build (s : Step) :
    (build ways).child? s = if under s ways = [] then none else some (build (under s ways)) := by
  induction ways using List.reverseRecOn with
  | nil => rfl
  | append_singleton ways way ih =>
      cases way with
      | nil => rw [build_concat, child?_insert_nil, ih, Value.under_concat_nil]
      | cons u rest =>
          rw [build_concat, child?_insert_cons, ih, Value.under_concat_cons]
          by_cases same : u = s
          · subst same
            -- without earlier ways after this step, the tree below it starts out empty
            have below : ((if under u ways = [] then none
                else some (build (under u ways))).getD empty) = build (under u ways) := by
              by_cases first : under u ways = []
              · rw [if_pos first, first]
                rfl
              · rw [if_neg first]
                rfl
            rw [if_pos rfl, if_pos rfl, if_neg (List.concat_ne_nil rest _), ih, below, build_concat]
          · rw [if_neg same, if_neg same]

/-- What is read off the tree below a step is what is read off the ways that go on after it. -/
theorem elim_child?_build {α : Type} {f : Trie → α} {g : List (List Step) → α} {missing : α}
    (same : ∀ ways, f (build ways) = g ways) (nothing : g [] = missing)
    (ways : List (List Step)) (s : Step) :
    ((build ways).child? s).elim missing f = g (under s ways) := by
  rw [child?_build]
  by_cases none : under s ways = []
  · rw [if_pos none, none, nothing, Option.elim_none]
  · rw [if_neg none, Option.elim_some, same]

theorem children_build (inside : [] ∉ ways) : (build ways).children.isEmpty = ways.isEmpty := by
  cases ways with
  | nil => rfl
  | cons way others =>
      cases way with
      | nil => exact absurd List.mem_cons_self inside
      | cons s rest =>
          have found := child?_build ((s :: rest) :: others) s
          have goesOn : under s ((s :: rest) :: others) ≠ [] := by simp [under]
          rw [if_neg goesOn, child?] at found
          cases below : (build ((s :: rest) :: others)).children with
          | nil =>
              rw [below] at found
              cases found
          | cons => rfl

end Trie

/-! ## Parts by lists of ways -/

namespace Value

mutual

/-- What the ways reach; none if that is nothing. -/
def retainAt : Value → List (List Step) → Option Value
  | .object fields, ways =>
    if [] ∈ ways then some (.object fields) else populated (retainFields fields ways)
  | .array items, ways =>
    if [] ∈ ways then some (.array items) else holed (retainItems 0 items ways)
  | v, ways => if [] ∈ ways then some v else none

def retainItems : Nat → List Value → List (List Step) → List (Option Value)
  | _, [], _ => []
  | i, v :: rest, ways => retainAt v (under (.index i) ways) :: retainItems (i + 1) rest ways

def retainFields : List (String × Value) → List (List Step) → List (String × Value)
  | [], _ => []
  | (key, v) :: rest, ways =>
    match retainAt v (under (.key key) ways) with
    | some kept => (key, kept) :: retainFields rest ways
    | none => retainFields rest ways

end

mutual

/-- What the ways do not reach; none if one of them ends here or everything was taken out. -/
def recludeAt : Value → List (List Step) → Option Value
  | .object fields, ways =>
    if [] ∈ ways then none
    else if ways.isEmpty then some (.object fields)
    else populated (recludeFields fields ways)
  | .array items, ways =>
    if [] ∈ ways then none
    else if ways.isEmpty then some (.array items)
    else holed (recludeItems 0 items ways)
  | v, ways => if [] ∈ ways then none else some v

def recludeItems : Nat → List Value → List (List Step) → List (Option Value)
  | _, [], _ => []
  | i, v :: rest, ways => recludeAt v (under (.index i) ways) :: recludeItems (i + 1) rest ways

def recludeFields : List (String × Value) → List (List Step) → List (String × Value)
  | [], _ => []
  | (key, v) :: rest, ways =>
    match recludeAt v (under (.key key) ways) with
    | some kept => (key, kept) :: recludeFields rest ways
    | none => recludeFields rest ways

end

/-! ## Picking from the children -/

/-- The members of which a part is picked, with that part. -/
def pickFields (pick : Step → Value → Option Value) (fields : List (String × Value)) :
    List (String × Value) :=
  fields.filterMap fun field => (pick (.key field.1) field.2).map (field.1, ·)

/-- The part that is picked of each element, with the indices from a start on. -/
def pickItems (pick : Step → Value → Option Value) (i : Nat) (items : List Value) :
    List (Option Value) :=
  (items.zipIdx i).map fun entry => pick (.index entry.2) entry.1

theorem pickFields_cons_none {pick : Step → Value → Option Value} {field : String × Value}
    {rest : List (String × Value)} (dropped : pick (.key field.1) field.2 = none) :
    pickFields pick (field :: rest) = pickFields pick rest := by
  simp [pickFields, dropped]

theorem pickFields_cons_some {pick : Step → Value → Option Value} {field : String × Value}
    {rest : List (String × Value)} {part : Value}
    (picked : pick (.key field.1) field.2 = some part) :
    pickFields pick (field :: rest) = (field.1, part) :: pickFields pick rest := by
  simp [pickFields, picked]

/-- Whatever goes through the members and keeps what is picked of each is `pickFields`. -/
theorem eq_pickFields {pick : Step → Value → Option Value}
    (f : List (String × Value) → List (String × Value)) (nil : f [] = [])
    (cons : ∀ key v rest, f ((key, v) :: rest) =
      (pick (.key key) v).elim (f rest) fun part => (key, part) :: f rest)
    (fields : List (String × Value)) : f fields = pickFields pick fields := by
  induction fields with
  | nil => exact nil
  | cons field rest ih =>
      rw [cons field.1 field.2, ih]
      cases picked : pick (.key field.1) field.2 with
      | none => exact (pickFields_cons_none picked).symm
      | some part => exact (pickFields_cons_some picked).symm

theorem eq_pickItems {pick : Step → Value → Option Value}
    (f : Nat → List Value → List (Option Value)) (nil : ∀ i, f i [] = [])
    (cons : ∀ i v rest, f i (v :: rest) = pick (.index i) v :: f (i + 1) rest)
    (i : Nat) (items : List Value) : f i items = pickItems pick i items := by
  induction items generalizing i with
  | nil => exact nil i
  | cons v rest ih =>
      rw [cons, ih]
      simp [pickItems, List.zipIdx_cons]

theorem retainFields_eq (fields : List (String × Value)) (ways : List (List Step)) :
    retainFields fields ways = pickFields (fun s v => retainAt v (under s ways)) fields := by
  refine eq_pickFields (retainFields · ways) rfl (fun key v rest => ?_) fields
  rw [retainFields]
  cases retainAt v (under (.key key) ways) <;> rfl

theorem recludeFields_eq (fields : List (String × Value)) (ways : List (List Step)) :
    recludeFields fields ways = pickFields (fun s v => recludeAt v (under s ways)) fields := by
  refine eq_pickFields (recludeFields · ways) rfl (fun key v rest => ?_) fields
  rw [recludeFields]
  cases recludeAt v (under (.key key) ways) <;> rfl

theorem retainItems_eq (i : Nat) (items : List Value) (ways : List (List Step)) :
    retainItems i items ways = pickItems (fun s v => retainAt v (under s ways)) i items :=
  eq_pickItems (retainItems · · ways) (fun _ => rfl) (fun _ _ _ => rfl) i items

theorem recludeItems_eq (i : Nat) (items : List Value) (ways : List (List Step)) :
    recludeItems i items ways = pickItems (fun s v => recludeAt v (under s ways)) i items :=
  eq_pickItems (recludeItems · · ways) (fun _ => rfl) (fun _ _ _ => rfl) i items

theorem retainAt_object {fields : List (String × Value)} {ways : List (List Step)}
    (inside : [] ∉ ways) : retainAt (.object fields) ways =
      populated (pickFields (fun s v => retainAt v (under s ways)) fields) := by
  simp [retainAt, inside, retainFields_eq]

theorem retainAt_array {items : List Value} {ways : List (List Step)} (inside : [] ∉ ways) :
    retainAt (.array items) ways =
      holed (pickItems (fun s v => retainAt v (under s ways)) 0 items) := by
  simp [retainAt, inside, retainItems_eq]

theorem recludeAt_object {fields : List (String × Value)} {ways : List (List Step)}
    (inside : [] ∉ ways) (some : ways ≠ []) : recludeAt (.object fields) ways =
      populated (pickFields (fun s v => recludeAt v (under s ways)) fields) := by
  simp [recludeAt, inside, some, recludeFields_eq]

theorem recludeAt_array {items : List Value} {ways : List (List Step)} (inside : [] ∉ ways)
    (some : ways ≠ []) : recludeAt (.array items) ways =
      holed (pickItems (fun s v => recludeAt v (under s ways)) 0 items) := by
  simp [recludeAt, inside, some, recludeItems_eq]

/-! ## A whole tree on one side -/

theorem retainAt_whole {ways : List (List Step)} (whole : [] ∈ ways) (v : Value) :
    retainAt v ways = some v := by
  cases v <;> simp [retainAt, whole]

theorem recludeAt_whole {ways : List (List Step)} (whole : [] ∈ ways) (v : Value) :
    recludeAt v ways = none := by
  cases v <;> simp [recludeAt, whole]

theorem pickItems_all_none {pick : Step → Value → Option Value} {items : List Value} :
    (pickItems pick 0 items).all Option.isNone = true ↔
      ∀ entry ∈ items.zipIdx, pick (.index entry.2) entry.1 = none := by
  simp [pickItems]

theorem pickFields_eq_nil {pick : Step → Value → Option Value} {fields : List (String × Value)} :
    pickFields pick fields = [] ↔ ∀ field ∈ fields, pick (.key field.1) field.2 = none := by
  simp [pickFields]

theorem retainAt_nil (v : Value) : retainAt v [] = none := by
  induction v using treeInduction with
  | leaf v plain => cases v <;> simp_all [retainAt, isStructure, isObject, isArray]
  | array items ih =>
      have nothing : ∀ entry ∈ items.zipIdx, retainAt entry.1 (under (.index entry.2) []) = none :=
        fun entry member => ih entry.1 (List.fst_mem_of_mem_zipIdx member)
      rw [retainAt_array (by simp), holed, if_pos (pickItems_all_none.mpr nothing)]
  | object fields ih =>
      rw [retainAt_object (by simp), pickFields_eq_nil.mpr ih]
      rfl

theorem recludeAt_nil (v : Value) : recludeAt v [] = some v := by
  cases v <;> simp [recludeAt]

/-! ## Along a prefix tree -/

theorem pickFields_congr {pick other : Step → Value → Option Value} {fields : List (String × Value)}
    (same : ∀ field ∈ fields, pick (.key field.1) field.2 = other (.key field.1) field.2) :
    pickFields pick fields = pickFields other fields :=
  List.filterMap_congr fun field member => by rw [same field member]

theorem pickItems_congr {pick other : Step → Value → Option Value} {i : Nat} {items : List Value}
    (same : ∀ v ∈ items, ∀ j, pick (.index j) v = other (.index j) v) :
    pickItems pick i items = pickItems other i items :=
  List.map_congr_left fun entry member => same entry.1 (List.fst_mem_of_mem_zipIdx member) entry.2

theorem retainFieldsAlong_eq (fields : List (String × Value)) (t : Trie) :
    retainFieldsAlong fields t =
      pickFields (fun s v => (t.child? s).elim none (retainAlong v)) fields := by
  refine eq_pickFields (retainFieldsAlong · t) rfl (fun key v rest => ?_) fields
  rw [retainFieldsAlong]
  cases t.child? (.key key) with
  | none => rfl
  | some sub => cases kept : retainAlong v sub <;> simp [kept]

theorem recludeFieldsAlong_eq (fields : List (String × Value)) (t : Trie) :
    recludeFieldsAlong fields t =
      pickFields (fun s v => (t.child? s).elim (some v) (recludeAlong v)) fields := by
  refine eq_pickFields (recludeFieldsAlong · t) rfl (fun key v rest => ?_) fields
  rw [recludeFieldsAlong]
  cases t.child? (.key key) with
  | none => rfl
  | some sub => cases rest : recludeAlong v sub <;> simp [rest]

theorem retainItemsAlong_eq (i : Nat) (items : List Value) (t : Trie) :
    retainItemsAlong i items t =
      pickItems (fun s v => (t.child? s).elim none (retainAlong v)) i items := by
  refine eq_pickItems (retainItemsAlong · · t) (fun _ => rfl) (fun i v rest => ?_) i items
  rw [retainItemsAlong]
  cases t.child? (.index i) <;> rfl

theorem recludeItemsAlong_eq (i : Nat) (items : List Value) (t : Trie) :
    recludeItemsAlong i items t =
      pickItems (fun s v => (t.child? s).elim (some v) (recludeAlong v)) i items := by
  refine eq_pickItems (recludeItemsAlong · · t) (fun _ => rfl) (fun i v rest => ?_) i items
  rw [recludeItemsAlong]
  cases t.child? (.index i) <;> rfl

/-- Following the prefix tree of some ways is following the ways. -/
theorem retainAlong_build (v : Value) (ways : List (List Step)) :
    retainAlong v (.build ways) = retainAt v ways := by
  induction v using treeInduction generalizing ways with
  | leaf v plain =>
      cases v <;> simp_all [retainAlong, retainAt, Trie.terminal_build, isStructure, isObject, isArray]
  | array items ih =>
      have slots : retainItemsAlong 0 items (.build ways) = retainItems 0 items ways := by
        rw [retainItemsAlong_eq, retainItems_eq]
        exact pickItems_congr fun v member j =>
          Trie.elim_child?_build (ih v member) (retainAt_nil v) ways (.index j)
      simp only [retainAlong, retainAt, Trie.terminal_build, slots]
  | object fields ih =>
      have members : retainFieldsAlong fields (.build ways) = retainFields fields ways := by
        rw [retainFieldsAlong_eq, retainFields_eq]
        exact pickFields_congr fun field member =>
          Trie.elim_child?_build (ih field member) (retainAt_nil field.2) ways (.key field.1)
      simp only [retainAlong, retainAt, Trie.terminal_build, members]

theorem recludeAlong_build (v : Value) (ways : List (List Step)) :
    recludeAlong v (.build ways) = recludeAt v ways := by
  induction v using treeInduction generalizing ways with
  | leaf v plain =>
      cases v <;> simp_all [recludeAlong, recludeAt, Trie.terminal_build, isStructure, isObject, isArray]
  | array items ih =>
      have slots : recludeItemsAlong 0 items (.build ways) = recludeItems 0 items ways := by
        rw [recludeItemsAlong_eq, recludeItems_eq]
        exact pickItems_congr fun v member j =>
          Trie.elim_child?_build (ih v member) (recludeAt_nil v) ways (.index j)
      by_cases inside : [] ∈ ways
      · simp [recludeAlong, Trie.terminal_build, recludeAt_whole inside, inside]
      · simp [recludeAlong, recludeAt, Trie.terminal_build, inside,
          Trie.children_build ways inside, slots]
  | object fields ih =>
      have members : recludeFieldsAlong fields (.build ways) = recludeFields fields ways := by
        rw [recludeFieldsAlong_eq, recludeFields_eq]
        exact pickFields_congr fun field member =>
          Trie.elim_child?_build (ih field member) (recludeAt_nil field.2) ways (.key field.1)
      by_cases inside : [] ∈ ways
      · simp [recludeAlong, Trie.terminal_build, recludeAt_whole inside, inside]
      · simp [recludeAlong, recludeAt, Trie.terminal_build, inside,
          Trie.children_build ways inside, members]

theorem retain_eq (v : Value) (ways : List (List Step)) :
    retain v ways = (retainAt v ways).getD (emptyLike v) := by
  rw [retain, retainAlong_build]

theorem reclude_eq (v : Value) (ways : List (List Step)) :
    reclude v ways = (recludeAt v ways).getD (emptyLike v) := by
  rw [reclude, recludeAlong_build]

/-! ## Sets of addresses -/

/-- Every way of the set leads somewhere. -/
def Reaches (v : Value) (ways : List (List Step)) : Prop :=
  ∀ way ∈ ways, (v.walk? way).isSome

theorem Reaches.child {v w : Value} {ways : List (List Step)} {s : Step} (reaches : Reaches v ways)
    (child : v.child? s = some w) : Reaches w (under s ways) := by
  intro way member
  have walked := reaches _ (mem_under.mp member)
  simpa [walk?, child] using walked

/-- A way that goes on leads through a child. -/
theorem Reaches.step {v : Value} {ways : List (List Step)} {s : Step} {rest : List Step}
    (reaches : Reaches v ways) (member : s :: rest ∈ ways) : ∃ w, v.child? s = some w := by
  have walked := reaches _ member
  cases child : v.child? s with
  | none => simp [walk?, child] at walked
  | some w => exact ⟨w, rfl⟩

end Value

end TreeQuery
