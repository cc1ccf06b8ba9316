import Mathlib.Data.List.Nodup
import Mathlib.Data.List.Pairwise
import TreeQuery.Proofs.Dangling
import TreeQuery.Proofs.Projections

/-!
# The leaves of a tree

A leaf is a location below the root whose value is not empty and has no child that is not empty
(`Barren`). The list of the leaves holds exactly these, in the order in which one meets them going
down into the children from first to last: where two leaves part, the earlier one goes on into the
earlier child (`Before`). So none of them is a prefix of another.

The list goes through the children that are not empty, and in the same way below each of them
(`leafSteps_eq`). In a tree without empty values everything lies along the leaves (`parts_leaves`).
-/

set_option autoImplicit false

namespace TreeQuery.Value

variable {v w : Value}

/-! ## Through the children -/

/-- A value without a child that is not empty. -/
def Barren (v : Value) : Prop :=
  ∀ s child, v.child? s = some child → child = .empty

theorem Hollow.barren (hollow : Hollow v) : Barren v := by
  intro s child step
  rcases hollow with rfl | rfl <;> cases s <;> cases step

/-- The ways to the leaves below each of the given children. -/
def leafStepsBelow (children : List (Step × Value)) : List (List Step) :=
  (children.filter fun entry => !entry.2.isEmpty).flatMap fun entry =>
    (leafSteps entry.2).map (entry.1 :: ·)

theorem leafStepsBelow_cons (entry : Step × Value) (rest : List (Step × Value)) :
    leafStepsBelow (entry :: rest) =
      (if entry.2.isEmpty then [] else (leafSteps entry.2).map (entry.1 :: ·)) ++
        leafStepsBelow rest := by
  unfold leafStepsBelow
  cases filled : entry.2.isEmpty <;> simp [filled]

theorem leafStepsItems_eq (i : Nat) (items : List Value) : leafStepsItems i items =
    leafStepsBelow (items.mapIdx fun k child => (.index (i + k), child)) := by
  induction items generalizing i with
  | nil => rfl
  | cons child rest ih =>
      have shift : (fun k (child : Value) => (Step.index (i + (k + 1)), child)) =
          fun k child => (Step.index (i + 1 + k), child) := by
        funext k child
        rw [Nat.add_assoc, Nat.add_comm 1]
      rw [leafStepsItems, ih, List.mapIdx_cons, leafStepsBelow_cons, shift]
      simp only [Nat.add_zero]

theorem leafStepsFields_eq (fields : List (String × Value)) : leafStepsFields fields =
    leafStepsBelow (fields.map fun field => (.key field.1, field.2)) := by
  induction fields with
  | nil => rfl
  | cons field rest ih =>
      obtain ⟨key, child⟩ := field
      rw [leafStepsFields, ih, List.map_cons, leafStepsBelow_cons]

/-- A value is a leaf itself, or its leaves are those below its children. -/
theorem leafSteps_eq (v : Value) : leafSteps v =
    if leafStepsBelow v.children = [] then [[]] else leafStepsBelow v.children := by
  cases v with
  | array items =>
      have below : leafStepsItems 0 items = leafStepsBelow (Value.array items).children := by
        simpa only [Nat.zero_add, children] using leafStepsItems_eq 0 items
      rw [leafSteps, ← below]
      cases leafStepsItems 0 items <;> rfl
  | object fields =>
      have below : leafStepsFields fields = leafStepsBelow (Value.object fields).children :=
        leafStepsFields_eq fields
      rw [leafSteps, ← below]
      cases leafStepsFields fields <;> rfl
  | _ => rfl

theorem mem_leafStepsBelow {children : List (Step × Value)} {steps : List Step} :
    steps ∈ leafStepsBelow children ↔ ∃ s child, (s, child) ∈ children ∧ child ≠ .empty ∧
      ∃ rest ∈ leafSteps child, steps = s :: rest := by
  constructor
  · intro member
    simp only [leafStepsBelow, List.mem_flatMap, List.mem_filter, List.mem_map] at member
    obtain ⟨⟨s, child⟩, ⟨among, filled⟩, rest, below, rfl⟩ := member
    refine ⟨s, child, among, ?_, rest, below, rfl⟩
    rintro rfl
    cases filled
  · rintro ⟨s, child, among, filled, rest, below, rfl⟩
    simp only [leafStepsBelow, List.mem_flatMap, List.mem_filter, List.mem_map]
    exact ⟨(s, child), ⟨among, by rw [isEmpty_eq_false filled]; rfl⟩, rest, below, rfl⟩

/-! ## Exactly the leaves -/

theorem leafStepsBelow_eq_nil (distinct : Distinct v) :
    leafStepsBelow v.children = [] ↔ Barren v := by
  constructor
  · intro none s child step
    by_contra filled
    obtain ⟨rest, more, cons⟩ := List.exists_cons_of_ne_nil (leafSteps_ne_nil child)
    have member : s :: rest ∈ leafStepsBelow v.children := mem_leafStepsBelow.mpr
      ⟨s, child, (mem_children distinct).mpr step, filled, rest, by simp [cons], rfl⟩
    rw [none] at member
    cases member
  · intro barren
    refine List.eq_nil_iff_forall_not_mem.mpr fun steps member => ?_
    obtain ⟨s, child, among, filled, -⟩ := mem_leafStepsBelow.mp member
    exact filled (barren s child ((mem_children distinct).mp among))

theorem nil_mem_leafSteps (distinct : Distinct v) : [] ∈ leafSteps v ↔ Barren v := by
  rw [leafSteps_eq, ← leafStepsBelow_eq_nil distinct]
  split
  · rename_i none
    simp [none]
  · rename_i some
    constructor
    · intro member
      obtain ⟨s, child, -, -, rest, -, impossible⟩ := mem_leafStepsBelow.mp member
      cases impossible
    · intro none
      exact (some none).elim

theorem cons_mem_leafSteps (distinct : Distinct v) {s : Step} {rest : List Step} :
    s :: rest ∈ leafSteps v ↔
      ∃ child, v.child? s = some child ∧ child ≠ .empty ∧ rest ∈ leafSteps child := by
  have below : s :: rest ∈ leafStepsBelow v.children ↔
      ∃ child, v.child? s = some child ∧ child ≠ .empty ∧ rest ∈ leafSteps child := by
    rw [mem_leafStepsBelow]
    constructor
    · rintro ⟨t, child, among, filled, more, member, same⟩
      cases same
      exact ⟨child, (mem_children distinct).mp among, filled, member⟩
    · rintro ⟨child, step, filled, member⟩
      exact ⟨s, child, (mem_children distinct).mpr step, filled, rest, member, rfl⟩
  rw [← below, leafSteps_eq]
  split
  · rename_i none
    simp [none]
  · rfl

/-- The list holds the ways to the values that are not empty and have no child that is not. -/
theorem mem_leafSteps {steps : List Step} (distinct : Distinct v) (full : v ≠ .empty) :
    steps ∈ leafSteps v ↔ v.resolve steps ≠ .empty ∧ Barren (v.resolve steps) := by
  induction steps generalizing v with
  | nil =>
      rw [nil_mem_leafSteps distinct]
      exact ⟨fun barren => ⟨full, barren⟩, fun leaf => leaf.2⟩
  | cons s rest ih =>
      rw [cons_mem_leafSteps distinct, resolve_cons, resolve_step]
      constructor
      · rintro ⟨child, step, filled, member⟩
        rw [step, Option.getD_some]
        exact (ih (distinct.child step) filled).mp member
      · intro leaf
        cases step : v.child? s with
        | none =>
            rw [step, Option.getD_none, resolve_empty] at leaf
            exact absurd rfl leaf.1
        | some child =>
            rw [step, Option.getD_some] at leaf
            have filled : child ≠ .empty := by
              rintro rfl
              exact leaf.1 (resolve_empty rest)
            exact ⟨child, rfl, filled, (ih (distinct.child step) filled).mpr leaf⟩

/-! ## Document order -/

/-- At some location, the first way goes on into an earlier child than the other way does. -/
def Before (v : Value) (steps others : List Step) : Prop :=
  ∃ way here s t rest more, v.walk? way = some here ∧ [s, t].Sublist (here.children.map Prod.fst) ∧
    steps = way ++ s :: rest ∧ others = way ++ t :: more

theorem Before.child {s : Step} {steps others : List Step} (step : v.child? s = some w)
    (before : Before w steps others) : Before v (s :: steps) (s :: others) := by
  obtain ⟨way, here, first, second, rest, more, walked, order, rfl, rfl⟩ := before
  exact ⟨s :: way, here, first, second, rest, more, (walk?_child step).trans walked, order, rfl, rfl⟩

theorem nodup_children (distinct : Distinct v) : (v.children.map Prod.fst).Nodup := by
  cases v with
  | object fields =>
      have steps : (Value.object fields).children.map Prod.fst =
          (Assoc.keys fields).map Step.key := by
        simp [children, Assoc.keys]
      rw [steps]
      exact List.Nodup.map (fun _ _ same => Step.key.inj same) distinct.keys
  | array items =>
      have steps : (Value.array items).children.map Prod.fst =
          (List.range items.length).map Step.index := by
        refine List.ext_getElem (by simp [children]) fun i inside _ => ?_
        simp [children]
      rw [steps]
      exact List.Nodup.map (fun _ _ same => Step.index.inj same) List.nodup_range
  | _ => exact List.nodup_nil

/-- Ways that part are no prefixes of each other. -/
theorem Before.apart {steps others : List Step} (distinct : Distinct v)
    (before : Before v steps others) : ¬ steps <+: others ∧ ¬ others <+: steps := by
  obtain ⟨way, here, s, t, rest, more, walked, order, rfl, rfl⟩ := before
  have different : s ≠ t := by
    have once := (nodup_children (distinct.below walked)).sublist order
    simpa using once
  constructor <;> intro shorter
  · rw [List.prefix_append_right_inj] at shorter
    exact different (List.cons_prefix_cons.mp shorter).1
  · rw [List.prefix_append_right_inj] at shorter
    exact different (List.cons_prefix_cons.mp shorter).1.symm

theorem pairwise_leafSteps (distinct : Distinct v) : (leafSteps v).Pairwise (Before v) := by
  induction v using childrenInduction with
  | here v ih =>
      rw [leafSteps_eq]
      split
      · exact List.pairwise_singleton ..
      · unfold leafStepsBelow
        rw [List.pairwise_flatMap]
        constructor
        · rintro ⟨s, child⟩ member
          have among := (List.mem_filter.mp member).1
          have step := (mem_children distinct).mp among
          rw [List.pairwise_map]
          exact (ih (s, child) among (distinct.child step)).imp fun before => before.child step
        · -- Ways below different children part at the root.
          rw [List.pairwise_iff_forall_sublist]
          rintro ⟨s, child⟩ ⟨t, other⟩ order
          have placed : [s, t].Sublist (v.children.map Prod.fst) :=
            (order.trans List.filter_sublist).map Prod.fst
          simp only [List.mem_map]
          rintro _ ⟨rest, -, rfl⟩ _ ⟨more, -, rfl⟩
          exact ⟨[], v, s, t, rest, more, rfl, placed, rfl, rfl⟩

/-! ## The parts along the leaves -/

theorem picked_nothing {pick : Step → Value → Option Value} (distinct : Distinct v)
    (nothing : ∀ s w, v.child? s = some w → pick s w = none) : picked pick v = none := by
  rw [picked_congr distinct nothing]
  cases v with
  | object fields => simp [picked, pickFields, populated]
  | array items => simp [picked, pickItems, holed]
  | _ => rfl

/-- Below a step that leads to a child that is not empty, the leaves are those of this child. -/
theorem nameSame_under_leafSteps {s : Step} (distinct : Distinct v) (step : v.child? s = some w)
    (filled : w ≠ .empty) : NameSame (under s (leafSteps v)) (leafSteps w) := by
  apply NameSame.of_mem_iff
  intro way
  rw [mem_under, cons_mem_leafSteps distinct]
  constructor
  · rintro ⟨child, found, -, member⟩
    exact Option.some.inj (step.symm.trans found) ▸ member
  · intro member
    exact ⟨w, step, filled, member⟩

/-- All of a tree without empty values lies along its leaves. -/
theorem parts_leafSteps (distinct : Distinct v) (full : Full v) :
    retainAt v (leafSteps v) = some v ∧ recludeAt v (leafSteps v) = none := by
  induction v using childInduction with
  | here v ih =>
      by_cases barren : Barren v
      · have whole := (nil_mem_leafSteps distinct).mpr barren
        exact ⟨retainAt_whole whole v, recludeAt_whole whole v⟩
      · have inside : [] ∉ leafSteps v := fun whole => barren ((nil_mem_leafSteps distinct).mp whole)
        have structured : v.isStructure = true := by
          by_contra plain
          refine barren fun s child step => ?_
          rw [child?_leaf (by simpa using plain)] at step
          cases step
        have inhabited : ¬ Hollow v := fun hollow => barren hollow.barren
        have below : ∀ s child, v.child? s = some child →
            retainAt child (under s (leafSteps v)) = some child ∧
              recludeAt child (under s (leafSteps v)) = none := by
          intro s child step
          have filled := (full.child step).root
          have same := nameSame_under_leafSteps distinct step filled
          rw [retainAt_congr same, recludeAt_congr same]
          exact ih s child step (distinct.child step) (full.child step)
        constructor
        · rw [retainAt_eq_picked inside]
          exact picked_whole distinct structured inhabited fun s child step => (below s child step).1
        · rw [recludeAt_eq_picked inside (leafSteps_ne_nil v) structured]
          exact picked_nothing distinct fun s child step => (below s child step).2

/-! ## The list of the leaves -/

theorem Barren.hollow (barren : Barren v) (full : Full v) (structured : v.isStructure = true) :
    Hollow v := by
  by_contra inhabited
  cases v with
  | array items =>
      cases items with
      | nil => exact inhabited (.inl rfl)
      | cons child rest =>
          have step : (Value.array (child :: rest)).child? (.index 0) = some child := rfl
          exact (full.child step).root (barren _ child step)
  | object fields =>
      cases fields with
      | nil => exact inhabited (.inr rfl)
      | cons field rest =>
          have step : (Value.object (field :: rest)).child? (.key field.1) = some field.2 := by
            simp [child?, Assoc.get?]
          exact (full.child step).root (barren _ field.2 step)
  | _ => cases structured

theorem mem_leaves {steps : List Step} (distinct : Distinct v) :
    steps ∈ v.leaves.map Address.steps ↔
      steps ≠ [] ∧ v.resolve steps ≠ .empty ∧ Barren (v.resolve steps) := by
  have below : steps ∈ v.leaves.map Address.steps ↔ steps ∈ leafSteps v ∧ steps ≠ [] := by
    simp [steps_leaves]
  rw [below]
  by_cases full : v = .empty
  · subst full
    simp [leafSteps, resolve_empty]
  · rw [mem_leafSteps distinct full, and_comm]

/-- Where there are leaves below it, the root is an object or an array. -/
theorem link_of_mem_leaves {a : Address} (member : a ∈ v.leaves) : a.link = .root v := by
  obtain ⟨steps, listed, rfl⟩ := List.mem_map.mp member
  have structured : v.isStructure = true := by
    by_contra plain
    cases v <;> simp [isStructure, isObject, isArray, leafSteps] at plain listed
  simp [Address.linkedTo, structured]

theorem pairwise_leaves (distinct : Distinct v) :
    (v.leaves.map Address.steps).Pairwise (Before v) := by
  rw [steps_leaves]
  exact (pairwise_leafSteps distinct).sublist List.filter_sublist

/-- The parts along the leaves are the whole tree and nothing. -/
theorem parts_leaves (distinct : Distinct v) (full : Full v) (structured : v.isStructure = true) :
    retain v (v.leaves.map Address.steps) = v ∧
      reclude v (v.leaves.map Address.steps) = emptyLike v := by
  by_cases barren : Barren v
  · have hollow := barren.hollow full structured
    have none : v.leaves.map Address.steps = [] := by
      rcases hollow with rfl | rfl <;> rfl
    rw [none, retain_eq, reclude_hollow hollow, retainAt_nil]
    rcases hollow with rfl | rfl <;> exact ⟨rfl, rfl⟩
  · have all : v.leaves.map Address.steps = leafSteps v := by
      rw [steps_leaves]
      refine List.filter_eq_self.mpr fun steps member => ?_
      cases steps with
      | nil => exact absurd ((nil_mem_leafSteps distinct).mp member) barren
      | cons s rest => rfl
    obtain ⟨kept, rest⟩ := parts_leafSteps distinct full
    rw [all, retain_eq, reclude_eq, kept, rest]
    exact ⟨rfl, rfl⟩

/-- **The leaves of a tree, exactly.** No way to a leaf is listed twice or is a prefix of another
one. Every address in the list is linked to the tree, and its ways are the ways below the root to
values that are not empty and have no child that is not, all of them. They stand in document order.
In a tree without empty values, everything lies along them. -/
theorem leaves_exact (v : Value) (distinct : Distinct v) :
    (v.leaves.map Address.steps).Nodup ∧
      (∀ way ∈ v.leaves.map Address.steps, ∀ other ∈ v.leaves.map Address.steps,
        way <+: other → way = other) ∧
      (∀ a ∈ v.leaves, a.link = .root v) ∧
      (∀ way, way ∈ v.leaves.map Address.steps ↔
        way ≠ [] ∧ v.resolve way ≠ .empty ∧ Barren (v.resolve way)) ∧
      (v.leaves.map Address.steps).Pairwise (Before v) ∧
      (v.isStructure = true → Full v →
        retain v (v.leaves.map Address.steps) = v ∧
          reclude v (v.leaves.map Address.steps) = emptyLike v) := by
  have order := pairwise_leaves distinct
  have apart : (v.leaves.map Address.steps).Pairwise fun way other =>
      ¬ way <+: other ∧ ¬ other <+: way := order.imp fun before => before.apart distinct
  refine ⟨?_, ?_, fun a => link_of_mem_leaves, fun way => mem_leaves distinct, order,
    fun structured full => parts_leaves distinct full structured⟩
  · refine apart.imp fun pair => ?_
    rintro rfl
    exact pair.1 List.prefix_rfl
  · intro way member other memberToo shorter
    have symmetric : Std.Symm fun way other : List Step => ¬ way <+: other ∧ ¬ other <+: way :=
      ⟨fun _ _ pair => ⟨pair.2, pair.1⟩⟩
    by_contra different
    exact (apart.forall member memberToo different).1 shorter

/-- A hole and an empty member are no leaves, but containers are that hold nothing else. -/
theorem leaves_exact_holed :
    let v : Value := .object [("a", .array [.empty, .array [], .array [.empty]]), ("b", .empty)]
    Distinct v ∧ v.leaves.map Address.steps = [[.key "a", .index 1], [.key "a", .index 2]] ∧
      Before v [.key "a", .index 1] [.key "a", .index 2] ∧
      shelf.isStructure = true ∧ Full shelf ∧
      retain shelf (shelf.leaves.map Address.steps) = shelf ∧
      reclude shelf (shelf.leaves.map Address.steps) = .object [] := by
  intro v
  have distinct : Distinct v := by
    refine .object (by decide) (List.forall_mem_cons.mpr ⟨.array ?_, ?_⟩)
    · refine List.forall_mem_cons.mpr ⟨.leaf rfl, List.forall_mem_cons.mpr ⟨.array (by simp), ?_⟩⟩
      exact List.forall_mem_singleton.mpr (.array (List.forall_mem_singleton.mpr (.leaf rfl)))
    · exact List.forall_mem_singleton.mpr (.leaf rfl)
  have listed : v.leaves.map Address.steps = [[.key "a", .index 1], [.key "a", .index 2]] := rfl
  obtain ⟨-, -, -, -, order, -⟩ := leaves_exact v distinct
  rw [listed] at order
  obtain ⟨-, -, -, -, -, parts⟩ := leaves_exact shelf shelf_distinct
  exact ⟨distinct, listed, List.rel_of_pairwise_cons order (List.mem_singleton.mpr rfl), rfl,
    shelf_full, parts rfl shelf_full⟩

end TreeQuery.Value
