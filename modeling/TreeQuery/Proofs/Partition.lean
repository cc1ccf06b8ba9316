import TreeQuery.Proofs.Ways

/-!
# Splitting a tree by addresses

`retain` and `reclude` split a tree along a set of addresses that all lead somewhere. Nothing is
lost: laying the two parts over each other gives the tree back, up to the order of members
(`Reordered`). Nothing is in both: the leaves of the tree fall into those that an address of the set
is a prefix of, which are the leaves of the kept part, and the others, which are the leaves of the
rest.

Both operations pick parts of the children and drop those of which nothing is left (`pickFields`,
`pickItems`). What holds of such a picking is shown once for both: `leafSteps_pickFields` and
`leafSteps_pickItems` for the leaves, `merge_pickFields` and `merge_pickItems` for two pickings that
fit together (`Fits`).
-/

set_option autoImplicit false

namespace TreeQuery.Value

/-- Equal up to the order of the members of objects, at every level. -/
inductive Reordered : Value → Value → Prop
  | refl (v : Value) : Reordered v v
  | array {items others : List Value} (each : List.Forall₂ Reordered items others) :
      Reordered (.array items) (.array others)
  | object {fields permuted others : List (String × Value)} (order : fields.Perm permuted)
      (keys : Assoc.keys permuted = Assoc.keys others)
      (each : List.Forall₂ Reordered (permuted.map Prod.snd) (others.map Prod.snd)) :
      Reordered (.object fields) (.object others)

/-! ## Nothing is lost -/

/-- The two parts of a value, of which one may be missing, give the value back. -/
def Fits (v : Value) : Option Value → Option Value → Prop
  | some kept, some rest => Reordered (merge kept rest) v
  | some kept, none => kept = v
  | none, some rest => rest = v
  | none, none => False

theorem merge_empty (v : Value) : merge v .empty = v := by
  cases v <;> rfl

/-- In an array a missing part is an empty slot. -/
theorem Fits.merge {v : Value} {kept rest : Option Value} (fits : Fits v kept rest) :
    Reordered (Value.merge (kept.getD .empty) (rest.getD .empty)) v := by
  cases kept with
  | none =>
      cases rest with
      | none => exact fits.elim
      | some r => exact fits ▸ .refl _
  | some k =>
      cases rest with
      | none =>
          simp only [Option.getD_some, Option.getD_none, merge_empty]
          exact fits ▸ .refl _
      | some r => exact fits

section Picking

variable {keep drop : Step → Value → Option Value}

/-- Picking the whole of every element leaves the array as it is. -/
theorem pickItems_whole {pick : Step → Value → Option Value} {items : List Value}
    (whole : ∀ entry ∈ items.zipIdx, pick (.index entry.2) entry.1 = some entry.1) :
    (pickItems pick 0 items).map (·.getD .empty) = items := by
  calc (pickItems pick 0 items).map (·.getD .empty)
      = items.zipIdx.map Prod.fst := by
        simp only [pickItems, List.map_map]
        exact List.map_congr_left fun entry member => by simp [whole entry member]
    _ = items := by simp

theorem mergeItems_map {α : Type} (left right : α → Value) (l : List α) :
    mergeItems (l.map left) (l.map right) = l.map fun a => Value.merge (left a) (right a) := by
  induction l with
  | nil => rfl
  | cons a rest ih => simp [mergeItems, ih]

theorem merge_pickItems {items : List Value}
    (fits : ∀ entry ∈ items.zipIdx,
      Fits entry.1 (keep (.index entry.2) entry.1) (drop (.index entry.2) entry.1)) :
    List.Forall₂ Reordered
      (mergeItems ((pickItems keep 0 items).map (·.getD .empty))
        ((pickItems drop 0 items).map (·.getD .empty))) items := by
  have located : items = items.zipIdx.map Prod.fst := by simp
  simp only [pickItems, List.map_map, mergeItems_map]
  conv => arg 3; rw [located]
  rw [List.forall₂_map_left_iff, List.forall₂_map_right_iff, List.forall₂_same]
  exact fun entry member => (fits entry member).merge

/-- A part that is missing leaves the whole to the other. -/
theorem Fits.left {v : Value} {kept rest : Option Value} (fits : Fits v kept rest)
    (missing : rest = none) : kept = some v := by
  subst missing
  cases kept with
  | none => exact fits.elim
  | some k => exact congrArg some fits

theorem Fits.right {v : Value} {kept rest : Option Value} (fits : Fits v kept rest)
    (missing : kept = none) : rest = some v := by
  subst missing
  cases rest with
  | none => exact fits.elim
  | some r => exact congrArg some fits

theorem Fits.array {items : List Value} (inhabited : items ≠ [])
    (fits : ∀ entry ∈ items.zipIdx,
      Fits entry.1 (keep (.index entry.2) entry.1) (drop (.index entry.2) entry.1)) :
    Fits (.array items) (holed (pickItems keep 0 items)) (holed (pickItems drop 0 items)) := by
  unfold holed
  split
  · rename_i noneKept
    rw [pickItems_all_none] at noneKept
    have rest : ∀ entry ∈ items.zipIdx, drop (.index entry.2) entry.1 = some entry.1 :=
      fun entry member => (fits entry member).right (noneKept entry member)
    have someDropped : ¬ (pickItems drop 0 items).all Option.isNone = true := by
      rw [pickItems_all_none]
      obtain ⟨w, others, rfl⟩ := List.exists_cons_of_ne_nil inhabited
      intro noneDropped
      have first : (w, 0) ∈ (w :: others).zipIdx := by simp [List.zipIdx_cons]
      simpa [noneDropped _ first] using rest _ first
    rw [if_neg someDropped]
    exact congrArg Value.array (pickItems_whole rest)
  · split
    · rename_i noneDropped
      rw [pickItems_all_none] at noneDropped
      exact congrArg Value.array
        (pickItems_whole fun entry member => (fits entry member).left (noneDropped entry member))
    · exact Reordered.array (merge_pickItems fits)

theorem keys_pickFields_subset {pick : Step → Value → Option Value}
    {fields : List (String × Value)} {key : String}
    (member : key ∈ Assoc.keys (pickFields pick fields)) : key ∈ Assoc.keys fields := by
  simp only [Assoc.keys, pickFields, List.mem_map, List.mem_filterMap, Option.map_eq_some_iff]
    at member ⊢
  obtain ⟨_, ⟨field, inFields, part, _, rfl⟩, rfl⟩ := member
  exact ⟨field, inFields, rfl⟩

theorem get?_pickFields (pick : Step → Value → Option Value) {fields : List (String × Value)}
    (distinct : (Assoc.keys fields).Nodup) {field : String × Value} (member : field ∈ fields) :
    Assoc.get? (pickFields pick fields) field.1 = pick (.key field.1) field.2 := by
  induction fields with
  | nil => simp at member
  | cons head rest ih =>
      obtain ⟨fresh, distinct⟩ := List.nodup_cons.mp distinct
      have absent : Assoc.get? (pickFields pick rest) head.1 = none := by
        rw [Assoc.get?_eq_none_iff]
        exact fun later => fresh (keys_pickFields_subset later)
      rcases List.mem_cons.mp member with rfl | later
      · cases picked : pick (.key field.1) field.2 with
        | none => rw [pickFields_cons_none picked, absent]
        | some part => simp [pickFields_cons_some picked, Assoc.get?]
      · have apart : head.1 ≠ field.1 := fun same =>
          fresh (same ▸ List.mem_map.mpr ⟨field, later, rfl⟩)
        have below := ih distinct later
        cases picked : pick (.key head.1) head.2 with
        | none => rw [pickFields_cons_none picked, below]
        | some part => simp [pickFields_cons_some picked, Assoc.get?, apart, below]

/-- A member with both of its parts laid over each other. -/
def rejoined (keep drop : Step → Value → Option Value) (field : String × Value) : String × Value :=
  (field.1, Value.merge ((keep (.key field.1) field.2).getD .empty)
    ((drop (.key field.1) field.2).getD .empty))

/-- The members that are kept come first, with what else there is of them. -/
theorem mergeFields_pickFields {fields : List (String × Value)}
    (distinct : (Assoc.keys fields).Nodup) (sub : List (String × Value)) (inside : sub ⊆ fields) :
    mergeFields (pickFields keep sub) (pickFields drop fields) =
      (sub.filter fun field => (keep (.key field.1) field.2).isSome).map (rejoined keep drop) := by
  induction sub with
  | nil => rfl
  | cons field rest ih =>
      have others := ih fun f member => inside (List.mem_cons_of_mem _ member)
      have dropped := get?_pickFields drop distinct (inside (List.mem_cons_self ..))
      cases kept : keep (.key field.1) field.2 with
      | none => simpa [pickFields_cons_none kept, kept] using others
      | some part =>
          rw [pickFields_cons_some kept, mergeFields, others, dropped]
          simp only [List.filter_cons, kept, Option.isSome_some, if_true, List.map_cons, rejoined,
            Option.getD_some]
          cases drop (.key field.1) field.2 <;> simp [merge_empty]

/-- The members of which nothing is kept come after, as they are. -/
theorem filter_pickFields {fields : List (String × Value)} (distinct : (Assoc.keys fields).Nodup)
    (fits : ∀ field ∈ fields,
      Fits field.2 (keep (.key field.1) field.2) (drop (.key field.1) field.2))
    (sub : List (String × Value)) (inside : sub ⊆ fields) :
    ((pickFields drop sub).filter fun o => !Assoc.contains (pickFields keep fields) o.1) =
      (sub.filter fun field => !(keep (.key field.1) field.2).isSome).map (rejoined keep drop) := by
  induction sub with
  | nil => rfl
  | cons field rest ih =>
      have others := ih fun f member => inside (List.mem_cons_of_mem _ member)
      have here := inside (List.mem_cons_self ..)
      have kept := get?_pickFields keep distinct here
      have found : Assoc.contains (pickFields keep fields) field.1
          = (keep (.key field.1) field.2).isSome := by
        rw [Assoc.contains, kept]
      cases part : keep (.key field.1) field.2 with
      | none =>
          have whole := (fits field here).right part
          have alone : rejoined keep drop field = field := by
            simp [rejoined, part, whole, Value.merge]
          simp [pickFields_cons_some whole, found, part, others, alone]
      | some whole =>
          cases rest : drop (.key field.1) field.2 with
          | none => simpa [pickFields_cons_none rest, part] using others
          | some r => simpa [pickFields_cons_some rest, found, part] using others

theorem merge_pickFields {fields : List (String × Value)} (distinct : (Assoc.keys fields).Nodup)
    (fits : ∀ field ∈ fields,
      Fits field.2 (keep (.key field.1) field.2) (drop (.key field.1) field.2)) :
    Reordered (Value.merge (.object (pickFields keep fields)) (.object (pickFields drop fields)))
      (.object fields) := by
  have order : (mergeFields (pickFields keep fields) (pickFields drop fields) ++
      (pickFields drop fields).filter fun o => !Assoc.contains (pickFields keep fields) o.1).Perm
        (fields.map (rejoined keep drop)) := by
    rw [mergeFields_pickFields distinct fields (List.Subset.refl _),
      filter_pickFields distinct fits fields (List.Subset.refl _), ← List.map_append]
    exact (List.filter_append_perm _ fields).map _
  refine .object order ?_ ?_
  · simp [Assoc.keys, rejoined]
  · rw [List.map_map, List.forall₂_map_left_iff, List.forall₂_map_right_iff, List.forall₂_same]
    exact fun field member => (fits field member).merge

theorem pickFields_whole {pick : Step → Value → Option Value} {fields : List (String × Value)}
    (whole : ∀ field ∈ fields, pick (.key field.1) field.2 = some field.2) :
    pickFields pick fields = fields := by
  induction fields with
  | nil => rfl
  | cons field rest ih =>
      have others := ih fun f member => whole f (List.mem_cons_of_mem _ member)
      rw [pickFields_cons_some (whole field (List.mem_cons_self ..)), others]

theorem Fits.object {fields : List (String × Value)} (inhabited : fields ≠ [])
    (distinct : (Assoc.keys fields).Nodup)
    (fits : ∀ field ∈ fields,
      Fits field.2 (keep (.key field.1) field.2) (drop (.key field.1) field.2)) :
    Fits (.object fields) (populated (pickFields keep fields))
      (populated (pickFields drop fields)) := by
  simp only [populated, List.isEmpty_iff]
  split
  · rename_i noneKept
    rw [pickFields_eq_nil] at noneKept
    have rest : pickFields drop fields = fields :=
      pickFields_whole fun field member => (fits field member).right (noneKept field member)
    rw [rest, if_neg inhabited]
    rfl
  · split
    · rename_i noneDropped
      rw [pickFields_eq_nil] at noneDropped
      exact congrArg Value.object
        (pickFields_whole fun field member => (fits field member).left (noneDropped field member))
    · exact merge_pickFields distinct fits

end Picking

theorem child?_of_mem_zipIdx {items : List Value} {entry : Value × Nat}
    (member : entry ∈ items.zipIdx) :
    (Value.array items).child? (.index entry.2) = some entry.1 := by
  simpa [child?, List.mem_zipIdx_iff_getElem?] using member

/-- Addresses lead into a tree only where there is something below its root. -/
theorem Reaches.cases {v : Value} {ways : List (List Step)} (reaches : Reaches v ways) :
    [] ∈ ways ∨ ways = [] ∨ ([] ∉ ways ∧ ways ≠ [] ∧ ∃ s w, v.child? s = some w) := by
  by_cases whole : [] ∈ ways
  · exact Or.inl whole
  · cases ways with
    | nil => exact Or.inr (Or.inl rfl)
    | cons way rest =>
        obtain ⟨s, steps, rfl⟩ := List.exists_cons_of_ne_nil
          (show way ≠ [] from fun h => whole (h ▸ List.mem_cons_self ..))
        obtain ⟨w, child⟩ := reaches.step (List.mem_cons_self ..)
        exact Or.inr (Or.inr ⟨whole, List.cons_ne_nil _ _, s, w, child⟩)

/-- Addresses that all lead somewhere split a tree into parts that give it back. -/
theorem fits_retainAt_recludeAt (v : Value) (ways : List (List Step)) (distinct : Distinct v)
    (reaches : Reaches v ways) : Fits v (retainAt v ways) (recludeAt v ways) := by
  induction v using treeInduction generalizing ways with
  | leaf v plain =>
      rcases reaches.cases with whole | rfl | ⟨_, _, s, w, child⟩
      · rw [retainAt_whole whole, recludeAt_whole whole]
        rfl
      · rw [retainAt_nil, recludeAt_nil]
        rfl
      · rw [child?_leaf plain] at child
        cases child
  | array items ih =>
      rcases reaches.cases with whole | rfl | ⟨inside, some, s, w, child⟩
      · rw [retainAt_whole whole, recludeAt_whole whole]
        rfl
      · rw [retainAt_nil, recludeAt_nil]
        rfl
      · rw [retainAt_array inside, recludeAt_array inside some]
        refine Fits.array ?_ fun entry member => ?_
        · rintro rfl
          cases s <;> simp [child?] at child
        · have child := child?_of_mem_zipIdx member
          exact ih entry.1 (List.fst_mem_of_mem_zipIdx member) _ (distinct.child child)
            (reaches.child child)
  | object fields ih =>
      rcases reaches.cases with whole | rfl | ⟨inside, some, s, w, child⟩
      · rw [retainAt_whole whole, recludeAt_whole whole]
        rfl
      · rw [retainAt_nil, recludeAt_nil]
        rfl
      · rw [retainAt_object inside, recludeAt_object inside some]
        refine Fits.object ?_ distinct.keys fun field member => ?_
        · rintro rfl
          cases s <;> simp [child?, Assoc.get?] at child
        · have child := child?_of_mem_fields distinct.keys member
          exact ih field member _ (distinct.child child) (reaches.child child)

theorem merge_emptyLike_left (v : Value) : merge (emptyLike v) v = v := by
  cases v <;> simp [emptyLike, merge, mergeItems, mergeFields, Assoc.contains, Assoc.get?]

theorem mergeFields_nil (fields : List (String × Value)) : mergeFields fields [] = fields := by
  induction fields with
  | nil => rfl
  | cons field rest ih => simp [mergeFields, Assoc.get?, ih]

theorem merge_emptyLike_right (v : Value) : merge v (emptyLike v) = v := by
  cases v with
  | array items => cases items <;> simp [emptyLike, merge, mergeItems]
  | object fields => simp [emptyLike, merge, mergeFields_nil]
  | _ => rfl

/-- Nothing is lost: the two parts of a tree give it back. -/
theorem merge_retain_reclude (v : Value) (ways : List (List Step)) (distinct : Distinct v)
    (reaches : Reaches v ways) : Reordered (merge (retain v ways) (reclude v ways)) v := by
  have fits := fits_retainAt_recludeAt v ways distinct reaches
  rw [retain_eq, reclude_eq]
  cases kept : retainAt v ways with
  | none =>
      rw [fits.right kept]
      simp only [Option.getD_none, Option.getD_some, merge_emptyLike_left]
      exact .refl v
  | some k =>
      cases rest : recludeAt v ways with
      | none =>
          have whole : k = v := by simpa [kept] using fits.left rest
          simp only [Option.getD_none, Option.getD_some, whole, merge_emptyLike_right]
          exact .refl v
      | some r =>
          rw [kept, rest] at fits
          exact fits

/-! ## Nothing is in both -/

/-- Whether one of the ways is a prefix of the steps. -/
def covered (ways : List (List Step)) (steps : List Step) : Bool :=
  ways.any fun way => way.isPrefixOf steps

theorem covered_whole {ways : List (List Step)} (whole : [] ∈ ways) (steps : List Step) :
    covered ways steps = true :=
  List.any_eq_true.mpr ⟨[], whole, rfl⟩

theorem covered_cons {ways : List (List Step)} (inside : [] ∉ ways) (s : Step)
    (steps : List Step) : covered ways (s :: steps) = covered (under s ways) steps := by
  rw [Bool.eq_iff_iff]
  simp only [covered, List.any_eq_true]
  constructor
  · rintro ⟨way, member, isPrefix⟩
    cases way with
    | nil => exact (inside member).elim
    | cons t rest =>
        simp only [List.isPrefixOf, Bool.and_eq_true, beq_iff_eq] at isPrefix
        exact ⟨rest, mem_under.mpr (isPrefix.1 ▸ member), isPrefix.2⟩
  · rintro ⟨way, member, isPrefix⟩
    exact ⟨s :: way, mem_under.mp member, by simpa [List.isPrefixOf] using isPrefix⟩

/-- No location holds an empty value. -/
def Full (v : Value) : Prop :=
  Everywhere (· ≠ .empty) v

/-- The ways to the leaves of a part that may be missing. -/
def leafStepsOf : Option Value → List (List Step)
  | none => []
  | some v => leafSteps v

theorem leafSteps_ne_nil (v : Value) : leafSteps v ≠ [] := by
  cases v with
  | array items =>
      simp only [leafSteps]
      split
      · simp
      · assumption
  | object fields =>
      simp only [leafSteps]
      split
      · simp
      · assumption
  | _ => simp [leafSteps]

theorem isEmpty_eq_false {v : Value} (full : v ≠ .empty) : v.isEmpty = false := by
  cases v <;> first | rfl | exact absurd rfl full

theorem leafStepsOf_populated {fields : List (String × Value)}
    (full : ∀ field ∈ fields, field.2 ≠ .empty) :
    leafStepsOf (populated fields) = leafStepsFields fields := by
  cases fields with
  | nil => rfl
  | cons field rest =>
      obtain ⟨key, v⟩ := field
      have below : leafStepsFields ((key, v) :: rest) ≠ [] := by
        have filled := isEmpty_eq_false (full (key, v) (List.mem_cons_self ..))
        simp [leafStepsFields, filled, leafSteps_ne_nil]
      simp [populated, leafStepsOf, leafSteps]

theorem leafStepsItems_empty (i : Nat) (slots : List (Option Value))
    (none : slots.all Option.isNone = true) :
    leafStepsItems i (slots.map (·.getD .empty)) = [] := by
  induction slots generalizing i with
  | nil => rfl
  | cons slot rest ih =>
      simp only [List.all_cons, Bool.and_eq_true, Option.isNone_iff_eq_none] at none
      simp [leafStepsItems, none.1, isEmpty, ih (i + 1) none.2]

theorem leafStepsItems_ne_nil {i : Nat} {items : List Value} {v : Value} (member : v ∈ items)
    (full : v ≠ .empty) : leafStepsItems i items ≠ [] := by
  induction items generalizing i with
  | nil => simp at member
  | cons w rest ih =>
      rcases List.mem_cons.mp member with rfl | later
      · simp [leafStepsItems, isEmpty_eq_false full, leafSteps_ne_nil]
      · simp [leafStepsItems, ih later]

theorem leafStepsOf_holed {slots : List (Option Value)} (full : some .empty ∉ slots) :
    leafStepsOf (holed slots) = leafStepsItems 0 (slots.map (·.getD .empty)) := by
  by_cases none : slots.all Option.isNone = true
  · rw [holed, if_pos none, leafStepsItems_empty 0 slots none]
    rfl
  · rw [holed, if_neg none]
    obtain ⟨slot, member, filled⟩ : ∃ slot ∈ slots, ¬ slot.isNone = true := by
      simpa only [List.all_eq_true, not_forall, exists_prop] using none
    obtain ⟨v, rfl⟩ : ∃ v, slot = some v := by
      cases slot with
      | none => exact absurd rfl filled
      | some v => exact ⟨v, rfl⟩
    have below : leafStepsItems 0 (slots.map (·.getD .empty)) ≠ [] :=
      leafStepsItems_ne_nil (List.mem_map.mpr ⟨some v, member, rfl⟩)
        fun empty => full (empty ▸ member)
    simp [leafStepsOf, leafSteps]

/-- The leaves of picked members are those leaves of the members that a test accepts, if this is so
for each of them. -/
theorem leafSteps_pickFields {pick : Step → Value → Option Value} {test : List Step → Bool}
    (fields : List (String × Value))
    (full : ∀ field ∈ fields, field.2 ≠ .empty ∧ pick (.key field.1) field.2 ≠ some .empty)
    (each : ∀ field ∈ fields, leafStepsOf (pick (.key field.1) field.2) =
      (leafSteps field.2).filter fun steps => test (.key field.1 :: steps)) :
    leafStepsFields (pickFields pick fields) = (leafStepsFields fields).filter test := by
  induction fields with
  | nil => rfl
  | cons field rest ih =>
      have others := ih (fun f member => full f (List.mem_cons_of_mem _ member))
        fun f member => each f (List.mem_cons_of_mem _ member)
      obtain ⟨filled, part⟩ := full field (List.mem_cons_self ..)
      have here := each field (List.mem_cons_self ..)
      have split : leafStepsFields (field :: rest)
          = (leafSteps field.2).map (.key field.1 :: ·) ++ leafStepsFields rest := by
        simp [leafStepsFields, isEmpty_eq_false filled]
      have tested : ((leafSteps field.2).map (Step.key field.1 :: ·)).filter test
          = (leafStepsOf (pick (.key field.1) field.2)).map (Step.key field.1 :: ·) := by
        rw [here, List.filter_map]
        rfl
      rw [split, List.filter_append, tested, ← others]
      cases picked : pick (.key field.1) field.2 with
      | none => simp [pickFields_cons_none picked, leafStepsOf]
      | some v =>
          have filled : v ≠ .empty := fun empty => part (empty ▸ picked)
          simp [pickFields_cons_some picked, leafStepsOf, leafStepsFields, isEmpty_eq_false filled]

theorem leafSteps_pickItems {pick : Step → Value → Option Value} {test : List Step → Bool}
    (i : Nat) (items : List Value)
    (full : ∀ entry ∈ items.zipIdx i,
      entry.1 ≠ .empty ∧ pick (.index entry.2) entry.1 ≠ some .empty)
    (each : ∀ entry ∈ items.zipIdx i, leafStepsOf (pick (.index entry.2) entry.1) =
      (leafSteps entry.1).filter fun steps => test (.index entry.2 :: steps)) :
    leafStepsItems i ((pickItems pick i items).map (·.getD .empty)) =
      (leafStepsItems i items).filter test := by
  induction items generalizing i with
  | nil => rfl
  | cons v rest ih =>
      simp only [List.zipIdx_cons, List.forall_mem_cons] at full each
      have others := ih (i + 1) full.2 each.2
      have split : leafStepsItems i (v :: rest)
          = (leafSteps v).map (.index i :: ·) ++ leafStepsItems (i + 1) rest := by
        simp [leafStepsItems, isEmpty_eq_false full.1.1]
      have tested : ((leafSteps v).map (Step.index i :: ·)).filter test
          = (leafStepsOf (pick (.index i) v)).map (Step.index i :: ·) := by
        rw [each.1, List.filter_map]
        rfl
      have cons : pickItems pick i (v :: rest) = pick (.index i) v :: pickItems pick (i + 1) rest := by
        simp [pickItems, List.zipIdx_cons]
      rw [split, List.filter_append, tested, ← others, cons]
      cases picked : pick (.index i) v with
      | none => simp [leafStepsItems, leafStepsOf, isEmpty]
      | some w =>
          have filled : w ≠ .empty := fun empty => full.1.2 (empty ▸ picked)
          simp [leafStepsItems, leafStepsOf, isEmpty_eq_false filled]

theorem retainAt_ne_empty {v : Value} (full : v ≠ .empty) (ways : List (List Step)) :
    retainAt v ways ≠ some .empty := by
  cases v <;> simp only [retainAt, populated, holed, ne_eq, reduceCtorEq, not_true_eq_false]
    at full ⊢ <;> repeat' split
  all_goals simp

theorem recludeAt_ne_empty {v : Value} (full : v ≠ .empty) (ways : List (List Step)) :
    recludeAt v ways ≠ some .empty := by
  cases v <;> simp only [recludeAt, populated, holed, ne_eq, reduceCtorEq, not_true_eq_false]
    at full ⊢ <;> repeat' split
  all_goals simp

section Leaves

variable {pick : Step → Value → Option Value} {test : List Step → Bool}

theorem leafStepsOf_object {fields : List (String × Value)} (inhabited : fields ≠ [])
    (full : ∀ field ∈ fields, field.2 ≠ .empty ∧ pick (.key field.1) field.2 ≠ some .empty)
    (each : ∀ field ∈ fields, leafStepsOf (pick (.key field.1) field.2) =
      (leafSteps field.2).filter fun steps => test (.key field.1 :: steps)) :
    leafStepsOf (populated (pickFields pick fields)) =
      (leafSteps (.object fields)).filter test := by
  have whole : leafSteps (.object fields) = leafStepsFields fields := by
    have all := leafStepsOf_populated fun field member => (full field member).1
    simpa [populated, inhabited, leafStepsOf] using all
  have picked : ∀ field ∈ pickFields pick fields, field.2 ≠ .empty := by
    intro part member empty
    simp only [pickFields, List.mem_filterMap, Option.map_eq_some_iff] at member
    obtain ⟨field, inFields, v, found, rfl⟩ := member
    exact (full field inFields).2 (empty ▸ found)
  rw [leafStepsOf_populated picked, leafSteps_pickFields fields full each, whole]

theorem leafStepsOf_array {items : List Value} (inhabited : items ≠ [])
    (full : ∀ entry ∈ items.zipIdx,
      entry.1 ≠ .empty ∧ pick (.index entry.2) entry.1 ≠ some .empty)
    (each : ∀ entry ∈ items.zipIdx, leafStepsOf (pick (.index entry.2) entry.1) =
      (leafSteps entry.1).filter fun steps => test (.index entry.2 :: steps)) :
    leafStepsOf (holed (pickItems pick 0 items)) = (leafSteps (.array items)).filter test := by
  have below : leafStepsItems 0 items ≠ [] := by
    obtain ⟨v, rest, rfl⟩ := List.exists_cons_of_ne_nil inhabited
    exact leafStepsItems_ne_nil (List.mem_cons_self ..) (full (v, 0) (by simp [List.zipIdx_cons])).1
  have whole : leafSteps (.array items) = leafStepsItems 0 items := by
    simp [leafSteps]
  have picked : some .empty ∉ pickItems pick 0 items := by
    simp only [pickItems, List.mem_map, not_exists, not_and]
    exact fun entry member => (full entry member).2
  rw [leafStepsOf_holed picked, leafSteps_pickItems 0 items full each, whole]

end Leaves

/-- What the ways do to the leaves of a value, stated for both of its parts. -/
def SplitsLeaves (v : Value) (ways : List (List Step)) : Prop :=
  leafStepsOf (retainAt v ways) = (leafSteps v).filter (covered ways) ∧
    leafStepsOf (recludeAt v ways) = (leafSteps v).filter fun steps => !covered ways steps

theorem splitsLeaves_whole {ways : List (List Step)} (whole : [] ∈ ways) (v : Value) :
    SplitsLeaves v ways := by
  refine ⟨?_, ?_⟩
  · rw [retainAt_whole whole, List.filter_eq_self.mpr fun steps _ => covered_whole whole steps]
    rfl
  · simp [recludeAt_whole whole, leafStepsOf, covered_whole whole]

theorem splitsLeaves_nil (v : Value) : SplitsLeaves v [] := by
  simp [SplitsLeaves, retainAt_nil, recludeAt_nil, leafStepsOf, covered]

theorem splitsLeaves (v : Value) (ways : List (List Step)) (distinct : Distinct v) (full : Full v)
    (reaches : Reaches v ways) : SplitsLeaves v ways := by
  induction v using treeInduction generalizing ways with
  | leaf v plain =>
      rcases reaches.cases with whole | rfl | ⟨_, _, s, w, child⟩
      · exact splitsLeaves_whole whole v
      · exact splitsLeaves_nil v
      · rw [child?_leaf plain] at child
        cases child
  | array items ih =>
      rcases reaches.cases with whole | rfl | ⟨inside, some, s, w, child⟩
      · exact splitsLeaves_whole whole _
      · exact splitsLeaves_nil _
      · have inhabited : items ≠ [] := by
          rintro rfl
          cases s <;> simp [child?] at child
        have below : ∀ entry ∈ items.zipIdx, entry.1 ≠ .empty ∧
            SplitsLeaves entry.1 (under (.index entry.2) ways) := by
          intro entry member
          have child := child?_of_mem_zipIdx member
          exact ⟨(full.child child).root, ih entry.1 (List.fst_mem_of_mem_zipIdx member) _
            (distinct.child child) (full.child child) (reaches.child child)⟩
        refine ⟨?_, ?_⟩
        · rw [retainAt_array inside]
          refine leafStepsOf_array inhabited (fun entry member => ?_) fun entry member => ?_
          · exact ⟨(below entry member).1, retainAt_ne_empty (below entry member).1 _⟩
          · simpa only [covered_cons inside] using (below entry member).2.1
        · rw [recludeAt_array inside some]
          refine leafStepsOf_array inhabited (fun entry member => ?_) fun entry member => ?_
          · exact ⟨(below entry member).1, recludeAt_ne_empty (below entry member).1 _⟩
          · simpa only [covered_cons inside] using (below entry member).2.2
  | object fields ih =>
      rcases reaches.cases with whole | rfl | ⟨inside, some, s, w, child⟩
      · exact splitsLeaves_whole whole _
      · exact splitsLeaves_nil _
      · have inhabited : fields ≠ [] := by
          rintro rfl
          cases s <;> simp [child?, Assoc.get?] at child
        have below : ∀ field ∈ fields, field.2 ≠ .empty ∧
            SplitsLeaves field.2 (under (.key field.1) ways) := by
          intro field member
          have child := child?_of_mem_fields distinct.keys member
          exact ⟨(full.child child).root, ih field member _ (distinct.child child)
            (full.child child) (reaches.child child)⟩
        refine ⟨?_, ?_⟩
        · rw [retainAt_object inside]
          refine leafStepsOf_object inhabited (fun field member => ?_) fun field member => ?_
          · exact ⟨(below field member).1, retainAt_ne_empty (below field member).1 _⟩
          · simpa only [covered_cons inside] using (below field member).2.1
        · rw [recludeAt_object inside some]
          refine leafStepsOf_object inhabited (fun field member => ?_) fun field member => ?_
          · exact ⟨(below field member).1, recludeAt_ne_empty (below field member).1 _⟩
          · simpa only [covered_cons inside] using (below field member).2.2

/-! ## At the root -/

theorem steps_leaves (v : Value) :
    v.leaves.map Address.steps = (leafSteps v).filter fun steps => !steps.isEmpty := by
  simp [leaves, List.map_map, Function.comp_def, Address.linkedTo]

/-- A part that is missing at the root becomes an empty container, which has no leaves. -/
theorem steps_leaves_getD (part : Option Value) (v : Value) :
    (part.getD (emptyLike v)).leaves.map Address.steps =
      (leafStepsOf part).filter fun steps => !steps.isEmpty := by
  cases part with
  | none => cases v <;> rfl
  | some w => exact steps_leaves w

/-- **A set of addresses that all lead somewhere splits a tree.** The parts give the tree back, up
to the order of members. In a tree without empty values, the leaves of the kept part are those with
a prefix in the set and the leaves of the rest are all others, both in the order of the tree. -/
theorem retain_reclude_partition (v : Value) (ways : List (List Step)) (distinct : Distinct v)
    (reaches : Reaches v ways) :
    Reordered (merge (retain v ways) (reclude v ways)) v ∧
      (Full v →
        (retain v ways).leaves.map Address.steps =
            (v.leaves.map Address.steps).filter (covered ways) ∧
          (reclude v ways).leaves.map Address.steps =
            (v.leaves.map Address.steps).filter fun steps => !covered ways steps) := by
  refine ⟨merge_retain_reclude v ways distinct reaches, fun full => ?_⟩
  obtain ⟨kept, rest⟩ := splitsLeaves v ways distinct full reaches
  have swap : ∀ test : List Step → Bool,
      ((leafSteps v).filter test).filter (fun steps => !steps.isEmpty) =
        ((leafSteps v).filter fun steps => !steps.isEmpty).filter test := by
    intro test
    simp only [List.filter_filter, Bool.and_comm]
  refine ⟨?_, ?_⟩
  · rw [retain_eq, steps_leaves_getD, kept, steps_leaves, swap]
  · rw [reclude_eq, steps_leaves_getD, rest, steps_leaves, swap]

/-- Nested containers, one of them empty, as an instance of the theorem. -/
def shelf : Value :=
  .object [("books", .array [.text "a", .object [("title", .text "b"), ("tags", .array [])]]),
    ("open", .bool true)]

/-- Addresses with a repetition and a prefix of another one. -/
def shelfWays : List (List Step) :=
  [[.key "books", .index 1, .key "tags"], [.key "open"], [.key "books", .index 1, .key "tags"],
    [.key "books", .index 0]]

theorem shelf_distinct : Distinct shelf := by
  refine .object (by decide) ?_
  simp only [List.forall_mem_cons, List.not_mem_nil, false_implies, implies_true, and_true]
  refine ⟨.array ?_, .leaf rfl⟩
  simp only [List.forall_mem_cons, List.not_mem_nil, false_implies, implies_true, and_true]
  refine ⟨.leaf rfl, .object (by decide) ?_⟩
  simp only [List.forall_mem_cons, List.not_mem_nil, false_implies, implies_true, and_true]
  exact ⟨.leaf rfl, .array (by simp)⟩

theorem shelf_full : Full shelf := by
  refine Everywhere.object (by simp) ?_
  simp only [List.forall_mem_cons, List.not_mem_nil, false_implies, implies_true, and_true]
  refine ⟨Everywhere.array (by simp) ?_, Everywhere.leaf rfl (by simp)⟩
  simp only [List.forall_mem_cons, List.not_mem_nil, false_implies, implies_true, and_true]
  refine ⟨Everywhere.leaf rfl (by simp), Everywhere.object (by simp) ?_⟩
  simp only [List.forall_mem_cons, List.not_mem_nil, false_implies, implies_true, and_true]
  exact ⟨Everywhere.leaf rfl (by simp), Everywhere.array (by simp) (by simp)⟩

theorem retain_reclude_shelf :
    Reaches shelf shelfWays ∧
      Reordered (merge (retain shelf shelfWays) (reclude shelf shelfWays)) shelf ∧
      (retain shelf shelfWays).leaves.map Address.steps =
        [[.key "books", .index 0], [.key "books", .index 1, .key "tags"], [.key "open"]] ∧
      (reclude shelf shelfWays).leaves.map Address.steps =
        [[.key "books", .index 1, .key "title"]] := by
  have reaches : Reaches shelf shelfWays := by
    simp [Reaches, shelfWays, shelf, walk?, child?, Assoc.get?]
  obtain ⟨whole, leaves⟩ := retain_reclude_partition shelf shelfWays shelf_distinct reaches
  obtain ⟨kept, rest⟩ := leaves shelf_full
  refine ⟨reaches, whole, kept.trans ?_, rest.trans ?_⟩
  · decide
  · decide

end TreeQuery.Value
