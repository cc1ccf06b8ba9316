import TreeQuery.Proofs.Pointwise

/-!
# Parts of parts

Taking the same part of a tree twice is taking it once, and a part depends on the set of ways only
through the locations that they name: those that some way is a prefix of (`covered`).

The second time, the part runs over what the first one left: holes in arrays, and no containers that
were emptied. Every child that was picked is picked again as it is (`picked_again`), and nothing is
picked from a hole, or it is a hole again. So neither the holes nor the containers change.
-/

set_option autoImplicit false

namespace TreeQuery.Value

variable {v w : Value} {ways others : List (List Step)}

/-! ## Picking again -/

theorem structured_of_picked {pick : Step → Value → Option Value} (part : picked pick v = some w) :
    w.isStructure = true := by
  cases v with
  | object fields =>
      simp only [picked, populated] at part
      split at part <;> cases part
      rfl
  | array items =>
      simp only [picked, holed] at part
      split at part <;> cases part
      rfl
  | _ => cases part

theorem holed_eq_some {slots : List (Option Value)} (kept : holed slots = some w) :
    w = .array (slots.map (·.getD .empty)) ∧ ∃ (i : Nat) (part : Value), slots[i]? = some (some part) := by
  unfold holed at kept
  split at kept
  · cases kept
  · rename_i some
    cases kept
    obtain ⟨slot, member, filled⟩ : ∃ slot ∈ slots, ¬ slot.isNone = true := by
      simpa only [List.all_eq_true, not_forall, exists_prop] using some
    obtain ⟨part, rfl⟩ := Option.ne_none_iff_exists'.mp (by simpa using filled)
    exact ⟨rfl, (List.getElem?_of_mem member).imp fun i here => ⟨part, here⟩⟩

theorem holed_of_some {slots : List (Option Value)} {i : Nat} {part : Value}
    (here : slots[i]? = some (some part)) :
    holed slots = some (.array (slots.map (·.getD .empty))) := by
  refine if_neg fun none => ?_
  have missing := List.all_eq_true.mp none _ (List.mem_of_getElem? here)
  cases missing

theorem index_mem_children {items : List Value} {i : Nat} (here : items[i]? = some v) :
    (.index i, v) ∈ (Value.array items).children := by
  obtain ⟨inside, rfl⟩ := List.getElem?_eq_some_iff.mp here
  exact List.mem_mapIdx.mpr ⟨i, inside, rfl⟩

section Again

variable {pick : Step → Value → Option Value}

/-- An element of an array with holes where nothing was picked. -/
theorem getElem?_filled (items : List Value) (i : Nat) :
    ((pickItems pick 0 items).map (·.getD .empty))[i]? =
      (items[i]?).map fun c => (pick (.index i) c).getD .empty := by
  rw [List.getElem?_map, child?_pickItems, Option.map_map]
  rfl

theorem pickFields_again {fields : List (String × Value)}
    (again : ∀ entry ∈ (Value.object fields).children, ∀ part, pick entry.1 entry.2 = some part →
      pick entry.1 part = some part) :
    pickFields pick (pickFields pick fields) = pickFields pick fields := by
  refine pickFields_whole fun field member => ?_
  simp only [pickFields, List.mem_filterMap, Option.map_eq_some_iff] at member
  obtain ⟨whole, inside, kept, found, rfl⟩ := member
  exact again (.key whole.1, whole.2) (List.mem_map.mpr ⟨whole, inside, rfl⟩) kept found

/-- An element that was picked is picked again at its index. -/
theorem getElem?_pickItems_again {items : List Value} {i : Nat} {c part : Value}
    (here : items[i]? = some c) (kept : pick (.index i) c = some part)
    (again : pick (.index i) part = some part) :
    (pickItems pick 0 ((pickItems pick 0 items).map (·.getD .empty)))[i]? = some (some part) := by
  rw [child?_pickItems, getElem?_filled, here, Option.map_some, kept, Option.map_some,
    Option.getD_some, again]

theorem pickItems_again {items : List Value}
    (again : ∀ entry ∈ (Value.array items).children, ∀ part, pick entry.1 entry.2 = some part →
      pick entry.1 part = some part)
    (hole : ∀ s, (pick s .empty).getD .empty = .empty) :
    (pickItems pick 0 ((pickItems pick 0 items).map (·.getD .empty))).map (·.getD .empty) =
      (pickItems pick 0 items).map (·.getD .empty) := by
  refine List.ext_getElem? fun i => ?_
  rw [getElem?_filled, getElem?_filled]
  cases here : items[i]? with
  | none => rfl
  | some c =>
      simp only [Option.map_some, Option.some.injEq]
      cases kept : pick (.index i) c with
      | none => exact hole (.index i)
      | some part =>
          rw [Option.getD_some, again _ (index_mem_children here) part kept, Option.getD_some]

/-- If what was picked from a child is picked again as it is, so is the whole part. A hole may be
picked as a hole or not at all. -/
theorem picked_again
    (again : ∀ entry ∈ v.children, ∀ part, pick entry.1 entry.2 = some part →
      pick entry.1 part = some part)
    (hole : ∀ s, (pick s .empty).getD .empty = .empty) (part : picked pick v = some w) :
    picked pick w = some w := by
  cases v with
  | object fields =>
      simp only [picked, populated] at part
      split at part
      · cases part
      · rename_i some
        cases part
        simp only [picked, populated, pickFields_again again, if_neg some]
  | array items =>
      -- Where something was kept it is kept again, so the array does not vanish.
      obtain ⟨rfl, i, kept, there⟩ := holed_eq_some part
      rw [child?_pickItems, Option.map_eq_some_iff] at there
      obtain ⟨c, here, found⟩ := there
      have stays := getElem?_pickItems_again here found (again _ (index_mem_children here) kept found)
      rw [picked, holed_of_some stays, pickItems_again again hole]
  | _ => cases part

end Again

/-! ## A part once more -/

theorem retainAt_again (kept : retainAt v ways = some w) : retainAt w ways = some w := by
  induction v using childrenInduction generalizing ways w with
  | here v ih =>
      by_cases whole : [] ∈ ways
      · exact retainAt_whole whole w
      · rw [retainAt_eq_picked whole] at kept ⊢
        exact picked_again (fun entry member part found => ih entry member found)
          (fun s => keptPart_empty (under s ways)) kept

theorem recludeAt_again (rest : recludeAt v ways = some w) : recludeAt w ways = some w := by
  induction v using childrenInduction generalizing ways w with
  | here v ih =>
      by_cases whole : [] ∈ ways
      · rw [recludeAt_whole whole] at rest
        cases rest
      · by_cases untouched : ways = []
        · rw [untouched, recludeAt_nil]
        · cases structured : v.isStructure with
          | false =>
              have same := rest
              rw [recludeAt_leaf whole structured, Option.some.injEq] at same
              exact same ▸ rest
          | true =>
              rw [recludeAt_eq_picked whole untouched structured] at rest
              rw [recludeAt_eq_picked whole untouched (structured_of_picked rest)]
              exact picked_again (fun entry member part found => ih entry member found)
                (fun s => restPart_empty (under s ways)) rest

/-- What is left of a root of which nothing was picked has no parts but itself. -/
theorem retain_emptyLike (v : Value) (ways : List (List Step)) :
    retain (emptyLike v) ways = emptyLike v := by
  cases v <;> simp only [emptyLike, retain_eq, retainAt] <;> split <;> rfl

theorem reclude_emptyLike (v : Value) (ways : List (List Step)) :
    reclude (emptyLike v) ways = emptyLike v := by
  cases v <;> simp only [emptyLike, reclude_eq, recludeAt] <;> repeat' split
  all_goals rfl

theorem retain_retain (v : Value) (ways : List (List Step)) :
    retain (retain v ways) ways = retain v ways := by
  cases kept : retainAt v ways with
  | none =>
      have root : retain v ways = emptyLike v := by rw [retain_eq, kept]; rfl
      rw [root, retain_emptyLike]
  | some w =>
      have root : retain v ways = w := by rw [retain_eq, kept]; rfl
      rw [root, retain_eq, retainAt_again kept]
      rfl

theorem reclude_reclude (v : Value) (ways : List (List Step)) :
    reclude (reclude v ways) ways = reclude v ways := by
  cases rest : recludeAt v ways with
  | none =>
      have root : reclude v ways = emptyLike v := by rw [reclude_eq, rest]; rfl
      rw [root, reclude_emptyLike]
  | some w =>
      have root : reclude v ways = w := by rw [reclude_eq, rest]; rfl
      rw [root, reclude_eq, recludeAt_again rest]
      rfl

/-! ## The locations that are named -/

/-- Both sets of ways name the same locations. -/
def NameSame (ways others : List (List Step)) : Prop :=
  ∀ steps, covered ways steps = covered others steps

theorem covered_iff {steps : List Step} :
    covered ways steps = true ↔ ∃ way ∈ ways, way <+: steps := by
  simp [covered, List.any_eq_true, List.isPrefixOf_iff_prefix]

namespace NameSame

theorem symm (same : NameSame ways others) : NameSame others ways :=
  fun steps => (same steps).symm

/-- It is enough that each way goes on from one of the other set. -/
theorem of_prefixes (here : ∀ way ∈ ways, ∃ before ∈ others, before <+: way)
    (there : ∀ way ∈ others, ∃ before ∈ ways, before <+: way) : NameSame ways others := by
  intro steps
  rw [Bool.eq_iff_iff, covered_iff, covered_iff]
  constructor
  · rintro ⟨way, member, before⟩
    obtain ⟨above, inside, further⟩ := here way member
    exact ⟨above, inside, further.trans before⟩
  · rintro ⟨way, member, before⟩
    obtain ⟨above, inside, further⟩ := there way member
    exact ⟨above, inside, further.trans before⟩

theorem of_mem_iff (same : ∀ way, way ∈ ways ↔ way ∈ others) : NameSame ways others :=
  of_prefixes (fun way member => ⟨way, (same way).mp member, List.prefix_rfl⟩)
    fun way member => ⟨way, (same way).mpr member, List.prefix_rfl⟩

theorem of_perm (order : ways.Perm others) : NameSame ways others :=
  of_mem_iff fun _ => order.mem_iff

/-- A way that goes on from another one names nothing new. -/
theorem of_extension {way : List Step} (member : way ∈ ways) (more : List Step) :
    NameSame ((way ++ more) :: ways) ways := by
  refine of_prefixes (fun longer among => ?_) fun other among =>
    ⟨other, List.mem_cons_of_mem _ among, List.prefix_rfl⟩
  rcases List.mem_cons.mp among with rfl | inside
  · exact ⟨way, member, List.prefix_append way more⟩
  · exact ⟨longer, inside, List.prefix_rfl⟩

theorem nil_mem (same : NameSame ways others) : [] ∈ ways → [] ∈ others := by
  intro whole
  obtain ⟨way, member, before⟩ := covered_iff.mp ((same []).symm.trans (covered_whole whole []))
  exact List.prefix_nil.mp before ▸ member

theorem eq_nil (same : NameSame ways others) (none : ways = []) : others = [] := by
  subst none
  refine List.eq_nil_iff_forall_not_mem.mpr fun way member => ?_
  have named : covered others way = true := covered_iff.mpr ⟨way, member, List.prefix_rfl⟩
  cases (same way).trans named

theorem under (same : NameSame ways others) (inside : [] ∉ ways) (s : Step) :
    NameSame (Value.under s ways) (Value.under s others) := by
  have insideToo : [] ∉ others := fun whole => inside (same.symm.nil_mem whole)
  intro steps
  rw [← covered_cons inside, ← covered_cons insideToo]
  exact same (s :: steps)

end NameSame

theorem retainAt_congr (same : NameSame ways others) (v : Value) :
    retainAt v ways = retainAt v others := by
  induction v using childrenInduction generalizing ways others with
  | here v ih =>
      by_cases whole : [] ∈ ways
      · rw [retainAt_whole whole, retainAt_whole (same.nil_mem whole)]
      · have inside : [] ∉ others := fun there => whole (same.symm.nil_mem there)
        rw [retainAt_eq_picked whole, retainAt_eq_picked inside]
        exact picked_congr_children fun entry member => ih entry member (same.under whole entry.1)

theorem recludeAt_congr (same : NameSame ways others) (v : Value) :
    recludeAt v ways = recludeAt v others := by
  induction v using childrenInduction generalizing ways others with
  | here v ih =>
      by_cases whole : [] ∈ ways
      · rw [recludeAt_whole whole, recludeAt_whole (same.nil_mem whole)]
      · have inside : [] ∉ others := fun there => whole (same.symm.nil_mem there)
        by_cases untouched : ways = []
        · rw [untouched, same.eq_nil untouched]
        · have touched : others ≠ [] := fun none => untouched (same.symm.eq_nil none)
          cases structured : v.isStructure with
          | false => rw [recludeAt_leaf whole structured, recludeAt_leaf inside structured]
          | true =>
              rw [recludeAt_eq_picked whole untouched structured,
                recludeAt_eq_picked inside touched structured]
              exact picked_congr_children fun entry member =>
                ih entry member (same.under whole entry.1)

theorem parts_congr (same : NameSame ways others) (v : Value) :
    retain v ways = retain v others ∧ reclude v ways = reclude v others := by
  rw [retain_eq, retain_eq, reclude_eq, reclude_eq, retainAt_congr same, recludeAt_congr same]
  exact ⟨rfl, rfl⟩

/-- **Parts of a tree are projections.** Taking the same part again changes nothing. The parts are
the same, order of members and holes included, for every set of ways that names the same locations:
for the ways in another order, and with a way added, anywhere among them, that is in the set already
or goes on from one of the set. The ways need not lead anywhere. -/
theorem retain_reclude_projections (v : Value) (ways : List (List Step)) :
    retain (retain v ways) ways = retain v ways ∧
      reclude (reclude v ways) ways = reclude v ways ∧
      (∀ others, NameSame others ways →
        retain v others = retain v ways ∧ reclude v others = reclude v ways) ∧
      (∀ others, others.Perm ways →
        retain v others = retain v ways ∧ reclude v others = reclude v ways) ∧
      ∀ way ∈ ways, ∀ more others, others.Perm ((way ++ more) :: ways) →
        retain v others = retain v ways ∧ reclude v others = reclude v ways := by
  refine ⟨retain_retain v ways, reclude_reclude v ways, fun others same => parts_congr same v,
    fun others order => parts_congr (.of_perm order) v, fun way member more others order => ?_⟩
  obtain ⟨kept, rest⟩ := parts_congr (.of_perm order) v
  obtain ⟨keptToo, restToo⟩ := parts_congr (.of_extension member more) v
  exact ⟨kept.trans keptToo, rest.trans restToo⟩

/-- A way into an array, which leaves a hole, one that leads nowhere, and one that goes on from the
first. -/
theorem retain_reclude_projections_shelf :
    let way : List Step := [.key "books", .index 1]
    let ways : List (List Step) := [way, [.key "owner"]]
    let longer : List (List Step) := [[.key "owner"], way ++ [.key "tags"], way]
    NameSame ways.reverse ways ∧ ways.reverse.Perm ways ∧
      way ∈ ways ∧ longer.Perm ((way ++ [.key "tags"]) :: ways) ∧
      retain shelf ways = .object
        [("books", .array [.empty, .object [("title", .text "b"), ("tags", .array [])]])] ∧
      retain (retain shelf ways) ways = retain shelf ways ∧
      reclude shelf ways = .object [("books", .array [.text "a", .empty]), ("open", .bool true)] ∧
      reclude (reclude shelf ways) ways = reclude shelf ways ∧
      retain shelf ways.reverse = retain shelf ways ∧
      reclude shelf ways.reverse = reclude shelf ways ∧
      retain shelf longer = retain shelf ways ∧ reclude shelf longer = reclude shelf ways := by
  intro way ways longer
  have order : ways.reverse.Perm ways := ways.reverse_perm
  have member : way ∈ ways := List.mem_cons_self ..
  have extended : longer.Perm ((way ++ [.key "tags"]) :: ways) := by decide
  obtain ⟨kept, rest, named, -, added⟩ := retain_reclude_projections shelf ways
  obtain ⟨keptBack, restBack⟩ := named ways.reverse (.of_perm order)
  obtain ⟨keptLonger, restLonger⟩ := added way member [.key "tags"] longer extended
  exact ⟨.of_perm order, order, member, extended, rfl, kept, rfl, rest, keptBack, restBack,
    keptLonger, restLonger⟩

end TreeQuery.Value
