import TreeQuery.Proofs.Pointwise

/-!
# Ways that lead nowhere

A way that leads nowhere is not followed to its end, so it leaves both parts of a tree as they are
wherever it meets something else than an empty container: there the children that are picked are the
same with it and without it (`picked_congr`, `retainAt_dangling`, `recludeAt_dangling`). An empty
container that it goes into is in the rest only if the way was not in the set, because the container
counts as emptied (`resolve_restPart_hollow`). In all other cases the rest stays the same.
-/

set_option autoImplicit false

namespace TreeQuery.Value

variable {v : Value} {ways : List (List Step)}

/-! ## The children that are picked -/

theorem under_concat (s t : Step) (ways : List (List Step)) (rest : List Step) :
    under s (ways ++ [t :: rest]) = if t = s then under s ways ++ [rest] else under s ways := by
  simp only [under, List.filterMap_append, List.filterMap_cons, List.filterMap_nil]
  split <;> simp_all

theorem nil_not_mem_concat {s : Step} {rest : List Step} (inside : [] ∉ ways) :
    [] ∉ ways ++ [s :: rest] := by
  simp [inside]

/-- In a tree with distinct keys, the children are those that steps lead to. -/
theorem picked_congr {pick other : Step → Value → Option Value} (distinct : Distinct v)
    (same : ∀ s w, v.child? s = some w → pick s w = other s w) :
    picked pick v = picked other v :=
  picked_congr_children fun _ member => same _ _ ((mem_children distinct).mp member)

/-- A container without content. -/
def Hollow (v : Value) : Prop :=
  v = .array [] ∨ v = .object []

theorem Hollow.structured (hollow : Hollow v) : v.isStructure = true := by
  rcases hollow with rfl | rfl <;> rfl

theorem Hollow.picked (hollow : Hollow v) (pick : Step → Value → Option Value) :
    picked pick v = none := by
  rcases hollow with rfl | rfl <;> rfl

theorem picked_whole {pick : Step → Value → Option Value} (distinct : Distinct v)
    (structured : v.isStructure = true) (inhabited : ¬ Hollow v)
    (whole : ∀ s w, v.child? s = some w → pick s w = some w) : picked pick v = some v := by
  cases v with
  | object fields =>
      have all : pickFields pick fields = fields := pickFields_whole fun field member =>
        whole _ _ (child?_of_mem_fields distinct.keys member)
      have some : fields ≠ [] := fun none => inhabited (.inr (congrArg _ none))
      simp [picked, populated, all, some]
  | array items =>
      have each : ∀ entry ∈ items.zipIdx, pick (.index entry.2) entry.1 = some entry.1 :=
        fun entry member => whole _ _ (child?_of_mem_zipIdx member)
      obtain ⟨w, rest, rfl⟩ := List.exists_cons_of_ne_nil
        (show items ≠ [] from fun none => inhabited (.inl (congrArg _ none)))
      have first : (w, 0) ∈ (w :: rest).zipIdx := by simp [List.zipIdx_cons]
      have kept : ¬ (pickItems pick 0 (w :: rest)).all Option.isNone = true := fun nothing => by
        simpa [pickItems_all_none.mp nothing _ first] using each _ first
      rw [picked, holed, if_neg kept, pickItems_whole each]
  | _ => cases structured

/-! ## One more way -/

/-- The way goes on into an empty container that no way of the set touches. -/
def Strays (v : Value) (ways : List (List Step)) (way : List Step) : Prop :=
  ∃ above w, above <+: way ∧ v.walk? above = some w ∧ Hollow w ∧ Apart ways above

theorem walk?_child {w : Value} {s : Step} {rest : List Step} (child : v.child? s = some w) :
    v.walk? (s :: rest) = w.walk? rest := by
  simp [walk?, child]

theorem Strays.child {w : Value} {s : Step} {rest : List Step} (inside : [] ∉ ways)
    (child : v.child? s = some w) (strays : Strays w (under s ways) rest) :
    Strays v ways (s :: rest) := by
  obtain ⟨above, u, before, walked, hollow, apart⟩ := strays
  exact ⟨s :: above, u, List.cons_prefix_cons.mpr ⟨rfl, before⟩,
    (walk?_child child).trans walked, hollow, apart_cons.mpr ⟨inside, apart⟩⟩

/-- One more way makes no difference to what is picked if it makes none under its first step. -/
theorem picked_concat {part : Value → List (List Step) → Option Value} {t : Step}
    {rest : List Step} (distinct : Distinct v)
    (alike : ∀ w, v.child? t = some w → part w (under t ways ++ [rest]) = part w (under t ways)) :
    picked (fun s w => part w (under s (ways ++ [t :: rest]))) v =
      picked (fun s w => part w (under s ways)) v := by
  refine picked_congr distinct fun s w child => ?_
  by_cases here : t = s
  · subst here
    rw [under_concat, if_pos rfl]
    exact alike w child
  · rw [under_concat, if_neg here]

theorem retainAt_dangling {way : List Step} (distinct : Distinct v)
    (missing : v.walk? way = none) : retainAt v (ways ++ [way]) = retainAt v ways := by
  induction way generalizing v ways with
  | nil => cases missing
  | cons t rest ih =>
      by_cases whole : [] ∈ ways
      · rw [retainAt_whole whole, retainAt_whole (List.mem_append_left _ whole)]
      · rw [retainAt_eq_picked whole, retainAt_eq_picked (nil_not_mem_concat whole)]
        exact picked_concat distinct fun w child =>
          ih (distinct.child child) ((walk?_child child).symm.trans missing)

theorem recludeAt_dangling {way : List Step} (distinct : Distinct v)
    (missing : v.walk? way = none) (harmless : ¬ Strays v ways way) :
    recludeAt v (ways ++ [way]) = recludeAt v ways := by
  induction way generalizing v ways with
  | nil => cases missing
  | cons t rest ih =>
      by_cases whole : [] ∈ ways
      · rw [recludeAt_whole whole, recludeAt_whole (List.mem_append_left _ whole)]
      · have inside : [] ∉ ways ++ [t :: rest] := nil_not_mem_concat whole
        cases structured : v.isStructure with
        | false => rw [recludeAt_leaf whole structured, recludeAt_leaf inside structured]
        | true =>
            have below : picked (fun s w => recludeAt w (under s (ways ++ [t :: rest]))) v =
                picked (fun s w => recludeAt w (under s ways)) v :=
              picked_concat distinct fun w child =>
                ih (distinct.child child) ((walk?_child child).symm.trans missing)
                  fun strays => harmless (strays.child whole child)
            rw [recludeAt_eq_picked inside (by simp) structured, below]
            by_cases untouched : ways = []
            · subst untouched
              have inhabited : ¬ Hollow v := fun hollow =>
                harmless ⟨[], v, List.nil_prefix .., rfl, hollow, apart_nil.mpr rfl⟩
              rw [recludeAt_nil]
              exact picked_whole distinct structured inhabited fun s w _ => recludeAt_nil w
            · exact (recludeAt_eq_picked whole untouched structured).symm

/-- An empty container that a way goes on into is not in the rest. -/
theorem resolve_restPart_hollow {above way : List Step} {w : Value} (distinct : Distinct v)
    (before : above <+: way) (further : above ≠ way) (walked : v.walk? above = some w)
    (hollow : Hollow w) (apart : Apart ways above) :
    (restPart v (ways ++ [way])).resolve above = .empty := by
  induction above generalizing v ways way with
  | nil =>
      obtain rfl := apart_nil.mp apart
      cases walked
      have inside : [] ∉ [] ++ [way] := by simpa using further
      rw [restPart, recludeAt_eq_picked inside (by simp) hollow.structured, hollow.picked]
      rfl
  | cons s above ih =>
      obtain ⟨inside, below⟩ := apart_cons.mp apart
      cases way with
      | nil => simp at before
      | cons t rest =>
          obtain ⟨rfl, shorter⟩ := List.cons_prefix_cons.mp before
          obtain ⟨u, child, walkedOn⟩ := Option.bind_eq_some_iff.mp walked
          have there : v.resolve [s] = u := by rw [resolve_step, child]; rfl
          rw [resolve_restPart distinct (nil_not_mem_concat inside), there, under_concat,
            if_pos rfl]
          exact ih (distinct.child child) shorter (fun same => further (congrArg _ same)) walkedOn
            below

/-- At the root an empty container stays. -/
theorem reclude_hollow (hollow : Hollow v) (ways : List (List Step)) : reclude v ways = v := by
  rw [reclude_eq]
  by_cases whole : [] ∈ ways
  · rw [recludeAt_whole whole]
    rcases hollow with rfl | rfl <;> rfl
  · by_cases untouched : ways = []
    · rw [untouched, recludeAt_nil, Option.getD_some]
    · rw [recludeAt_eq_picked whole untouched hollow.structured, hollow.picked]
      rcases hollow with rfl | rfl <;> rfl

/-- **A way that leads nowhere.** Adding it to the set never changes what is kept. It changes what
is left exactly if, below the root, it goes on into an empty container that no way of the set is a
prefix of or leads into. -/
theorem retain_reclude_dangling (v : Value) (ways : List (List Step)) (way : List Step)
    (distinct : Distinct v) (missing : v.walk? way = none) :
    retain v (ways ++ [way]) = retain v ways ∧
      (reclude v (ways ++ [way]) = reclude v ways ↔ Hollow v ∨ ¬ Strays v ways way) := by
  refine ⟨by rw [retain_eq, retain_eq, retainAt_dangling distinct missing], fun same => ?_, ?_⟩
  · refine or_iff_not_imp_left.mpr fun inhabited strays => ?_
    obtain ⟨above, w, before, walked, hollow, apart⟩ := strays
    have below : above ≠ [] := by
      rintro rfl
      cases walked
      exact inhabited hollow
    have further : above ≠ way := by
      rintro rfl
      cases walked.symm.trans missing
    obtain ⟨s, rest, rfl⟩ := List.exists_cons_of_ne_nil below
    have gone : (restPart v (ways ++ [way])).resolve (s :: rest) = .empty :=
      resolve_restPart_hollow distinct before further walked hollow apart
    have there : (restPart v ways).resolve (s :: rest) = w := by
      rw [(resolve_parts_apart distinct apart).2, resolve, walked]
      rfl
    have alike := congrArg (resolve · (s :: rest)) same
    simp only [reclude_eq, resolve_getD_emptyLike] at alike
    have empty : w = .empty := there.symm.trans (alike.symm.trans gone)
    rcases hollow with rfl | rfl <;> cases empty
  · rintro (hollow | harmless)
    · rw [reclude_hollow hollow, reclude_hollow hollow]
    · rw [reclude_eq, reclude_eq, recludeAt_dangling distinct missing harmless]

/-- A way past the end of an array, and a way into an empty one that a way of the set leads into. -/
theorem retain_reclude_dangling_shelf :
    let ways : List (List Step) := [[.key "books", .index 1, .key "tags", .index 2]]
    let past : List Step := [.key "books", .index 7]
    let into : List Step := [.key "books", .index 1, .key "tags", .index 0]
    shelf.walk? past = none ∧ shelf.walk? into = none ∧
      reclude shelf (ways ++ [past]) = reclude shelf ways ∧
      retain shelf (ways ++ [into]) = retain shelf ways ∧
      reclude shelf (ways ++ [into]) = reclude shelf ways := by
  intro ways past into
  have missing : shelf.walk? past = none := by decide
  have missingToo : shelf.walk? into = none := by decide
  have harmless : ¬ Strays shelf ways past := by
    rintro ⟨above, w, before, walked, hollow, -⟩
    simp only [past, List.prefix_cons_iff, List.prefix_nil] at before
    rcases before with rfl | ⟨_, rfl, rfl | ⟨_, rfl, rfl⟩⟩ <;> cases walked <;>
      simp [Hollow, shelf] at hollow
  have harmlessToo : ¬ Strays shelf ways into := by
    rintro ⟨above, w, before, walked, -, apart⟩
    rcases List.prefix_concat_iff.mp (show above <+: [.key "books", .index 1, .key "tags"] ++
      [.index 0] from before) with rfl | shorter
    · cases walked.symm.trans missingToo
    · exact (apart _ (List.mem_cons_self ..)).2 (shorter.trans (by decide))
  have first := retain_reclude_dangling shelf ways past shelf_distinct missing
  have second := retain_reclude_dangling shelf ways into shelf_distinct missingToo
  exact ⟨missing, missingToo, first.2.mpr (.inr harmless), second.1,
    second.2.mpr (.inr harmlessToo)⟩

/-- A way into an empty container takes it out of the rest, though nothing is there. -/
theorem reclude_into_empty :
    let v : Value := .object [("a", .object []), ("b", .bool true)]
    let way : List Step := [.key "a", .key "x"]
    v.walk? way = none ∧ reclude v ([] ++ [way]) = .object [("b", .bool true)] ∧
      reclude v [] = v ∧ reclude v ([] ++ [way]) ≠ reclude v [] := by
  simp [walk?, child?, Assoc.get?, reclude_eq, recludeAt, recludeFields, under, populated]

end TreeQuery.Value
