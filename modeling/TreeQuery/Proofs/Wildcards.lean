import TreeQuery.Proofs.Matching

/-!
# Equations between wildcards

One level or more is one level and then any number of them, and any number of levels twice is any
number of levels. The first equation holds of the searches themselves: they arrive at the same
values in the same order, whatever the expressions in the pattern do (`throughBelow_eq_throughEach`).
In the second one the search on the left lists more, but nothing new: below each child it lists
again what was listed before. So both have the same first occurrences in the same order
(`FindSame`), which is all that `find` keeps, and every part in front of them passes this on
(`findSame_cons`).
-/

set_option autoImplicit false

namespace TreeQuery.Pattern

/-! ## First occurrences -/

section FirstOccurrences

variable {α β : Type} [BEq α] [LawfulBEq α] [BEq β] [LawfulBEq β]

theorem eraseDups_filter (test : α → Bool) : ∀ list : List α,
    (list.filter test).eraseDups = list.eraseDups.filter test
  | [] => rfl
  | a :: rest => by
      have others := eraseDups_filter test (rest.filter fun b => !b == a)
      rw [List.eraseDups_cons]
      cases kept : test a with
      | true =>
          rw [List.filter_cons_of_pos kept, List.filter_cons_of_pos kept, List.eraseDups_cons,
            List.filter_comm, others]
      | false =>
          -- What the test refuses is no occurrence of anything that is left.
          have untouched : (rest.filter test).filter (fun b => !b == a) = rest.filter test := by
            refine List.filter_eq_self.mpr fun b member => ?_
            have passed := (List.mem_filter.mp member).2
            simp only [Bool.not_eq_true', beq_eq_false_iff_ne]
            rintro rfl
            exact Bool.false_ne_true (kept.symm.trans passed)
          rw [List.filter_cons_of_neg (by simp [kept]), List.filter_cons_of_neg (by simp [kept]),
            ← others, List.filter_comm, untouched]
termination_by list => list.length
decreasing_by
  exact Nat.lt_succ_of_le (List.length_filter_le _ _)

theorem eraseDups_map {f : α → β} (injective : Function.Injective f) : ∀ list : List α,
    (list.map f).eraseDups = list.eraseDups.map f
  | [] => rfl
  | a :: rest => by
      have others := eraseDups_map injective (rest.filter fun b => !b == a)
      have same : ((fun b => !b == f a) ∘ f) = fun b => !b == a := by
        funext b
        refine congrArg not ?_
        rw [Bool.eq_iff_iff, beq_iff_eq, beq_iff_eq, injective.eq_iff]
      rw [List.map_cons, List.eraseDups_cons, List.eraseDups_cons, List.filter_map, same, others,
        List.map_cons]
termination_by list => list.length
decreasing_by
  exact Nat.lt_succ_of_le (List.length_filter_le _ _)

/-- What two lists have first after each other depends on what each of them has first. -/
theorem eraseDups_append_congr {list other more rest : List α}
    (first : list.eraseDups = other.eraseDups) (second : more.eraseDups = rest.eraseDups) :
    (list ++ more).eraseDups = (other ++ rest).eraseDups := by
  have known : (fun a => !List.elem a list) = fun a => !List.elem a other := by
    funext a
    refine congrArg not ?_
    rw [Bool.eq_iff_iff, List.elem_iff, List.elem_iff, ← List.mem_eraseDups, first,
      List.mem_eraseDups]
  rw [List.eraseDups_append, List.eraseDups_append, first, List.removeAll, List.removeAll, known,
    eraseDups_filter, eraseDups_filter, second]

/-- What was there before adds nothing. -/
theorem eraseDups_append_of_subset {list more : List α} (known : more ⊆ list) :
    (list ++ more).eraseDups = list.eraseDups := by
  have nothing : more.removeAll list = [] := by
    refine List.filter_eq_nil_iff.mpr fun a member => ?_
    simp [known member]
  rw [List.eraseDups_append, nothing, List.eraseDups_nil, List.append_nil]

end FirstOccurrences

/-! ## Searches that find the same -/

variable {m : Type → Type} [Monad m]

/-- Both searches come to a list without doing anything else, and these have the same first
occurrences in the same order. -/
def FindSame (x y : m (List (List Step))) : Prop :=
  ∃ list other, x = pure list ∧ y = pure other ∧ list.eraseDups = other.eraseDups

theorem FindSame.nil : FindSame (pure [] : m (List (List Step))) (pure []) :=
  ⟨[], [], rfl, rfl, rfl⟩

variable [LawfulMonad m] {x y : m (List (List Step))} {next goOn : Value → m (List (List Step))}

theorem FindSame.append {more rest : m (List (List Step))} (first : FindSame x y)
    (second : FindSame more rest) :
    FindSame (do return (← x) ++ (← more)) (do return (← y) ++ (← rest)) := by
  obtain ⟨list, other, run, runToo, here⟩ := first
  obtain ⟨below, beyond, runMore, runRest, there⟩ := second
  exact ⟨list ++ below, other ++ beyond, by simp [run, runMore], by simp [runToo, runRest],
    eraseDups_append_congr here there⟩

theorem FindSame.under (same : FindSame x y) (s : Step) :
    FindSame (List.map (s :: ·) <$> x) (List.map (s :: ·) <$> y) := by
  obtain ⟨list, other, run, runToo, alike⟩ := same
  refine ⟨list.map (s :: ·), other.map (s :: ·), by simp [run], by simp [runToo], ?_⟩
  rw [eraseDups_map List.cons_injective, eraseDups_map List.cons_injective, alike]

/-! ## Through the children -/

theorem findSame_throughEach {children : List (Step × Value)}
    (same : ∀ entry ∈ children, FindSame (next entry.2) (goOn entry.2)) :
    FindSame (throughEach next children) (throughEach goOn children) := by
  induction children with
  | nil => exact .nil
  | cons entry rest ih =>
      obtain ⟨s, v⟩ := entry
      have here := (same (s, v) (List.mem_cons_self ..)).under s
      have both := here.append (ih fun entry member => same entry (List.mem_cons_of_mem _ member))
      simp only [map_eq_pure_bind, bind_assoc, pure_bind] at both
      exact both

theorem findSame_throughDepth (same : ∀ v, FindSame (next v) (goOn v)) (v : Value) :
    FindSame (throughDepth next v) (throughDepth goOn v) := by
  induction v using Value.childrenInduction with
  | here v ih =>
      rw [throughDepth_eq, throughDepth_eq]
      exact (same v).append (findSame_throughEach ih)

/-- Going on at any depth below any depth finds nothing that going on at any depth does not find
before. -/
theorem findSame_throughDepth_twice (same : ∀ v, FindSame (next v) (next v)) (v : Value) :
    FindSame (throughDepth (throughDepth next) v) (throughDepth next v) := by
  induction v using Value.childrenInduction with
  | here v ih =>
      obtain ⟨twice, below, runTwice, runBelow, alike⟩ := findSame_throughEach ih
      obtain ⟨here, -, runHere, -, -⟩ := same v
      have once : throughDepth next v = pure (here ++ below) := by
        rw [throughDepth_eq, runHere, runBelow]
        simp
      refine ⟨here ++ below ++ twice, here ++ below, ?_, once, eraseDups_append_of_subset ?_⟩
      · rw [throughDepth_eq, once, runTwice]
        simp
      · intro way member
        rw [← List.mem_eraseDups, alike, List.mem_eraseDups] at member
        exact List.mem_append_right _ member

theorem findSame_throughSelected {selects : Value → Nat → m Bool} {selected : Value → Nat → Bool}
    (gives : ∀ v i, selects v i = pure (selected v i)) (same : ∀ v, FindSame (next v) (goOn v))
    (items : List Value) (start : Nat) :
    FindSame (throughSelected selects next start items)
      (throughSelected selects goOn start items) := by
  induction items generalizing start with
  | nil => exact .nil
  | cons v rest ih =>
      have here : FindSame (if selected v start then next v else pure [])
          (if selected v start then goOn v else pure []) := by
        split
        · exact same v
        · exact .nil
      have both := (here.under (.index start)).append (ih (start + 1))
      cases picked : selected v start <;> simpa [throughSelected, gives, picked] using both

/-! ## Patterns -/

variable {probe : Probe m} {answers : Probe Id}

/-- Every part in front passes on that two searches find the same. -/
theorem findSame_cons (gives : probe.Gives answers) {parts others : List PatternPart}
    (same : ∀ v, FindSame (matchAt probe parts v) (matchAt probe others v)) (part : PatternPart)
    (v : Value) :
    FindSame (matchAt probe (part :: parts) v) (matchAt probe (part :: others) v) := by
  have member : ∀ s, FindSame (through (matchAt probe parts) v s)
      (through (matchAt probe others) v s) := by
    intro s
    unfold through
    cases v.child? s with
    | none => exact .nil
    | some child => simpa only [map_eq_pure_bind] using (same child).under s
  have depth := findSame_throughDepth same
  cases part with
  | key name => exact member (.key name)
  | computed e =>
      rw [matchAt, matchAt, gives.key, pure_bind, pure_bind]
      exact member (.key (answers.key e v))
  | any => exact findSame_throughEach fun entry _ => same entry.2
  | anyBelow =>
      rw [matchAt, matchAt, throughBelow_eq_throughEach, throughBelow_eq_throughEach]
      exact findSame_throughEach fun entry _ => depth entry.2
  | anyDepth => exact depth v
  | filter predicates =>
      cases v with
      | array items => exact findSame_throughSelected (gives.selects predicates) same items 0
      | _ => exact .nil

theorem findSame_append (gives : probe.Gives answers) {parts others : List PatternPart}
    (same : ∀ v, FindSame (matchAt probe parts v) (matchAt probe others v))
    (front : List PatternPart) (v : Value) :
    FindSame (matchAt probe (front ++ parts) v) (matchAt probe (front ++ others) v) := by
  induction front generalizing v with
  | nil => exact same v
  | cons part front ih => exact findSame_cons gives ih part v

/-- Every search finds the same as itself: it does not fail. -/
theorem findSame_refl (gives : probe.Gives answers) (parts : List PatternPart) (v : Value) :
    FindSame (matchAt probe parts v) (matchAt probe parts v) := by
  induction parts generalizing v with
  | nil => exact ⟨[[]], [[]], rfl, rfl, rfl⟩
  | cons part parts ih => exact findSame_cons gives ih part v

omit [LawfulMonad m] in
theorem matchAt_append_congr {parts others : List PatternPart}
    (same : matchAt probe parts = matchAt probe others) (front : List PatternPart) :
    matchAt probe (front ++ parts) = matchAt probe (front ++ others) := by
  induction front with
  | nil => exact same
  | cons part front ih =>
      funext v
      cases part <;> simp only [List.cons_append, matchAt, ih]

theorem matchAt_anyBelow (parts : List PatternPart) :
    matchAt probe (.anyBelow :: parts) = matchAt probe (.any :: .anyDepth :: parts) :=
  funext fun v => throughBelow_eq_throughEach v

theorem FindSame.find {parts others : List PatternPart} {root : Value}
    (same : FindSame (matchAt probe parts root) (matchAt probe others root)) :
    ∃ found, find probe parts root = pure found ∧ find probe others root = pure found := by
  obtain ⟨list, other, run, runToo, alike⟩ := same
  refine ⟨list.eraseDups.map fun steps => .linkedTo steps root, ?_, ?_⟩
  · simp [Pattern.find, run]
  · simp [Pattern.find, runToo, alike]

/-- **Equations between wildcards.** In any pattern, one level or more can be written as one level
and then any number of them: the search is the same, also with effects. Where the expressions have
fixed answers, any number of levels written twice in a row finds the same addresses in the same
order as written once. -/
theorem find_wildcards (front back : List PatternPart) (root : Value) :
    Pattern.find probe (front ++ [.anyBelow] ++ back) root =
        Pattern.find probe (front ++ [.any, .anyDepth] ++ back) root ∧
      ∀ answers : Probe Id, probe.Gives answers →
        (∃ found, Pattern.find probe (front ++ [.anyBelow] ++ back) root = pure found ∧
          Pattern.find probe (front ++ [.any, .anyDepth] ++ back) root = pure found) ∧
        ∃ found, Pattern.find probe (front ++ [.anyDepth, .anyDepth] ++ back) root = pure found ∧
          Pattern.find probe (front ++ [.anyDepth] ++ back) root = pure found := by
  simp only [List.append_assoc, List.cons_append, List.nil_append]
  have below : Pattern.find probe (front ++ .anyBelow :: back) root =
      Pattern.find probe (front ++ .any :: .anyDepth :: back) root := by
    rw [Pattern.find, matchAt_append_congr (matchAt_anyBelow back), Pattern.find]
  refine ⟨below, fun answers gives => ⟨?_, ?_⟩⟩
  · obtain ⟨found, run, -⟩ := (findSame_refl gives (front ++ .anyBelow :: back) root).find
    exact ⟨found, run, below.symm.trans run⟩
  · refine (findSame_append gives (fun v => ?_) front root).find
    exact findSame_throughDepth_twice (findSame_refl gives back) v

/-- Between a wildcard and a filter, in arrays inside each other. -/
theorem find_wildcards_nested :
    let root : Value := .object [("a", .array [.array [.null], .null]), ("b", .null)]
    let answers : Probe Id := ⟨fun _ _ => "a", fun _ _ i => i == 0⟩
    let probe : Probe Option := ⟨fun _ _ => some "a", fun _ _ i => some (i == 0)⟩
    probe.Gives answers ∧
      Pattern.find probe [.anyDepth, .anyBelow, .filter []] root =
        Pattern.find probe [.anyDepth, .any, .anyDepth, .filter []] root ∧
      ∃ found, Pattern.find probe [.anyDepth, .anyDepth, .anyDepth, .filter []] root = some found ∧
        Pattern.find probe [.anyDepth, .anyDepth, .filter []] root = some found ∧
        found.map Address.steps = [[.key "a", .index 0], [.key "a", .index 0, .index 0]] := by
  intro root answers probe
  have gives : probe.Gives answers := ⟨fun _ _ => rfl, fun _ _ _ => rfl⟩
  obtain ⟨below, same⟩ := @find_wildcards _ _ _ probe [.anyDepth] [.filter []] root
  obtain ⟨-, found, twice, once⟩ := same answers gives
  have steps : (Pattern.find probe [.anyDepth, .anyDepth, .filter []] root).map
      (List.map Address.steps) = some [[.key "a", .index 0], [.key "a", .index 0, .index 0]] := rfl
  refine ⟨gives, below, found, twice, once, ?_⟩
  exact Option.some.inj ((congrArg (Option.map (List.map Address.steps)) once).symm.trans steps)

end TreeQuery.Pattern
