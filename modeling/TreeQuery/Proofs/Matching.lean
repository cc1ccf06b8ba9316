import Mathlib.Data.List.Dedup
import TreeQuery.Pattern
import TreeQuery.Proofs.Tree

/-!
# Patterns select exactly the ways they spell out

`Spells` says which ways a pattern spells out from a value on, part by part and without saying how
to look for them. Where the expressions in a pattern have fixed answers, the search comes to a list
without failing, and this list holds exactly the ways that are spelled out, each of them once
(`find_exact`).

The search is followed with `Lists`, which says what a computation lists. A wildcard of several
levels is a search through the children that goes on in the same way below each of them
(`throughDepth_eq`), so it lists the ways that go on anywhere below, by induction on the tree.
-/

set_option autoImplicit false

namespace TreeQuery.Pattern

/-! ## What a pattern spells out -/

/-- The ways that a pattern spells out from a value on, given what its expressions come to. -/
inductive Spells (answers : Probe Id) : List PatternPart → Value → List Step → Prop
  | done (v : Value) : Spells answers [] v []
  | key {name : String} {parts : List PatternPart} {v child : Value} {steps : List Step}
      (member : v.child? (.key name) = some child) (onwards : Spells answers parts child steps) :
      Spells answers (.key name :: parts) v (.key name :: steps)
  | computed {e : Expr} {parts : List PatternPart} {v child : Value} {steps : List Step}
      (member : v.child? (.key (answers.key e v)) = some child)
      (onwards : Spells answers parts child steps) :
      Spells answers (.computed e :: parts) v (.key (answers.key e v) :: steps)
  | any {s : Step} {parts : List PatternPart} {v child : Value} {steps : List Step}
      (step : v.child? s = some child) (onwards : Spells answers parts child steps) :
      Spells answers (.any :: parts) v (s :: steps)
  /-- One step or more, each into any child. -/
  | anyBelow {way : List Step} {parts : List PatternPart} {v below : Value} {steps : List Step}
      (some : way ≠ []) (walked : v.walk? way = .some below)
      (onwards : Spells answers parts below steps) :
      Spells answers (.anyBelow :: parts) v (way ++ steps)
  /-- Any number of steps, each into any child. -/
  | anyDepth {way : List Step} {parts : List PatternPart} {v below : Value} {steps : List Step}
      (walked : v.walk? way = .some below) (onwards : Spells answers parts below steps) :
      Spells answers (.anyDepth :: parts) v (way ++ steps)
  | filter {predicates : List Expr} {parts : List PatternPart} {items : List Value} {i : Nat}
      {element : Value} {steps : List Step} (here : items[i]? = some element)
      (selected : answers.selects predicates element i = true)
      (onwards : Spells answers parts element steps) :
      Spells answers (.filter predicates :: parts) (.array items) (.index i :: steps)

/-- What is spelled out leads somewhere. -/
theorem Spells.walks {answers : Probe Id} {parts : List PatternPart} {v : Value}
    {steps : List Step} (spelled : Spells answers parts v steps) : (v.walk? steps).isSome := by
  induction spelled with
  | done v => rfl
  | key member _ ih => simpa [Value.walk?, member] using ih
  | computed member _ ih => simpa [Value.walk?, member] using ih
  | any step _ ih => simpa [Value.walk?, step] using ih
  | anyBelow _ walked _ ih => simpa [Value.walk?_append, walked] using ih
  | anyDepth walked _ ih => simpa [Value.walk?_append, walked] using ih
  | filter here _ _ ih => simpa [Value.walk?, Value.child?, here] using ih

/-! ## What a computation lists -/

variable {m : Type → Type} [Monad m]

/-- The computation comes to a list with exactly these members, without doing anything else. -/
def Lists {α : Type} (x : m (List α)) (members : α → Prop) : Prop :=
  ∃ list, x = pure list ∧ ∀ a, a ∈ list ↔ members a

theorem Lists.congr {α : Type} {x : m (List α)} {p q : α → Prop} (lists : Lists x p)
    (same : ∀ a, p a ↔ q a) : Lists x q := by
  obtain ⟨list, run, members⟩ := lists
  exact ⟨list, run, fun a => (members a).trans (same a)⟩

theorem Lists.nil {α : Type} {p : α → Prop} (none : ∀ a, ¬ p a) :
    Lists (pure [] : m (List α)) p :=
  ⟨[], rfl, fun a => by simp [none a]⟩

variable [LawfulMonad m] {next : Value → m (List (List Step))}

/-- What is listed by one search and then by another. -/
theorem Lists.append {α : Type} {x y : m (List α)} {p q : α → Prop} (first : Lists x p)
    (second : Lists y q) :
    Lists (do return (← x) ++ (← y)) fun a => p a ∨ q a := by
  obtain ⟨here, run, members⟩ := first
  obtain ⟨there, runToo, membersToo⟩ := second
  exact ⟨here ++ there, by simp [run, runToo], fun a => by simp [members, membersToo]⟩

/-- The ways below a step. -/
def Under (s : Step) (onwards : List Step → Prop) (steps : List Step) : Prop :=
  ∃ rest, onwards rest ∧ steps = s :: rest

theorem Lists.under {x : m (List (List Step))} {p : List Step → Prop} (lists : Lists x p)
    (s : Step) : Lists ((List.map (s :: ·)) <$> x) (Under s p) := by
  obtain ⟨list, run, members⟩ := lists
  refine ⟨list.map (s :: ·), by simp [run], fun steps => ?_⟩
  simp only [List.mem_map, members, Under, eq_comm]

/-- The ways that start with a step into a child. -/
def Through (v : Value) (onwards : Value → List Step → Prop) (steps : List Step) : Prop :=
  ∃ s child, v.child? s = some child ∧ Under s (onwards child) steps

theorem lists_through {onwards : Value → List Step → Prop} {v : Value} (distinct : v.Distinct)
    (goesOn : ∀ v : Value, v.Distinct → Lists (next v) (onwards v)) (s : Step) :
    Lists (through next v s) fun steps =>
      ∃ child, v.child? s = some child ∧ Under s (onwards child) steps := by
  unfold through
  cases found : v.child? s with
  | none => exact .nil (by simp)
  | some child =>
      have below := (goesOn child (distinct.child found)).under s
      simp only [map_eq_pure_bind] at below
      exact below.congr (by simp)

theorem lists_throughEach {onwards : Value → List Step → Prop} {children : List (Step × Value)}
    (goesOn : ∀ entry ∈ children, Lists (next entry.2) (onwards entry.2)) :
    Lists (throughEach next children) fun steps =>
      ∃ entry ∈ children, Under entry.1 (onwards entry.2) steps := by
  induction children with
  | nil => exact .nil (by simp)
  | cons entry rest ih =>
      obtain ⟨s, v⟩ := entry
      have here := (goesOn (s, v) (List.mem_cons_self ..)).under s
      have others := ih fun entry member => goesOn entry (List.mem_cons_of_mem _ member)
      have both := here.append others
      simp only [map_eq_pure_bind, bind_assoc, pure_bind] at both
      exact both.congr (by simp)

theorem lists_throughChildren {onwards : Value → List Step → Prop} {v : Value}
    (distinct : v.Distinct)
    (goesOn : ∀ s child, v.child? s = some child → Lists (next child) (onwards child)) :
    Lists (throughEach next v.children) (Through v onwards) := by
  have each : ∀ entry ∈ v.children, Lists (next entry.2) (onwards entry.2) := fun entry member =>
    goesOn entry.1 entry.2 ((Value.mem_children distinct).mp member)
  refine (lists_throughEach each).congr fun steps => ?_
  simp only [Through, Prod.exists, Value.mem_children distinct]

/-! ## Wildcards of several levels -/

/-- The ways that go on at the value or anywhere below it. -/
def Reaching (onwards : Value → List Step → Prop) (v : Value) (steps : List Step) : Prop :=
  ∃ way below rest, v.walk? way = some below ∧ onwards below rest ∧ steps = way ++ rest

theorem reaching_iff (onwards : Value → List Step → Prop) (v : Value) (steps : List Step) :
    Reaching onwards v steps ↔ onwards v steps ∨ Through v (Reaching onwards) steps := by
  constructor
  · rintro ⟨way, below, rest, walked, goes, rfl⟩
    cases way with
    | nil =>
        cases walked
        exact .inl goes
    | cons s way =>
        obtain ⟨child, step, further⟩ := Option.bind_eq_some_iff.mp walked
        exact .inr ⟨s, child, step, way ++ rest, ⟨way, below, rest, further, goes, rfl⟩, rfl⟩
  · rintro (here | ⟨s, child, step, _, ⟨way, below, rest, walked, goes, rfl⟩, rfl⟩)
    · exact ⟨[], v, steps, rfl, here, rfl⟩
    · exact ⟨s :: way, below, rest, by simp [Value.walk?, step, walked], goes, rfl⟩

theorem lists_throughDepth {onwards : Value → List Step → Prop}
    (goesOn : ∀ v : Value, v.Distinct → Lists (next v) (onwards v)) (v : Value)
    (distinct : v.Distinct) : Lists (throughDepth next v) (Reaching onwards v) := by
  induction v using Value.childInduction with
  | here v ih =>
      rw [throughDepth_eq]
      have children : Lists (throughEach (throughDepth next) v.children)
          (Through v (Reaching onwards)) :=
        lists_throughChildren distinct fun s child step => ih s child step (distinct.child step)
      exact ((goesOn v distinct).append children).congr fun steps =>
        (reaching_iff onwards v steps).symm

theorem lists_throughBelow {onwards : Value → List Step → Prop}
    (goesOn : ∀ v : Value, v.Distinct → Lists (next v) (onwards v)) (v : Value)
    (distinct : v.Distinct) :
    Lists (throughBelow next v) (Through v (Reaching onwards)) := by
  rw [throughBelow_eq_throughEach]
  exact lists_throughChildren distinct fun s child step =>
    lists_throughDepth goesOn child (distinct.child step)

/-! ## Patterns -/

/-- The probe has these answers, and gives them without effects and without failing. -/
structure Probe.Gives (probe : Probe m) (answers : Probe Id) : Prop where
  key : ∀ e v, probe.key e v = pure (answers.key e v)
  selects : ∀ es v i, probe.selects es v i = pure (answers.selects es v i)

theorem lists_throughSelected {onwards : Value → List Step → Prop} {selects : Value → Nat → m Bool}
    {selected : Value → Nat → Bool} (gives : ∀ v i, selects v i = pure (selected v i))
    {items : List Value} (goesOn : ∀ v ∈ items, Lists (next v) (onwards v)) (start : Nat) :
    Lists (throughSelected selects next start items) fun steps =>
      ∃ i element, items[i]? = some element ∧ selected element (start + i) = true ∧
        Under (.index (start + i)) (onwards element) steps := by
  induction items generalizing start with
  | nil => exact .nil (by simp)
  | cons v rest ih =>
      have others := ih (fun v member => goesOn v (List.mem_cons_of_mem _ member)) (start + 1)
      have here : Lists (if selected v start then next v else pure []) fun steps =>
          selected v start = true ∧ onwards v steps := by
        cases selected v start with
        | true => simpa using goesOn v (List.mem_cons_self ..)
        | false => exact .nil (by simp)
      have both := (here.under (.index start)).append others
      have run : throughSelected selects next start (v :: rest) = (do
          let found ← List.map (.index start :: ·) <$> if selected v start then next v else pure []
          return found ++ (← throughSelected selects next (start + 1) rest)) := by
        cases picked : selected v start <;> simp [throughSelected, gives, picked]
      rw [run]
      refine both.congr fun steps => ⟨?_, ?_⟩
      · rintro (⟨way, ⟨picked, goes⟩, rfl⟩ | ⟨i, element, found, picked, below⟩)
        · exact ⟨0, v, rfl, picked, way, goes, rfl⟩
        · rw [Nat.add_right_comm] at picked below
          exact ⟨i + 1, element, found, picked, below⟩
      · rintro ⟨i, element, found, picked, below⟩
        cases i with
        | zero =>
            cases found
            obtain ⟨way, goes, rfl⟩ := below
            exact .inl ⟨way, ⟨picked, goes⟩, rfl⟩
        | succ i =>
            rw [← Nat.add_assoc, Nat.add_right_comm] at picked below
            exact .inr ⟨i, element, found, picked, below⟩

namespace Spells

variable {answers : Probe Id} {parts : List PatternPart} {v : Value} {steps : List Step}

theorem nil_iff : Spells answers [] v steps ↔ steps = [] := by
  constructor
  · intro spelled
    cases spelled
    rfl
  · rintro rfl
    exact .done v

theorem key_iff {name : String} : Spells answers (.key name :: parts) v steps ↔
    ∃ child, v.child? (.key name) = some child ∧
      Under (.key name) (Spells answers parts child) steps := by
  constructor
  · intro spelled
    cases spelled with
    | key member onwards => exact ⟨_, member, _, onwards, rfl⟩
  · rintro ⟨child, member, rest, onwards, rfl⟩
    exact .key member onwards

theorem computed_iff {e : Expr} : Spells answers (.computed e :: parts) v steps ↔
    ∃ child, v.child? (.key (answers.key e v)) = some child ∧
      Under (.key (answers.key e v)) (Spells answers parts child) steps := by
  constructor
  · intro spelled
    cases spelled with
    | computed member onwards => exact ⟨_, member, _, onwards, rfl⟩
  · rintro ⟨child, member, rest, onwards, rfl⟩
    exact .computed member onwards

theorem any_iff :
    Spells answers (.any :: parts) v steps ↔ Through v (Spells answers parts) steps := by
  constructor
  · intro spelled
    cases spelled with
    | any step onwards => exact ⟨_, _, step, _, onwards, rfl⟩
  · rintro ⟨s, child, step, rest, onwards, rfl⟩
    exact .any step onwards

theorem anyBelow_iff : Spells answers (.anyBelow :: parts) v steps ↔
    Through v (Reaching (Spells answers parts)) steps := by
  constructor
  · intro spelled
    cases spelled with
    | @anyBelow way _ _ below steps some walked onwards =>
        cases way with
        | nil => exact absurd rfl some
        | cons s way =>
            obtain ⟨child, step, further⟩ := Option.bind_eq_some_iff.mp walked
            exact ⟨s, child, step, way ++ steps, ⟨way, below, steps, further, onwards, rfl⟩, rfl⟩
  · rintro ⟨s, child, step, _, ⟨way, below, rest, walked, onwards, rfl⟩, rfl⟩
    exact .anyBelow (List.cons_ne_nil s way) (by simp [Value.walk?, step, walked]) onwards

theorem anyDepth_iff :
    Spells answers (.anyDepth :: parts) v steps ↔ Reaching (Spells answers parts) v steps := by
  constructor
  · intro spelled
    cases spelled with
    | anyDepth walked onwards => exact ⟨_, _, _, walked, onwards, rfl⟩
  · rintro ⟨way, below, rest, walked, onwards, rfl⟩
    exact .anyDepth walked onwards

theorem filter_iff {predicates : List Expr} {items : List Value} :
    Spells answers (.filter predicates :: parts) (.array items) steps ↔
      ∃ i element, items[i]? = some element ∧ answers.selects predicates element i = true ∧
        Under (.index i) (Spells answers parts element) steps := by
  constructor
  · intro spelled
    cases spelled with
    | filter found picked onwards => exact ⟨_, _, found, picked, _, onwards, rfl⟩
  · rintro ⟨i, element, found, picked, rest, onwards, rfl⟩
    exact .filter found picked onwards

end Spells

/-- **The search lists exactly what the pattern spells out.** -/
theorem lists_matchAt {probe : Probe m} {answers : Probe Id} (gives : probe.Gives answers)
    (parts : List PatternPart) (v : Value) (distinct : v.Distinct) :
    Lists (matchAt probe parts v) (Spells answers parts v) := by
  induction parts generalizing v with
  | nil => exact ⟨[[]], rfl, fun steps => List.mem_singleton.trans Spells.nil_iff.symm⟩
  | cons part parts ih =>
      cases part with
      | key name => exact (lists_through distinct ih (.key name)).congr fun _ => Spells.key_iff.symm
      | computed e =>
          rw [matchAt, gives.key, pure_bind]
          exact (lists_through distinct ih _).congr fun _ => Spells.computed_iff.symm
      | any =>
          have children := lists_throughChildren distinct fun s child step =>
            ih child (distinct.child step)
          exact children.congr fun _ => Spells.any_iff.symm
      | anyBelow => exact (lists_throughBelow ih v distinct).congr fun _ => Spells.anyBelow_iff.symm
      | anyDepth => exact (lists_throughDepth ih v distinct).congr fun _ => Spells.anyDepth_iff.symm
      | filter predicates =>
          cases v with
          | array items =>
              have inside : ∀ v ∈ items, v.Distinct := by
                intro v member
                obtain ⟨i, found⟩ := List.getElem?_of_mem member
                exact distinct.child (s := .index i) found
              have selected := lists_throughSelected (gives.selects predicates)
                (fun v member => ih v (inside v member)) 0
              simp only [Nat.zero_add] at selected
              exact selected.congr fun _ => Spells.filter_iff.symm
          | _ => exact .nil fun steps spelled => by cases spelled

theorem nodup_eraseDups {α : Type} [BEq α] [LawfulBEq α] (list : List α) :
    list.eraseDups.Nodup := by
  induction size : list.length using Nat.strongRecOn generalizing list with
  | ind n ih =>
      cases list with
      | nil => exact List.nodup_nil
      | cons a rest =>
          have fewer : (rest.filter fun b => !b == a).length < n := by
            have := List.length_filter_le (fun b => !b == a) rest
            simp only [List.length_cons] at size
            omega
          rw [List.eraseDups_cons, List.nodup_cons]
          exact ⟨by simp [List.mem_eraseDups], ih _ fewer _ rfl⟩

/-- **Patterns select exactly the ways they spell out.** Where the expressions of a pattern have
fixed answers, the search for its addresses does not fail. It finds every way that the pattern
spells out and no other, each once, linked to the tree if that is an object or an array, and each of
them leads to a location of the tree. -/
theorem find_exact {probe : Probe m} {answers : Probe Id} (gives : probe.Gives answers)
    (parts : List PatternPart) (root : Value) (distinct : root.Distinct) :
    ∃ found, find probe parts root = pure found ∧ (found.map Address.steps).Nodup ∧
      (∀ steps, steps ∈ found.map Address.steps ↔ Spells answers parts root steps) ∧
      ∀ a ∈ found, a.link = (if root.isStructure then .root root else .unlinked) ∧
        (root.walk? a.steps).isSome := by
  obtain ⟨ways, run, members⟩ := lists_matchAt gives parts root distinct
  have steps : (ways.eraseDups.map fun steps => Address.linkedTo steps root).map Address.steps =
      ways.eraseDups := by
    simp [List.map_map, Function.comp_def, Address.linkedTo]
  refine ⟨ways.eraseDups.map fun steps => .linkedTo steps root, by simp [find, run], ?_, ?_, ?_⟩
  · rw [steps]
    exact nodup_eraseDups ways
  · intro way
    rw [steps, List.mem_eraseDups, members]
  · intro a found
    obtain ⟨way, member, rfl⟩ := List.mem_map.mp found
    rw [List.mem_eraseDups, members] at member
    exact ⟨rfl, member.walks⟩

/-- Two wildcards that overlap and a computed key, below an element that is selected. -/
theorem find_exact_overlapping :
    let root : Value := .object [("x", .array [.null, .object [("x", .null), ("y", .null)]])]
    let answers : Probe Id := ⟨fun _ _ => "y", fun _ _ i => i == 1⟩
    let probe : Probe Option := ⟨fun _ _ => some "y", fun _ _ i => some (i == 1)⟩
    root.Distinct ∧ probe.Gives answers ∧
      ∃ found, find probe [.anyDepth, .anyDepth, .filter [], .computed .null] root = some found ∧
        (found.map Address.steps).Nodup ∧
        [.key "x", .index 1, .key "y"] ∈ found.map Address.steps := by
  intro root answers probe
  have distinct : root.Distinct := by
    refine .object (by decide) (List.forall_mem_singleton.mpr (.array ?_))
    refine List.forall_mem_cons.mpr ⟨.leaf rfl, List.forall_mem_singleton.mpr ?_⟩
    refine .object (by decide) (List.forall_mem_cons.mpr ⟨.leaf rfl, ?_⟩)
    exact List.forall_mem_singleton.mpr (.leaf rfl)
  have gives : probe.Gives answers := ⟨fun _ _ => rfl, fun _ _ _ => rfl⟩
  obtain ⟨found, run, once, exact, -⟩ :=
    find_exact gives [.anyDepth, .anyDepth, .filter [], .computed .null] root distinct
  refine ⟨distinct, gives, found, run, once, (exact _).mpr ?_⟩
  have selected : Spells answers [.filter [], .computed .null]
      (.array [.null, .object [("x", .null), ("y", .null)]]) [.index 1, .key "y"] :=
    .filter rfl rfl (.computed rfl (.done .null))
  have below : Spells answers [.anyDepth, .filter [], .computed .null] root
      ([.key "x"] ++ [.index 1, .key "y"]) := .anyDepth rfl selected
  have here : root.walk? [] = some root := rfl
  exact .anyDepth here below

end TreeQuery.Pattern
