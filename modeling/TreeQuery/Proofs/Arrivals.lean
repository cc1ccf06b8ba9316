import Mathlib
import TreeQuery.Evaluate
import TreeQuery.Proofs.Matching

/-!
# Where a search can fail

The expressions in a pattern are evaluated at the values where the search arrives with their part
(`Arrives`), and it is there alone that a search can fail. A filter asks about the elements of an
array, and about nothing at any other value. A computed key is asked for at every value, also at one
that has no members: where a written key leads nowhere, a computed one can make the whole search
fail. So a search succeeds if its expressions do at the objects and at the elements of arrays, and its
computed keys wherever else it arrives (`find_succeeds`); without effects, these last ones are what
it comes down to (`find_succeeds_iff`).
-/

set_option autoImplicit false

namespace TreeQuery.Pattern

/-! ## Outcomes -/

/-- What it is for a computation to succeed, and which results it can have then. -/
structure Outcomes (m : Type → Type) [Monad m] where
  succeeds : ∀ {α : Type}, m α → Prop
  gives : ∀ {α : Type}, m α → α → Prop
  succeeds_pure : ∀ {α : Type} (a : α), succeeds (pure a)
  succeeds_bind : ∀ {α β : Type} {x : m α} {f : α → m β}, succeeds x →
    (∀ a, gives x a → succeeds (f a)) → succeeds (x >>= f)

/-- The result is fixed, so what succeeds has gone on from it. -/
structure Outcomes.Exact {m : Type → Type} [Monad m] (o : Outcomes m) : Prop where
  result : ∀ {α : Type} {x : m α}, o.succeeds x → ∃ a, o.gives x a
  first : ∀ {α β : Type} {x : m α} {f : α → m β}, o.succeeds (x >>= f) → o.succeeds x
  second : ∀ {α β : Type} {x : m α} {f : α → m β}, o.succeeds (x >>= f) →
    ∀ a, o.gives x a → o.succeeds (f a)

/-- With effects on a state: a computation is to succeed in every state. -/
def Outcomes.stateful (ε σ : Type) : Outcomes (ExceptT ε (StateM σ)) where
  succeeds x := ∀ s, ∃ a s', x s = (.ok a, s')
  gives x a := ∃ s s', x s = (.ok a, s')
  succeeds_pure a s := ⟨a, s, rfl⟩
  succeeds_bind {α β x f} first second s := by
    obtain ⟨a, s', run⟩ := first s
    obtain ⟨b, s'', runToo⟩ := second a ⟨s, s', run⟩ s'
    have after : (x >>= f) s = f a s' := by
      change ExceptT.bindCont f (x s).1 (x s).2 = f a s'
      rw [run]
      rfl
    exact ⟨b, s'', after.trans runToo⟩

/-- Without effects. -/
def Outcomes.plain (ε : Type) : Outcomes (Except ε) where
  succeeds x := ∃ a, x = .ok a
  gives x a := x = .ok a
  succeeds_pure a := ⟨a, rfl⟩
  succeeds_bind first second := by
    obtain ⟨a, rfl⟩ := first
    exact second a rfl

theorem Outcomes.plain_exact (ε : Type) : (Outcomes.plain ε).Exact where
  result := id
  first {α β x f} run := by
    cases x with
    | ok a => exact ⟨a, rfl⟩
    | error e =>
        obtain ⟨b, impossible⟩ := run
        cases impossible
  second run a given := by
    cases given
    exact run

/-! ## Arrivals -/

variable {m : Type → Type} [Monad m]

/-- The search for some parts at a value can come to other parts at another value. -/
inductive Arrives (o : Outcomes m) (probe : Probe m) :
    List PatternPart → Value → List PatternPart → Value → Prop
  | here (parts : List PatternPart) (v : Value) : Arrives o probe parts v parts v
  | key {name : String} {parts rest : List PatternPart} {v child w : Value}
      (member : v.child? (.key name) = some child) (onwards : Arrives o probe parts child rest w) :
      Arrives o probe (.key name :: parts) v rest w
  | computed {e : Expr} {name : String} {parts rest : List PatternPart} {v child w : Value}
      (given : o.gives (probe.key e v) name) (member : v.child? (.key name) = some child)
      (onwards : Arrives o probe parts child rest w) :
      Arrives o probe (.computed e :: parts) v rest w
  | any {s : Step} {parts rest : List PatternPart} {v child w : Value}
      (step : v.child? s = some child) (onwards : Arrives o probe parts child rest w) :
      Arrives o probe (.any :: parts) v rest w
  | anyBelow {way : List Step} {parts rest : List PatternPart} {v below w : Value}
      (some : way ≠ []) (walked : v.walk? way = .some below)
      (onwards : Arrives o probe parts below rest w) :
      Arrives o probe (.anyBelow :: parts) v rest w
  | anyDepth {way : List Step} {parts rest : List PatternPart} {v below w : Value}
      (walked : v.walk? way = .some below) (onwards : Arrives o probe parts below rest w) :
      Arrives o probe (.anyDepth :: parts) v rest w
  | filter {predicates : List Expr} {parts rest : List PatternPart} {items : List Value} {i : Nat}
      {element w : Value} (among : items[i]? = some element)
      (given : o.gives (probe.selects predicates element i) true)
      (onwards : Arrives o probe parts element rest w) :
      Arrives o probe (.filter predicates :: parts) (.array items) rest w

variable {o : Outcomes m} {probe : Probe m}

/-- A search arrives at locations of the tree. -/
theorem Arrives.walks {parts rest : List PatternPart} {v w : Value}
    (arrives : Arrives o probe parts v rest w) : ∃ way, v.walk? way = some w := by
  induction arrives with
  | here parts v => exact ⟨[], rfl⟩
  | @key name _ _ _ _ _ step _ ih | @computed _ name _ _ _ _ _ _ step _ ih =>
      obtain ⟨way, walked⟩ := ih
      exact ⟨.key name :: way, by simpa [Value.walk?, step] using walked⟩
  | @any s _ _ _ _ _ step _ ih =>
      obtain ⟨way, walked⟩ := ih
      exact ⟨s :: way, by simpa [Value.walk?, step] using walked⟩
  | @filter _ _ _ _ i _ _ among _ _ ih =>
      obtain ⟨way, walked⟩ := ih
      exact ⟨.index i :: way, by simpa [Value.walk?, Value.child?, among] using walked⟩
  | @anyBelow way _ _ _ _ _ _ before _ ih | @anyDepth way _ _ _ _ _ before _ ih =>
      obtain ⟨further, walked⟩ := ih
      exact ⟨way ++ further, by simpa [Value.walk?_append, before] using walked⟩

/-- The expressions of the part that comes first succeed at the value. -/
def Answered (o : Outcomes m) (probe : Probe m) : List PatternPart → Value → Prop
  | .computed e :: _, v => o.succeeds (probe.key e v)
  | .filter predicates :: _, .array items =>
      ∀ i element, items[i]? = some element → o.succeeds (probe.selects predicates element i)
  | _, _ => True

/-! ## Searches that succeed -/

variable {next : Value → m (List (List Step))}

theorem succeeds_through {v : Value} {s : Step}
    (goesOn : ∀ child, v.child? s = some child → o.succeeds (next child)) :
    o.succeeds (through next v s) := by
  unfold through
  cases step : v.child? s with
  | none => exact o.succeeds_pure _
  | some child => exact o.succeeds_bind (goesOn child step) fun _ _ => o.succeeds_pure _

theorem succeeds_throughEach {children : List (Step × Value)}
    (goesOn : ∀ entry ∈ children, o.succeeds (next entry.2)) :
    o.succeeds (throughEach next children) := by
  induction children with
  | nil => exact o.succeeds_pure _
  | cons entry rest ih =>
      obtain ⟨here, later⟩ := List.forall_mem_cons.mp goesOn
      exact o.succeeds_bind here fun _ _ => o.succeeds_bind (ih later) fun _ _ => o.succeeds_pure _

theorem succeeds_throughChildren {v : Value} (distinct : v.Distinct)
    (goesOn : ∀ s child, v.child? s = some child → o.succeeds (next child)) :
    o.succeeds (throughEach next v.children) :=
  succeeds_throughEach fun entry member => goesOn entry.1 entry.2 ((Value.mem_children distinct).mp member)

theorem succeeds_throughDepth [LawfulMonad m] {v : Value} (distinct : v.Distinct)
    (goesOn : v.Everywhere fun w => o.succeeds (next w)) : o.succeeds (throughDepth next v) := by
  induction v using Value.childInduction with
  | here v ih =>
      rw [throughDepth_eq]
      have children := succeeds_throughChildren distinct fun s child step =>
        ih s child step (distinct.child step) (goesOn.child step)
      exact o.succeeds_bind goesOn.root fun _ _ => o.succeeds_bind children fun _ _ =>
        o.succeeds_pure _

theorem succeeds_throughBelow [LawfulMonad m] {v : Value} (distinct : v.Distinct)
    (goesOn : ∀ s child, v.child? s = some child → child.Everywhere fun w => o.succeeds (next w)) :
    o.succeeds (throughBelow next v) := by
  rw [throughBelow_eq_throughEach]
  exact succeeds_throughChildren distinct fun s child step =>
    succeeds_throughDepth (distinct.child step) (goesOn s child step)

theorem succeeds_throughSelected {selects : Value → Nat → m Bool} {items : List Value} {start : Nat}
    (answered : ∀ i element, items[i]? = some element → o.succeeds (selects element (start + i)))
    (goesOn : ∀ i element, items[i]? = some element → o.gives (selects element (start + i)) true →
      o.succeeds (next element)) :
    o.succeeds (throughSelected selects next start items) := by
  induction items generalizing start with
  | nil => exact o.succeeds_pure _
  | cons v rest ih =>
      have others : o.succeeds (throughSelected selects next (start + 1) rest) :=
        ih (fun i element among => by
            rw [Nat.add_right_comm]
            exact answered (i + 1) element among)
          fun i element among given => goesOn (i + 1) element among (by
            rwa [Nat.add_right_comm] at given)
      refine o.succeeds_bind (answered 0 v rfl) fun picked given => ?_
      have onwards : ∀ found : List (List Step), o.succeeds (do
          let others ← throughSelected selects next (start + 1) rest
          return found.map (.index start :: ·) ++ others) := fun found =>
        o.succeeds_bind others fun _ _ => o.succeeds_pure _
      cases picked with
      | true => exact o.succeeds_bind (goesOn 0 v rfl given) fun found _ => onwards found
      | false => exact o.succeeds_bind (o.succeeds_pure []) fun found _ => onwards found

/-- **A search succeeds if every expression does where the search arrives with it.** -/
theorem succeeds_matchAt [LawfulMonad m] {parts : List PatternPart} {v : Value}
    (distinct : v.Distinct)
    (answered : ∀ rest w, Arrives o probe parts v rest w → Answered o probe rest w) :
    o.succeeds (matchAt probe parts v) := by
  induction parts generalizing v with
  | nil => exact o.succeeds_pure _
  | cons part parts ih =>
      cases part with
      | key name =>
          exact succeeds_through fun child member =>
            ih (distinct.child member) fun rest w onwards => answered rest w (.key member onwards)
      | computed e =>
          exact o.succeeds_bind (answered _ _ (.here _ _)) fun name given =>
            succeeds_through fun child member => ih (distinct.child member) fun rest w onwards =>
              answered rest w (.computed given member onwards)
      | any =>
          exact succeeds_throughChildren distinct fun s child step =>
            ih (distinct.child step) fun rest w onwards => answered rest w (.any step onwards)
      | anyBelow =>
          refine succeeds_throughBelow distinct fun s child step way below walked => ?_
          have further : v.walk? (s :: way) = some below := by simpa [Value.walk?, step] using walked
          exact ih (distinct.below further) fun rest w onwards =>
            answered rest w (.anyBelow (List.cons_ne_nil s way) further onwards)
      | anyDepth =>
          refine succeeds_throughDepth distinct fun way below walked => ?_
          exact ih (distinct.below walked) fun rest w onwards =>
            answered rest w (.anyDepth walked onwards)
      | filter predicates =>
          cases v with
          | array items =>
              have here : Answered o probe (.filter predicates :: parts) (.array items) :=
                answered _ _ (.here _ _)
              refine succeeds_throughSelected (fun i element among => ?_)
                fun i element among given => ?_
              · rw [Nat.zero_add]
                exact here i element among
              · rw [Nat.zero_add] at given
                exact ih (distinct.child (s := .index i) among) fun rest w onwards =>
                  answered rest w (.filter among given onwards)
          | _ => exact o.succeeds_pure _

/-! ## Searches that have succeeded -/

section Exact

variable (exact : o.Exact)

include exact

theorem of_through {v child : Value} {s : Step} (run : o.succeeds (through next v s))
    (step : v.child? s = some child) : o.succeeds (next child) := by
  unfold through at run
  rw [step] at run
  exact exact.first run

theorem of_throughEach {children : List (Step × Value)} (run : o.succeeds (throughEach next children)) :
    ∀ entry ∈ children, o.succeeds (next entry.2) := by
  induction children with
  | nil => nofun
  | cons entry rest ih =>
      have here : o.succeeds (next entry.2) := exact.first run
      obtain ⟨found, given⟩ := exact.result here
      exact List.forall_mem_cons.mpr ⟨here, ih (exact.first (exact.second run found given))⟩

theorem of_throughChildren {v child : Value} {s : Step} (distinct : v.Distinct)
    (run : o.succeeds (throughEach next v.children)) (step : v.child? s = some child) :
    o.succeeds (next child) :=
  of_throughEach exact run (s, child) ((Value.mem_children distinct).mpr step)

theorem of_throughDepth [LawfulMonad m] {v : Value} (distinct : v.Distinct)
    (run : o.succeeds (throughDepth next v)) : v.Everywhere fun w => o.succeeds (next w) := by
  induction v using Value.childInduction with
  | here v ih =>
      rw [throughDepth_eq] at run
      have here : o.succeeds (next v) := exact.first run
      obtain ⟨found, given⟩ := exact.result here
      have children := exact.first (exact.second run found given)
      intro way w walked
      cases way with
      | nil =>
          cases walked
          exact here
      | cons s way =>
          obtain ⟨child, step, below⟩ := Option.bind_eq_some_iff.mp walked
          exact ih s child step (distinct.child step)
            (of_throughChildren exact distinct children step) way w below

theorem of_throughBelow [LawfulMonad m] {v : Value} (distinct : v.Distinct)
    (run : o.succeeds (throughBelow next v)) {s : Step} {child : Value}
    (step : v.child? s = some child) : child.Everywhere fun w => o.succeeds (next w) := by
  rw [throughBelow_eq_throughEach] at run
  exact of_throughDepth exact (distinct.child step) (of_throughChildren exact distinct run step)

theorem of_throughSelected {selects : Value → Nat → m Bool} {items : List Value} {start : Nat}
    (run : o.succeeds (throughSelected selects next start items)) {i : Nat} {element : Value}
    (among : items[i]? = some element) :
    o.succeeds (selects element (start + i)) ∧
      (o.gives (selects element (start + i)) true → o.succeeds (next element)) := by
  induction items generalizing start i with
  | nil => cases among
  | cons v rest ih =>
      have here : o.succeeds (selects v start) := exact.first run
      cases i with
      | zero =>
          cases among
          exact ⟨here, fun given => exact.first (exact.second run true given)⟩
      | succ i =>
          obtain ⟨picked, given⟩ := exact.result here
          have onwards := exact.second run picked given
          have later : o.succeeds (throughSelected selects next (start + 1) rest) := by
            cases picked <;>
              · obtain ⟨found, givenToo⟩ := exact.result (exact.first onwards)
                exact exact.first (exact.second onwards found givenToo)
          rw [← Nat.add_assoc, Nat.add_right_comm]
          exact ih later among

/-- Where a search has succeeded, every expression did that it arrived with. -/
theorem answered_of_matchAt [LawfulMonad m] {parts rest : List PatternPart} {v w : Value}
    (distinct : v.Distinct) (run : o.succeeds (matchAt probe parts v))
    (arrives : Arrives o probe parts v rest w) : Answered o probe rest w := by
  induction arrives with
  | here parts v =>
      cases parts with
      | nil => trivial
      | cons part parts =>
          cases part with
          | computed e => exact exact.first run
          | filter predicates =>
              cases v with
              | array items =>
                  intro i element among
                  have selected := (of_throughSelected exact run among).1
                  rwa [Nat.zero_add] at selected
              | _ => trivial
          | _ => trivial
  | key member _ ih => exact ih (distinct.child member) (of_through exact run member)
  | computed given member _ ih =>
      exact ih (distinct.child member) (of_through exact (exact.second run _ given) member)
  | any step _ ih => exact ih (distinct.child step) (of_throughChildren exact distinct run step)
  | @anyBelow way _ _ _ _ _ some walked _ ih =>
      refine ih (distinct.below walked) ?_
      cases way with
      | nil => exact absurd rfl some
      | cons s way =>
          obtain ⟨child, step, below⟩ := Option.bind_eq_some_iff.mp walked
          exact of_throughBelow exact distinct run step way _ below
  | anyDepth walked _ ih =>
      exact ih (distinct.below walked) (of_throughDepth exact distinct run _ _ walked)
  | @filter _ _ _ _ i _ _ among given _ ih =>
      have selected := (of_throughSelected exact run among).2
      rw [Nat.zero_add] at selected
      exact ih (distinct.child (s := .index i) among) (selected given)

end Exact

/-! ## Expressions that suit their place -/

/-- Computed keys succeed at every object of a tree, and filters on every element of every array. -/
structure SuitedTo (o : Outcomes m) (probe : Probe m) (root : Value) : Prop where
  key : ∀ e way fields, root.walk? way = some (.object fields) → o.succeeds (probe.key e (.object fields))
  selects : ∀ predicates way items i element, root.walk? way = some (.array items) →
    items[i]? = some element → o.succeeds (probe.selects predicates element i)

/-- What is left then are the computed keys at values that are not objects. -/
theorem SuitedTo.answered {root : Value} (suited : SuitedTo o probe root) {parts rest : List PatternPart}
    {w : Value} (arrives : Arrives o probe parts root rest w)
    (elsewhere : ∀ e others, rest = .computed e :: others → w.isObject = false →
      o.succeeds (probe.key e w)) : Answered o probe rest w := by
  obtain ⟨way, walked⟩ := arrives.walks
  cases rest with
  | nil => trivial
  | cons part others =>
      cases part with
      | computed e =>
          cases w with
          | object fields => exact suited.key e way fields walked
          | _ => exact elsewhere e others rfl rfl
      | filter predicates =>
          cases w with
          | array items =>
              exact fun i element among => suited.selects predicates way items i element walked among
          | _ => trivial
      | _ => trivial

theorem succeeds_find [LawfulMonad m] {parts : List PatternPart} {root : Value}
    (distinct : root.Distinct) (suited : SuitedTo o probe root)
    (elsewhere : ∀ e rest w, Arrives o probe parts root (.computed e :: rest) w →
      w.isObject = false → o.succeeds (probe.key e w)) :
    o.succeeds (find probe parts root) := by
  have ways : o.succeeds (matchAt probe parts root) :=
    succeeds_matchAt distinct fun rest w arrives => suited.answered arrives fun e others same plain => by
      subst same
      exact elsewhere e others w arrives plain
  exact o.succeeds_bind ways fun _ _ => o.succeeds_pure _

/-- Without effects, nothing else makes a search fail, and each of them does. -/
theorem succeeds_find_iff {ε : Type} {probe : Probe (Except ε)} {parts : List PatternPart}
    {root : Value} (distinct : root.Distinct) (suited : SuitedTo (.plain ε) probe root) :
    (Outcomes.plain ε).succeeds (find probe parts root) ↔
      ∀ e rest w, Arrives (.plain ε) probe parts root (.computed e :: rest) w →
        w.isObject = false → (Outcomes.plain ε).succeeds (probe.key e w) := by
  have exact := Outcomes.plain_exact ε
  refine ⟨fun run e rest w arrives _ => ?_, succeeds_find distinct suited⟩
  exact answered_of_matchAt exact distinct (exact.first run) arrives

/-- **A search can fail where a computed key applies to nothing.** Take any way to decide the
expressions of a pattern, with or without effects, that succeeds with computed keys at every object
and with filters on every element of every array. The search succeeds if the computed keys also
succeed at the values that are not objects, wherever the search arrives at one with them; and without
effects, this is what it takes. -/
theorem find_succeeds (parts : List PatternPart) {root : Value} (distinct : root.Distinct) :
    (∀ (ε σ : Type) (probe : Probe (ExceptT ε (StateM σ))),
      SuitedTo (.stateful ε σ) probe root →
      (∀ e rest w, Arrives (.stateful ε σ) probe parts root (.computed e :: rest) w →
        w.isObject = false → ∀ s, ∃ name s', probe.key e w s = (.ok name, s')) →
      ∀ s, ∃ found s', find probe parts root s = (.ok found, s')) ∧
    (∀ (ε : Type) (probe : Probe (Except ε)), SuitedTo (.plain ε) probe root →
      ((∃ found, find probe parts root = .ok found) ↔
        ∀ e rest w, Arrives (.plain ε) probe parts root (.computed e :: rest) w →
          w.isObject = false → ∃ name, probe.key e w = .ok name)) :=
  ⟨fun _ _ _ suited elsewhere => succeeds_find distinct suited elsewhere,
    fun _ _ suited => succeeds_find_iff distinct suited⟩

/-- An object with a member `k` that is the key of another, in which it is so as well. -/
def signposts : Value :=
  .object [("k", .text "a"), ("a", .object [("k", .text "z"), ("z", .null)])]

theorem signposts_distinct : signposts.Distinct := by
  refine .object (by decide) (List.forall_mem_cons.mpr ⟨.leaf rfl, List.forall_mem_singleton.mpr ?_⟩)
  exact .object (by decide) (List.forall_mem_cons.mpr ⟨.leaf rfl, List.forall_mem_singleton.mpr
    (.leaf rfl)⟩)

/-- The key that is found in the member `k`. -/
def posted : Probe (Except String) where
  key _ v := match v.member? "k" with
    | some (.text name) => .ok name
    | _ => .error "no key"
  selects _ _ _ := .ok true

theorem posted_suited : SuitedTo (.plain String) posted signposts where
  key e way fields walked := by
    have everywhere : signposts.Everywhere fun w => ∀ fields, w = .object fields →
        ∃ name, posted.key e w = .ok name := by
      refine .object (fun _ _ => ⟨"a", rfl⟩) (List.forall_mem_cons.mpr
        ⟨.leaf rfl nofun, List.forall_mem_singleton.mpr (.object (fun _ _ => ⟨"z", rfl⟩) ?_)⟩)
      exact List.forall_mem_cons.mpr ⟨.leaf rfl nofun, List.forall_mem_singleton.mpr
        (.leaf rfl nofun)⟩
    exact everywhere way _ walked fields rfl
  selects _ _ _ _ _ _ _ := ⟨true, rfl⟩

/-- With a wildcard the search arrives at the text of the member `k` too, and fails; with a written
key it arrives at an object only. Where the same is asked of every value, but in vain, nothing
fails. -/
theorem find_succeeds_signposts :
    let counted : Probe (ExceptT String (StateM Nat)) :=
      ⟨fun _ v n => (.ok (if v.isObject then "z" else "none"), n + 1), fun _ _ _ n => (.ok true, n)⟩
    signposts.Distinct ∧ SuitedTo (.plain String) posted signposts ∧
      (∃ found, find posted [.key "a", .computed .current] signposts = .ok found) ∧
      SuitedTo (.stateful String Nat) counted signposts ∧
      ∀ n, ∃ found n', find counted [.any, .computed .current] signposts n = (.ok found, n') := by
  intro counted
  have countedSuited : SuitedTo (.stateful String Nat) counted signposts :=
    ⟨fun _ _ _ _ n => ⟨_, n + 1, rfl⟩, fun _ _ _ _ _ _ _ n => ⟨true, n, rfl⟩⟩
  refine ⟨signposts_distinct, posted_suited, ?_, countedSuited, ?_⟩
  · refine ((find_succeeds [.key "a", .computed .current] signposts_distinct).2 _ posted
      posted_suited).mpr fun e rest w arrives plain => ?_
    -- The only way there is through the member `a`, which is an object.
    cases arrives with
    | key member onwards =>
        cases member
        cases onwards with
        | here => cases plain
        | computed given member onwards =>
            cases given
            cases member
            cases onwards
  · exact (find_succeeds [.any, .computed .current] signposts_distinct).1 _ _ counted countedSuited
      fun _ _ _ _ _ n => ⟨_, n + 1, rfl⟩

/-- An expression that gives a key at every object fails at a text, and takes the search with it. -/
theorem find_fails_at_text :
    signposts.Distinct ∧ SuitedTo (.plain String) posted signposts ∧
      find posted [.any, .computed (.member "k")] signposts = .error "no key" ∧
      (({} : Machine).evaluate ⟨.pattern [.any, .computed (.member "k")], none⟩ signposts).1 =
        .error (Fault.evaluation
          "dynamic path key must be a String or Number, got Empty") := by
  refine ⟨signposts_distinct, posted_suited, rfl, ?_⟩
  cbv

end TreeQuery.Pattern
