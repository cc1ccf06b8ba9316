import TreeQuery.Proofs.Lockstep.Calls
import TreeQuery.Proofs.Tree

/-!
# Loops, navigation and patterns go in lockstep

What goes through a value part by part goes through related values in the same order: the rounds of
a loop (`Alike.mapExpr`, `Alike.aggregateExpr`), the steps of a chain (`Alike.chainExpr`) and the
search for the ways that a pattern selects (`Alike.patternExpr`). Related values have the same
shape, so the search branches alike.
-/

set_option autoImplicit false

namespace TreeQuery

variable {S : Setting} {μ : Mode} {i i' : Nat}

namespace Alike

/-! ## Loops -/

theorem loopItems {source : Expr} (allowed : S.Allows source) :
    Alike S μ i i'
      (S.Related fun τ (p : Value × List Value) =>
        (p.1.translate τ, p.2.map (Value.translate τ)))
      (fun r => Evaluation.loopItems r source i)
      (fun r => Evaluation.loopItems r (source.trim S.keep) i') := by
  refine .bind (.run allowed) fun v v' values => ?_
  refine .bind (unbox values) fun v v' values => ?_
  have content := values.content
  have image := content.image
  simp only [image]
  rw [image] at content
  cases shape : v.value with
  | empty => exact .pure (.const fun _ => rfl)
  | array items =>
      rw [shape] at content
      have elements : S.values items (items.map (Value.translate S.image)) :=
        ⟨rfl, fun plain => Value.array.inj
          ((Value.translate_array S.test items).symm.trans (content.inert plain))⟩
      rw [Value.translate_array] at content ⊢
      exact .pure (content.map₂ elements Prod.mk fun _ _ _ => rfl)
  | stream id =>
      rw [shape] at content
      exact .bind (.drain content) fun items items' same => .pure
        (content.map₂ same Prod.mk fun _ _ _ => rfl)
  | _ =>
      rw [shape] at content
      exact .pure (content.map (fun w => (w, [w])) fun _ _ => rfl)

/-- With the result so far in place, if there is one, the body is run. -/
theorem accumulated {body : Expr} (allowed : S.Allows body) {acc acc' : Option Evaluated}
    (accs : S.Related (fun τ => Option.map (Evaluated.translate τ)) acc acc') :
    Alike S .own i i' S.result
      (fun r => do
        match acc with
        | some acc => Eval.onChain fun c => c.setValue i Chain.accumulatorName acc
        | none => Pure.pure ()
        r body i)
      (fun r => do
        match acc' with
        | some acc => Eval.onChain fun c => c.setValue i' Chain.accumulatorName acc
        | none => Pure.pure ()
        r (body.trim S.keep) i') := by
  cases acc with
  | none =>
      obtain ⟨rfl, -⟩ := accs
      exact .run allowed
  | some acc =>
      obtain ⟨rfl, inert⟩ := accs
      have same : S.result acc (acc.translate S.image) :=
        ⟨rfl, fun plain => Option.some.inj (inert plain)⟩
      exact .bind (.setValue Chain.accumulatorName same) fun _ _ _ => .run allowed

theorem round {body : Expr} (allowed : S.Allows body) {source source' : Value}
    (sources : S.value source source') {acc acc' : Option Evaluated}
    (accs : S.Related (fun τ => Option.map (Evaluated.translate τ)) acc acc') (index : Nat)
    {item item' : Value} (related : S.value item item') :
    Alike S μ i i' S.result (fun r => Evaluation.round r body i source acc index item)
      (fun r => Evaluation.round r (body.trim S.keep) i' source' acc' index item') := by
  have array : source'.isArray = source.isArray :=
    sources.same Value.isArray Value.isArray_translate
  have position : S.address ((Address.linkedTo [] source).child (.index index))
      ((Address.linkedTo [] source').child (.index index)) := by
    refine sources.map (fun v => (Address.linkedTo [] v).child (.index index)) fun τ v => ?_
    rw [Address.linkedTo_translate, Address.child_translate]
  refine .within .loop (fun other => by cases other) fun j j' => ?_
  have entered : Alike S .own j j' S.result _ _ :=
    .bind (setCurrent related.plainly) fun _ _ _ => accumulated allowed accs
  simp only [array]
  split
  · exact .bind (.setCursor position) fun _ _ _ => entered
  · exact entered

theorem mapRounds {once once' : Nat → Value → Runner → Eval Evaluated}
    (rounds : ∀ index v v', S.value v v' →
      Alike S μ i i' S.result (once index v) (once' index v'))
    (index : Nat) (items : List Value) {items' : List Value} (related : S.values items items') :
    Alike S μ i i' S.values
      (fun r => Evaluation.mapRounds (fun index v => once index v r) index items)
      (fun r => Evaluation.mapRounds (fun index v => once' index v r) index items') := by
  induction items generalizing index items' with
  | nil =>
      obtain ⟨rfl, -⟩ := related
      exact .pure .nil
  | cons item rest ih =>
      obtain ⟨item', rest', rfl, first, others⟩ := related.uncons
      refine .catching (rounds index item item' first) (fun v v' values => ?_)
        (fun s s' signals => ?_) (fun _ _ => rfl) fun _ _ => rfl
      · refine .bind (ih (index + 1) others) fun vs vs' more => .pure ?_
        have empty : v'.value.isEmpty = v.value.isEmpty :=
          values.content.same Value.isEmpty Value.isEmpty_translate
        simp only [empty]
        split
        · exact more
        · exact values.content.cons more
      · obtain ⟨rfl, inert⟩ := signals
        cases s with
        | continueLoop => exact ih (index + 1) others
        | breakLoop => exact .pure .nil
        | _ => exact .throw ⟨rfl, inert⟩

theorem foldRounds {once once' : Evaluated → Nat → Value → Runner → Eval Evaluated}
    (rounds : ∀ acc acc' index v v', S.result acc acc' → S.value v v' →
      Alike S μ i i' S.result (once acc index v) (once' acc' index v'))
    {acc acc' : Evaluated} (accs : S.result acc acc') (index : Nat) (items : List Value)
    {items' : List Value} (related : S.values items items') :
    Alike S μ i i' S.result
      (fun r => Evaluation.foldRounds (fun acc index v => once acc index v r) acc index items)
      (fun r => Evaluation.foldRounds (fun acc index v => once' acc index v r) acc' index
        items') := by
  induction items generalizing acc acc' index items' with
  | nil =>
      obtain ⟨rfl, -⟩ := related
      exact .pure accs
  | cons item rest ih =>
      obtain ⟨item', rest', rfl, first, others⟩ := related.uncons
      refine .catching (rounds acc acc' index item item' accs first)
        (fun v v' values => ih values (index + 1) others) (fun s s' signals => ?_)
        (fun _ _ => rfl) fun _ _ => rfl
      obtain ⟨rfl, inert⟩ := signals
      cases s with
      | continueLoop => exact ih accs (index + 1) others
      | breakLoop => exact .pure accs
      | _ => exact .throw ⟨rfl, inert⟩

theorem mapExpr {source body : Expr} (first : S.Allows source) (inside : S.Allows body) :
    Alike S μ i i' S.result (fun r => Evaluation.mapExpr r source body i)
      (fun r => Evaluation.mapExpr r (source.trim S.keep) (body.trim S.keep) i') := by
  refine .bind (loopItems first) fun p p' pairs => ?_
  have sources : S.value p.1 p'.1 := pairs.map Prod.fst fun _ _ => rfl
  have items : S.values p.2 p'.2 := pairs.map Prod.snd fun _ _ => rfl
  refine .bind (mapRounds (fun index v v' same => round inside sources (.const fun _ => rfl) index
    same) 0 p.2 items) fun vs vs' values => .pure ?_
  exact values.map (fun vs => Evaluated.plain (.array vs)) fun τ vs => by simp

theorem aggregateExpr {source initial body : Expr} (first : S.Allows source)
    (start : S.Allows initial) (inside : S.Allows body) :
    Alike S μ i i' S.result (fun r => Evaluation.aggregateExpr r source initial body i)
      (fun r => Evaluation.aggregateExpr r (source.trim S.keep) (initial.trim S.keep)
        (body.trim S.keep) i') := by
  refine .bind (loopItems first) fun p p' pairs => ?_
  have sources : S.value p.1 p'.1 := pairs.map Prod.fst fun _ _ => rfl
  have items : S.values p.2 p'.2 := pairs.map Prod.snd fun _ _ => rfl
  refine .bind (.run start) fun acc acc' accs => ?_
  exact foldRounds (fun acc acc' index v v' accs same =>
    round inside sources (accs.map some fun _ _ => rfl) index same) accs 0 p.2 items

/-! ## Navigation -/

theorem currentUnboxed :
    Alike S μ i i' S.result (fun r => Evaluation.currentUnboxed r i)
      (fun r => Evaluation.currentUnboxed r i') :=
  .bind .current fun _ _ currents => unbox currents

theorem currentValue :
    Alike S μ i i' S.value (fun _ => Eval.ofChain fun c => (c.current i).value)
      (fun _ => Eval.ofChain fun c => (c.current i').value) := by
  have read : Alike S μ i i' S.value
      (fun _ => (Eval.ofChain fun c => c.current i) >>= fun v => Pure.pure v.value)
      (fun _ => (Eval.ofChain fun c => c.current i') >>= fun v => Pure.pure v.value) :=
    .bind .current fun _ _ currents => .pure currents.content
  exact read

theorem cursorAfter (step : Expr) {a a' : Option Address} (cursors : S.cursor a a')
    {before before' : Value} (befores : S.value before before') {v v' : Value}
    (values : S.value v v') :
    S.address (Evaluation.cursorAfter step a before v)
      (Evaluation.cursorAfter (step.trim S.keep) a' before' v') := by
  refine ⟨?_, fun plain => ?_⟩
  · rw [cursors.image, befores.image, values.image, Evaluation.cursorAfter_translate]
  · have moved := Evaluation.cursorAfter_translate S.test true step a before v
    rw [Expr.trim_true, cursors.inert plain, befores.inert plain, values.inert plain] at moved
    exact moved.symm

theorem chainSteps {v v' : Evaluated} (related : S.result v v') (steps : List Expr)
    (allowed : ∀ e ∈ steps, S.Allows e) :
    Alike S .own i i' S.result (fun r => Evaluation.chainSteps r i v steps)
      (fun r => Evaluation.chainSteps r i' v' (steps.map (Expr.trim S.keep))) := by
  induction steps generalizing v v' with
  | nil => exact .pure related
  | cons step rest ih =>
      have others := fun e member => allowed e (List.mem_cons_of_mem step member)
      refine .bind .cursor fun a a' cursors => ?_
      refine .bind currentValue fun before before' befores => ?_
      refine .bind (.run (allowed step (List.mem_cons_self ..))) fun v v' values => ?_
      refine .bind (.setCursor (cursorAfter step cursors befores values.content)) fun _ _ _ => ?_
      exact .bind (setCurrent values) fun _ _ _ => ih values others

theorem chainExpr (steps : List Expr) (allowed : ∀ e ∈ steps, S.Allows e) :
    Alike S μ i i' S.result (fun r => Evaluation.chainExpr r steps i)
      (fun r => Evaluation.chainExpr r (steps.map (Expr.trim S.keep)) i') :=
  .within .scope (fun other => by cases other) fun _ _ =>
    .bind .current fun _ _ currents => chainSteps currents steps allowed

end Alike

/-! ## Patterns -/

section Patterns

variable {next next' : Value → Runner → Eval (List (List Step))}

namespace Alike

theorem through (goesOn : ∀ v v', S.value v v' → Alike S μ i i' Eq (next v) (next' v'))
    {v v' : Value} (related : S.value v v') (s : Step) :
    Alike S μ i i' Eq (fun r => Pattern.through (fun v => next v r) v s)
      (fun r => Pattern.through (fun v => next' v r) v' s) := by
  have child : S.Related (fun τ => Option.map (Value.translate τ)) (v.child? s) (v'.child? s) :=
    related.map (fun v => v.child? s) fun τ v => Value.child?_translate τ v s
  unfold Pattern.through
  cases found : v.child? s with
  | none =>
      rw [found] at child
      obtain ⟨none', -⟩ := child
      rw [none']
      exact .pure rfl
  | some c =>
      rw [found] at child
      obtain ⟨some', inert⟩ := child
      rw [some']
      refine .bind (goesOn c _ ⟨rfl, fun plain => Option.some.inj (inert plain)⟩) ?_
      rintro ways - rfl
      exact .pure rfl

theorem throughEach (children : List (Step × Value)) {children' : List (Step × Value)}
    (goesOn : ∀ c ∈ children, ∀ v', S.value c.2 v' → Alike S μ i i' Eq (next c.2) (next' v'))
    (related : S.Related (fun τ => List.map fun c => (c.1, c.2.translate τ)) children children') :
    Alike S μ i i' Eq (fun r => Pattern.throughEach (fun v => next v r) children)
      (fun r => Pattern.throughEach (fun v => next' v r) children') := by
  induction children generalizing children' with
  | nil =>
      obtain ⟨rfl, -⟩ := related
      exact .pure rfl
  | cons c rest ih =>
      obtain ⟨c', rest', rfl, first, others⟩ := related.uncons
      have step : c'.1 = c.1 := first.same Prod.fst fun _ _ => rfl
      have value : S.value c.2 c'.2 := first.map Prod.snd fun _ _ => rfl
      obtain ⟨s, v⟩ := c
      obtain ⟨s', v'⟩ := c'
      cases step
      refine .bind (goesOn _ (List.mem_cons_self ..) v' value) ?_
      rintro here - rfl
      refine .bind (ih (fun c member => goesOn c (List.mem_cons_of_mem _ member)) others) ?_
      rintro more - rfl
      exact .pure rfl

theorem throughDepth (goesOn : ∀ v v', S.value v v' → Alike S μ i i' Eq (next v) (next' v'))
    {v v' : Value} (related : S.value v v') :
    Alike S μ i i' Eq (fun r => Pattern.throughDepth (fun v => next v r) v)
      (fun r => Pattern.throughDepth (fun v => next' v r) v') := by
  induction v using Value.childrenInduction generalizing v' with
  | here v ih =>
      rw [funext fun r => Pattern.throughDepth_eq v, funext fun r => Pattern.throughDepth_eq v']
      refine .bind (goesOn v v' related) ?_
      rintro here - rfl
      refine .bind (throughEach v.children (fun c member _ same => ih c member same)
        (related.map Value.children fun τ v => Value.children_translate τ v)) ?_
      rintro deeper - rfl
      exact .pure rfl

theorem throughBelow (goesOn : ∀ v v', S.value v v' → Alike S μ i i' Eq (next v) (next' v'))
    {v v' : Value} (related : S.value v v') :
    Alike S μ i i' Eq (fun r => Pattern.throughBelow (fun v => next v r) v)
      (fun r => Pattern.throughBelow (fun v => next' v r) v') := by
  rw [funext fun r => Pattern.throughBelow_eq_throughEach v,
    funext fun r => Pattern.throughBelow_eq_throughEach v']
  exact throughEach v.children (fun _ _ _ same => throughDepth goesOn same)
    (related.map Value.children fun τ v => Value.children_translate τ v)

theorem throughSelected (goesOn : ∀ v v', S.value v v' → Alike S μ i i' Eq (next v) (next' v'))
    {selects selects' : Value → Nat → Runner → Eval Bool}
    (decides : ∀ v v' index, S.value v v' →
      Alike S μ i i' Eq (selects v index) (selects' v' index))
    (index : Nat) (items : List Value) {items' : List Value} (related : S.values items items') :
    Alike S μ i i' Eq
      (fun r => Pattern.throughSelected (fun v n => selects v n r) (fun v => next v r) index items)
      (fun r => Pattern.throughSelected (fun v n => selects' v n r) (fun v => next' v r) index
        items') := by
  induction items generalizing index items' with
  | nil =>
      obtain ⟨rfl, -⟩ := related
      exact .pure rfl
  | cons v rest ih =>
      obtain ⟨v', rest', rfl, first, others⟩ := related.uncons
      refine .bind (decides v v' index first) ?_
      rintro selected - rfl
      have later : ∀ here : List (List Step), Alike S μ i i' Eq
          (fun r => do
            let others ← Pattern.throughSelected (fun v n => selects v n r) (fun v => next v r)
              (index + 1) rest
            Pure.pure (here.map (Step.index index :: ·) ++ others))
          (fun r => do
            let others ← Pattern.throughSelected (fun v n => selects' v n r) (fun v => next' v r)
              (index + 1) rest'
            Pure.pure (here.map (Step.index index :: ·) ++ others)) := by
        intro here
        refine .bind (ih (index + 1) others) ?_
        rintro more - rfl
        exact .pure rfl
      cases selected with
      | true =>
          refine .bind (goesOn v v' first) ?_
          rintro here - rfl
          exact later here
      | false => exact later []

end Alike

end Patterns

namespace Alike

theorem selects (predicates : List Expr) (allowed : ∀ e ∈ predicates, S.Allows e)
    {element element' : Value} (related : S.value element element') (index : Nat) :
    Alike S μ i i' Eq
      (fun r => Evaluation.probe.anySelects r i predicates element index)
      (fun r => Evaluation.probe.anySelects r i' (predicates.map (Expr.trim S.keep)) element'
        index) := by
  induction predicates with
  | nil => exact .pure rfl
  | cons e rest ih =>
      have others := ih fun e member => allowed e (List.mem_cons_of_mem _ member)
      refine .bind (forked (allowed e (List.mem_cons_self ..)) related.plainly)
        fun v v' values => ?_
      have decided : ∀ b : Bool, Alike S μ i i' Eq
          (fun r => if b then Pure.pure true
            else Evaluation.probe.anySelects r i rest element index)
          (fun r => if b then Pure.pure true
            else Evaluation.probe.anySelects r i' (rest.map (Expr.trim S.keep)) element'
              index) := by
        intro b
        cases b with
        | true => exact .pure rfl
        | false => exact others
      have image := values.content.image
      simp only [image]
      cases v.value with
      | array items => simpa [Value.truthy] using decided (!items.isEmpty)
      | object fields => simpa [Value.truthy] using decided (!fields.isEmpty)
      | _ => exact decided _

theorem key {e : Expr} (allowed : S.Allows e) {v v' : Value} (related : S.value v v') :
    Alike S μ i i' Eq (fun r => (Evaluation.probe r i).key e v)
      (fun r => (Evaluation.probe r i').key (e.trim S.keep) v') := by
  refine .bind (forked allowed related.plainly) fun w w' values => ?_
  rw [values.content.image]
  cases w.value with
  | text s => exact .pure rfl
  | number n => exact .pure rfl
  | _ => exact failSame fun _ => rfl

theorem matchAt (parts : List PatternPart)
    (allowed : ∀ p ∈ parts, ∀ e ∈ p.parts, S.Allows e) {v v' : Value} (related : S.value v v') :
    Alike S μ i i' Eq (fun r => Pattern.matchAt (Evaluation.probe r i) parts v)
      (fun r => Pattern.matchAt (Evaluation.probe r i')
        (parts.map (PatternPart.trim S.keep)) v') := by
  induction parts generalizing v v' with
  | nil => exact .pure rfl
  | cons p rest ih =>
      have next := fun v v' (related : S.value v v') =>
        ih (fun p member => allowed p (List.mem_cons_of_mem _ member)) related
      have inside := allowed p (List.mem_cons_self ..)
      simp only [List.map_cons]
      cases p with
      | key name => exact through next related (.key name)
      | computed e =>
          refine .bind (key (inside e (List.mem_singleton_self _)) related) ?_
          rintro name - rfl
          exact through next related (.key name)
      | any =>
          exact throughEach v.children (fun c _ => next c.2)
            (related.map Value.children fun τ v => Value.children_translate τ v)
      | anyBelow => exact throughBelow next related
      | anyDepth => exact throughDepth next related
      | filter predicates =>
          simp only [PatternPart.trim, Expr.trimList_eq, Pattern.matchAt]
          rw [related.image]
          cases v with
          | array items =>
              have elements : S.values items (items.map (Value.translate S.image)) := by
                refine ⟨rfl, fun plain => ?_⟩
                exact Value.array.inj ((Value.translate_array S.test items).symm.trans
                  (related.inert plain))
              rw [Value.translate_array]
              exact throughSelected next
                (fun v v' index same => selects predicates inside same index) 0 items elements
          | _ => exact .pure rfl

theorem patternExpr (parts : List PatternPart)
    (allowed : ∀ p ∈ parts, ∀ e ∈ p.parts, S.Allows e) :
    Alike S μ i i' S.result (fun r => Evaluation.patternExpr r parts i)
      (fun r => Evaluation.patternExpr r (parts.map (PatternPart.trim S.keep)) i') := by
  refine .bind currentUnboxed fun v v' values => ?_
  refine .bind (R := S.Related fun τ => List.map (Address.translate τ)) ?_
    fun found found' same => .pure ?_
  · refine .bind (matchAt parts allowed values.content) ?_
    rintro ways - rfl
    refine .pure (values.content.map (fun root => ways.eraseDups.map fun steps =>
      Address.linkedTo steps root) fun τ root => ?_)
    simp only [Address.linkedTo_translate, List.map_map]
    rfl
  · refine same.map (fun found => Evaluated.plain (.array (found.map .address))) fun τ found => ?_
    simp only [Evaluated.translate_plain, Value.translate_array, List.map_map]
    rfl

end Alike

end TreeQuery
