import TreeQuery.Proofs.Lockstep.Traversal

/-!
# Every rule of evaluation goes in lockstep

For each kind of expression, an evaluation with its parts left open is alike to that of the same
expression with its handlers taken out, or kept, as the setting says (`Alike.node`).
-/

set_option autoImplicit false

namespace TreeQuery

variable {S : Setting} {μ : Mode} {i i' : Nat}

namespace Alike

/-! ## Collections, conditions, errors and sinks -/

theorem items (es : List Expr) (allowed : ∀ e ∈ es, S.Allows e) :
    Alike S μ i i' S.values (fun r => Evaluation.items r i es)
      (fun r => Evaluation.items r i' (es.map (Expr.trim S.keep))) := by
  induction es with
  | nil => exact .pure .nil
  | cons e rest ih =>
      have others := ih fun e member => allowed e (List.mem_cons_of_mem _ member)
      refine .bind (.run (allowed e (List.mem_cons_self ..))) fun v v' values => ?_
      refine .bind others fun vs vs' more => .pure ?_
      have empty : v'.value.isEmpty = v.value.isEmpty :=
        values.content.same Value.isEmpty Value.isEmpty_translate
      simp only [empty]
      split
      · exact more
      · exact values.content.cons more

theorem members (es : List (String × Expr)) (allowed : ∀ m ∈ es, S.Allows m.2)
    {sofar sofar' : List (String × Value)} (related : S.fields sofar sofar') :
    Alike S μ i i' S.fields (fun r => Evaluation.members r i sofar es)
      (fun r => Evaluation.members r i' sofar' (es.map fun m => (m.1, m.2.trim S.keep))) := by
  induction es generalizing sofar sofar' with
  | nil => exact .pure related
  | cons m rest ih =>
      obtain ⟨key, e⟩ := m
      have others := fun m member => allowed m (List.mem_cons_of_mem _ member)
      refine .bind (.run (allowed (key, e) (List.mem_cons_self ..))) fun v v' values => ?_
      have empty : v'.value.isEmpty = v.value.isEmpty :=
        values.content.same Value.isEmpty Value.isEmpty_translate
      have added : S.fields (Assoc.insert sofar key v.value) (Assoc.insert sofar' key v'.value) :=
        related.map₂ values.content (fun fields v => Assoc.insert fields key v)
          fun τ fields v => Assoc.insert_mapValues (Value.translate τ) fields key v
      simp only [empty]
      split
      · exact ih others related
      · exact ih others added

theorem conditionalExpr {condition yes : Expr} {no : Option Expr} (test : S.Allows condition)
    (first : S.Allows yes) (second : ∀ e ∈ no, S.Allows e) :
    Alike S μ i i' S.result (fun r => Evaluation.conditionalExpr r condition yes no i)
      (fun r => Evaluation.conditionalExpr r (condition.trim S.keep) (yes.trim S.keep)
        (no.map (Expr.trim S.keep)) i') := by
  refine .bind (.run test) fun v v' values => ?_
  refine .bind (unbox values) fun v v' values => ?_
  have verdict : v'.value.truthy = v.value.truthy :=
    values.content.same Value.truthy Value.truthy_translate
  simp only [verdict]
  split
  · exact .run first
  · cases no with
    | none => exact .pure (.const fun _ => rfl)
    | some e => exact .run (second e rfl)

theorem raiseExpr (kind : String) (code : Option String) {message : Expr} {payload : Option Expr}
    (text : S.Allows message) (more : ∀ e ∈ payload, S.Allows e) :
    Alike S μ i i' S.result (fun r => Evaluation.raiseExpr r kind code message payload i)
      (fun r => Evaluation.raiseExpr r kind code (message.trim S.keep)
        (payload.map (Expr.trim S.keep)) i') := by
  have raised : ∀ (text text' : String) (v v' : Value), text' = text → S.value v v' →
      Alike S μ i i' S.result
      (fun _ => do
        let cursor ← Eval.ofChain fun c => c.cursor? i
        let raised := Fault.raised kind text v
        Eval.fail { raised with code := code, location := cursor.map Address.text })
      (fun _ => do
        let cursor ← Eval.ofChain fun c => c.cursor? i'
        let raised := Fault.raised kind text' v'
        Eval.fail { raised with code := code, location := cursor.map Address.text }) := by
    intro _ spoken v v' same values
    subst same
    refine .bind .cursor fun a a' cursors => ?_
    have location : a'.map Address.text = a.map Address.text := by
      refine cursors.same (Option.map Address.text) fun τ a => ?_
      cases a with
      | none => rfl
      | some a => exact congrArg some (Address.text_translate τ a)
    rw [location]
    exact fail (values.map (fun v => Fault.mk (.ofName kind) code spoken v none none
      (a.map Address.text) none) fun _ _ => rfl)
  refine .bind (.run text) fun v v' values => ?_
  have image := values.content.image
  cases payload with
  | none =>
      refine raised _ _ .empty .empty ?_ (.const fun _ => rfl)
      rw [image]
      cases v.value <;> first | rfl | exact Value.display_translate _ _
  | some e =>
      refine .bind (.run (more e rfl)) fun w w' payloads => ?_
      refine raised _ _ w.value w'.value ?_ payloads.content
      rw [image]
      cases v.value <;> first | rfl | exact Value.display_translate _ _

theorem sinkExpr {input : Expr} {component : String}
    (allowed : S.Allows (.sink input component)) :
    Alike S μ i i' S.result (fun r => Evaluation.sinkExpr r input component i)
      (fun r => Evaluation.sinkExpr r (input.trim S.keep) component i') := by
  refine .bind (.run (allowed.part (List.mem_singleton_self _))) fun v v' values => ?_
  refine .bind (unbox values) fun v v' values => ?_
  refine .bind (.deliver allowed values.content) fun w w' answers => ?_
  exact .pure (values.map₂ answers (fun v w => { v with value := w }) fun τ v w => by cases v; rfl)

/-! ## All expressions -/

/-- **Every expression is evaluated in lockstep** with the same expression without its handlers, or
with them, as the setting says. -/
theorem node {e : Expr} (allowed : S.Allows e) :
    Alike S .shared i i' S.result (fun r => Evaluation.node r e i)
      (fun r => Evaluation.node r (e.trim S.keep) i') := by
  have part : ∀ {sub}, sub ∈ e.parts → S.Allows sub := fun member => allowed.part member
  have bare : S.unhandled = true → e.HandlerFree := fun unhandled =>
    (S.bare unhandled).2 e (allowed.root (S.bare unhandled).1)
  cases e with
  | empty | null | bool _ | number _ | text _ | bytes _ =>
      simp only [Expr.trim]
      exact .pure (.const fun _ => rfl)
  | array es =>
      simp only [Expr.trim, Expr.trimList_eq]
      refine .bind (items es fun e member => part member) fun vs vs' values => .pure ?_
      exact values.map (fun vs => Evaluated.plain (.array vs)) fun τ vs => by simp
  | object es =>
      simp only [Expr.trim, Expr.trimMembers_eq]
      refine .bind (members es (fun m member => part (List.mem_map_of_mem member))
        (.const fun _ => rfl)) fun fs fs' same => .pure ?_
      exact same.map (fun fs => Evaluated.plain (.object fs)) fun τ fs => by simp
  | current =>
      simp only [Expr.trim]
      exact .current
  | named name =>
      simp only [Expr.trim]
      exact .named allowed fun _ _ _ may => compute may
  | member key =>
      simp only [Expr.trim]
      refine .bind currentUnboxed fun v v' values => .pure ?_
      exact (values.content.map (Value.memberOf key) fun τ v =>
        Value.memberOf_translate τ key v).plainly
  | element position =>
      simp only [Expr.trim]
      refine .bind currentUnboxed fun v v' values => .pure ?_
      refine (values.content.map (fun v => (v.element? position).getD .empty) fun τ v => ?_).plainly
      rw [Value.element?_translate]
      cases v.element? position <;> rfl
  | chain steps =>
      simp only [Expr.trim, Expr.trimList_eq]
      exact chainExpr steps fun e member => part member
  | binary op left right =>
      simp only [Expr.trim]
      exact binaryExpr op (part (by simp [Expr.parts])) (part (by simp [Expr.parts]))
  | unary op operand =>
      simp only [Expr.trim]
      exact unaryExpr op (part (by simp [Expr.parts]))
  | call library name args =>
      simp only [Expr.trim, Expr.trimList_eq]
      exact callExpr allowed
  | function d =>
      simp only [Expr.trim]
      exact .makeLambda d allowed
  | invoke target args =>
      simp only [Expr.trim, Expr.trimList_eq]
      exact invokeExpr (part (List.mem_cons_self ..)) fun e member =>
        part (List.mem_cons_of_mem _ member)
  | scope body handler =>
      simp only [Expr.trim, Evaluation.node]
      refine .within .scope (fun other => by cases other) fun j j' => ?_
      exact guarded (fun e member => part (List.mem_cons_of_mem _ member)) bare
        (.run (part (List.mem_cons_self ..)))
  | letIn bindings body handler =>
      simp only [Expr.trim]
      exact letScope (by decide) (fun plain => ⟨_, allowed plain, rfl⟩)
        (part (List.mem_cons_self ..)) (fun e member => part (by simp [Expr.parts, member]))
        fun unhandled => (bare unhandled).1
  | select bindings body handler =>
      simp only [Expr.trim]
      exact letScope (by decide) (fun plain => ⟨_, allowed plain, rfl⟩)
        (part (List.mem_cons_self ..)) (fun e member => part (by simp [Expr.parts, member]))
        fun unhandled => (bare unhandled).1
  | conditional condition yes no =>
      simp only [Expr.trim, Expr.trimOption_eq]
      exact conditionalExpr (part (by simp [Expr.parts])) (part (by simp [Expr.parts]))
        fun e member => part (by simp [Expr.parts, Option.mem_def.mp member])
  | map source body =>
      simp only [Expr.trim]
      exact mapExpr (part (by simp [Expr.parts])) (part (by simp [Expr.parts]))
  | aggregate source initial body =>
      simp only [Expr.trim]
      exact aggregateExpr (part (by simp [Expr.parts])) (part (by simp [Expr.parts]))
        (part (by simp [Expr.parts]))
  | breakLoop | continueLoop =>
      simp only [Expr.trim]
      exact .throw (.const fun _ => rfl)
  | stop reason value =>
      simp only [Expr.trim]
      refine .bind (.run (part (by simp [Expr.parts]))) fun v v' values => ?_
      exact .throw (values.content.map (Signal.stop reason) fun _ _ => rfl)
  | raise kind code message payload =>
      simp only [Expr.trim, Expr.trimOption_eq]
      exact raiseExpr kind code (part (by simp [Expr.parts]))
        fun e member => part (by simp [Expr.parts, Option.mem_def.mp member])
  | address steps =>
      simp only [Expr.trim]
      refine .bind .current fun v v' values => .pure ?_
      exact (values.content.map (fun v => Value.address (.linkedTo steps v)) fun τ v => by
        rw [Address.linkedTo_translate, Value.translate_address]).plainly
  | pattern parts =>
      simp only [Expr.trim, PatternPart.trimList_eq]
      exact patternExpr parts fun p inside e member =>
        part (List.mem_flatMap.mpr ⟨p, inside, member⟩)
  | sink input component =>
      simp only [Expr.trim]
      exact sinkExpr allowed

end Alike

end TreeQuery
