import TreeQuery.Proofs.Lockstep.Scopes

/-!
# Calls go in lockstep

Functions are called with related arguments and come to related results, be it by a call
(`Alike.invoke`), because a value is needed (`Alike.unbox`) or in place of an operator
(`Alike.delegate`). So do the functions of the library (`Alike.callExpr`).
-/

set_option autoImplicit false

namespace TreeQuery

variable {S : Setting} {μ : Mode} {i i' : Nat}

namespace Alike

/-! ## Functions -/

theorem setCaptured {captured captured' : List (String × Evaluated)}
    (related : S.Related (fun τ => Assoc.mapValues (Evaluated.translate τ)) captured captured') :
    Alike S .own i i' Eq (fun _ => Evaluation.setCaptured i captured)
      (fun _ => Evaluation.setCaptured i' captured') := by
  obtain ⟨rfl, inert⟩ := related
  induction captured with
  | nil => exact .pure rfl
  | cons entry rest ih =>
      obtain ⟨name, v⟩ := entry
      have value : S.result v (v.translate S.image) :=
        ⟨rfl, fun plain => congrArg Prod.snd (List.cons.inj (inert plain)).1⟩
      exact .bind (.setValue name value) fun _ _ _ => ih fun plain => (List.cons.inj (inert plain)).2

theorem setParams (params : List Param)
    (allowed : ∀ e ∈ params.filterMap Param.fallback, S.Allows e) {args args' : List Evaluated}
    (related : S.results args args') :
    Alike S .own i i' Eq (fun r => Evaluation.setParams r i params args)
      (fun r => Evaluation.setParams r i'
        (params.map fun p => ⟨p.name, p.fallback.map (Expr.trim S.keep)⟩) args') := by
  induction params generalizing args args' with
  | nil => exact .pure rfl
  | cons p rest ih =>
      obtain ⟨name, fallback⟩ := p
      have here : ∀ e ∈ fallback, S.Allows e := fun e given =>
        allowed e (List.mem_filterMap.mpr ⟨_, List.mem_cons_self .., given⟩)
      have later : ∀ e ∈ rest.filterMap Param.fallback, S.Allows e := by
        intro e member
        obtain ⟨q, inside, given⟩ := List.mem_filterMap.mp member
        exact allowed e (List.mem_filterMap.mpr ⟨q, List.mem_cons_of_mem _ inside, given⟩)
      have others : S.results args.tail args'.tail :=
        related.map List.tail fun _ _ => List.map_tail.symm
      have next : ∀ v v', S.result v v' → Alike S .own i i' Eq
          (fun r => do
            Eval.onChain fun c => c.setValue i name v
            Evaluation.setParams r i rest args.tail)
          (fun r => do
            Eval.onChain fun c => c.setValue i' name v'
            Evaluation.setParams r i'
              (rest.map fun p => ⟨p.name, p.fallback.map (Expr.trim S.keep)⟩) args'.tail) :=
        fun v v' values => .bind (.setValue name values) fun _ _ _ => ih later others
      simp only [List.map_cons, Evaluation.setParams]
      cases args with
      | nil =>
          obtain ⟨rfl, -⟩ := related
          cases fallback with
          | none => exact .bind (failSame fun _ => rfl) next
          | some fallback => exact .bind (.run (here fallback rfl)) next
      | cons arg more =>
          obtain ⟨arg', more', rfl, same, -⟩ := related.uncons
          have absent : arg'.value.isEmpty = arg.value.isEmpty :=
            same.same (fun v => v.value.isEmpty) fun τ v => by simp
          simp only [List.head?_cons, Option.isSome_map, Option.filter_some, absent]
          cases fallback with
          | none =>
              simp only [Option.isSome_none, Bool.and_false, Bool.not_false, if_true]
              exact .bind (.pure same) next
          | some fallback =>
              cases arg.value.isEmpty with
              | true => exact .bind (.run (here fallback rfl)) next
              | false => exact .bind (.pure same) next

theorem invoke {l : Lambda} {v' : Value} (function : S.value (.lambda l) v')
    {args args' : List Evaluated} (related : S.results args args') :
    Alike S μ i i' S.result (fun r => Evaluation.invoke r l args i)
      (fun r => Evaluation.invoke r (l.translate S.image) args' i') := by
  have count : args'.length = args.length :=
    related.same List.length fun _ _ => List.length_map ..
  have params : ((l.translate S.image).definition).params =
      l.definition.params.map fun p => ⟨p.name, p.fallback.map (Expr.trim S.keep)⟩ := by
    rw [Lambda.translate_eq]
    exact Definition.params_trim S.keep l.definition
  have allowed := function.definition
  have part : ∀ {e}, e ∈ l.definition.parts → S.Allows e := fun member => allowed.part member
  have absent : S.unhandled = true → l.definition.handler = none := fun unhandled =>
    (S.bare unhandled).2 _ (allowed.root (S.bare unhandled).1)
  simp only [Evaluation.invoke, params, List.length_map, count]
  split
  · exact failSame fun _ => rfl
  · rw [Lambda.translate_eq]
    simp only [Setting.image, Translation.trimming, Definition.body_trim, Definition.handler_trim]
    refine .within .function (fun other => by cases other) fun j j' => ?_
    refine .bind (setCaptured function.captured) fun _ _ _ => ?_
    refine .bind (setParams l.definition.params (fun e member => part ?_) related) fun _ _ _ => ?_
    · exact List.mem_cons_of_mem _ (List.mem_append_left _ member)
    · refine guarded (fun e member => part ?_) absent (.run (part (List.mem_cons_self ..)))
      exact List.mem_cons_of_mem _ (List.mem_append_right _ member)

theorem unbox {v v' : Evaluated} (related : S.result v v') :
    Alike S μ i i' S.result (fun r => Evaluation.unbox r v i)
      (fun r => Evaluation.unbox r v' i') := by
  have content := related.content
  have carried : S.Related Overrides.translate v.overrides v'.overrides :=
    related.map Evaluated.overrides Evaluated.overrides_translate
  unfold Evaluation.unbox
  rw [content.image]
  cases shape : v.value with
  | lambda l =>
      have function : S.value (.lambda l) (.lambda (l.translate S.image)) := by
        refine ⟨rfl, fun plain => ?_⟩
        rw [← shape]
        exact content.inert plain
      have access : (l.translate S.image).definition.invokesOnAccess =
          l.definition.invokesOnAccess := by
        rw [Lambda.translate_eq]
        exact Definition.invokesOnAccess_trim S.keep l.definition
      simp only [Value.translate_lambda, access]
      split
      · refine .bind (.once function (invoke function .nil)) fun w w' results => ?_
        have empty : w'.overrides.isEmpty = w.overrides.isEmpty :=
          results.same (fun w => w.overrides.isEmpty) fun τ w => by simp
        simp only [empty]
        split
        · exact .pure (results.map₂ carried (fun w o => { w with overrides := o })
            fun τ w o => by cases w; rfl)
        · exact .pure results
      · exact .pure related
  | _ => exact .pure related

theorem forked {e : Expr} (allowed : S.Allows e) {v v' : Evaluated} (related : S.result v v') :
    Alike S μ i i' S.result (fun r => Evaluation.forked r e i v)
      (fun r => Evaluation.forked r (e.trim S.keep) i' v') :=
  .within .scope (fun other => by cases other) fun _ _ =>
    .bind (setCurrent related) fun _ _ _ => .run allowed

theorem invokeArgs {v v' : Evaluated} (related : S.result v v') (es : List Expr)
    (allowed : ∀ e ∈ es, S.Allows e) :
    Alike S μ i i' S.results (fun r => Evaluation.invokeArgs r i v es)
      (fun r => Evaluation.invokeArgs r i' v' (es.map (Expr.trim S.keep))) := by
  induction es with
  | nil => exact .pure .nil
  | cons e rest ih =>
      have others := ih fun e member => allowed e (List.mem_cons_of_mem _ member)
      refine .bind (forked (allowed e (List.mem_cons_self ..)) related) fun w w' first => ?_
      exact .bind others fun ws ws' more => .pure (first.cons more)

theorem invokeExpr {target : Expr} {args : List Expr} (callee : S.Allows target)
    (allowed : ∀ e ∈ args, S.Allows e) :
    Alike S μ i i' S.result (fun r => Evaluation.invokeExpr r target args i)
      (fun r => Evaluation.invokeExpr r (target.trim S.keep) (args.map (Expr.trim S.keep)) i') := by
  refine .bind (.run callee) fun f f' callees => ?_
  have content := callees.content
  rw [content.image]
  cases shape : f.value with
  | lambda l =>
      rw [shape] at content
      refine .bind .current fun v v' currents => ?_
      exact .bind (invokeArgs currents args allowed) fun _ _ values => invoke content values
  | bool b => cases b <;> exact failSame fun _ => rfl
  | _ => exact failSame fun _ => rfl

/-! ## Operators -/

theorem delegate (symbol : String) {l l' : Evaluated} (left : S.result l l')
    {r r' : Option Evaluated}
    (right : S.Related (fun τ => Option.map (Evaluated.translate τ)) r r') :
    Alike S μ i i' (S.Related fun τ => Option.map (Evaluated.translate τ))
      (fun run => Evaluation.delegate run symbol l r i)
      (fun run => Evaluation.delegate run symbol l' r' i') := by
  have winner : S.Related
      (fun τ => Option.map fun w : Override × Overrides => (w.1.translate τ, w.2.translate τ))
      (Evaluation.winner? symbol l r) (Evaluation.winner? symbol l' r') := by
    refine left.map₂ right (Evaluation.winner? symbol) fun τ l r => ?_
    simp only [Evaluation.winner?, Evaluated.overrides_translate, Overrides.find?_translate]
    cases l.overrides.find? symbol with
    | some o => rfl
    | none =>
        cases r with
        | none => rfl
        | some r =>
            simp only [Option.map_none, Option.map_some, Evaluated.overrides_translate,
              Overrides.find?_translate, Option.map_map]
            rfl
  unfold Evaluation.delegate
  cases decided : Evaluation.winner? symbol l r with
  | none =>
      rw [decided] at winner
      obtain ⟨none', -⟩ := winner
      rw [none']
      exact .pure (.const fun _ => rfl)
  | some w =>
      obtain ⟨o, overrides⟩ := w
      rw [decided] at winner
      obtain ⟨image, inert⟩ := winner
      have function : S.Related Override.translate o (o.translate S.image) :=
        ⟨rfl, fun plain => congrArg Prod.fst (Option.some.inj (inert plain))⟩
      have carried : S.Related Overrides.translate overrides (overrides.translate S.image) :=
        ⟨rfl, fun plain => congrArg Prod.snd (Option.some.inj (inert plain))⟩
      obtain ⟨l₀, cascade⟩ := o
      rw [image]
      have resting : ∀ (τ : Translation) (v : Evaluated),
          (⟨v.value.translate τ, (v.overrides.translate τ).deactivated⟩ : Evaluated) =
            Evaluated.translate τ ⟨v.value, v.overrides.deactivated⟩ := by
        intro τ v
        rw [Evaluated.translate, Overrides.translate_deactivated]
      have operands : S.results
          ({ l with overrides := l.overrides.deactivated } ::
            (r.map fun v => { v with overrides := v.overrides.deactivated }).toList)
          ({ l' with overrides := l'.overrides.deactivated } ::
            (r'.map fun v => { v with overrides := v.overrides.deactivated }).toList) := by
        refine left.map₂ right (fun l r => { l with overrides := l.overrides.deactivated } ::
            (r.map fun v => { v with overrides := v.overrides.deactivated }).toList) fun τ l r => ?_
        cases r with
        | none => simp [resting]
        | some r => simp [resting]
      refine .bind (invoke function.function operands) fun w w' results => .pure ?_
      refine results.content.map₂ carried (fun (v : Value) (o : Overrides) =>
        some (Evaluated.mk v (if cascade then o.activated else .none))) fun τ v o => ?_
      cases cascade with
      | false => rfl
      | true =>
          exact congrArg (fun o => some (Evaluated.mk (v.translate τ) o))
            (Overrides.translate_activated τ o).symm

theorem binaryExpr (op : BinaryOp) {left right : Expr} (first : S.Allows left)
    (second : S.Allows right) :
    Alike S μ i i' S.result (fun r => Evaluation.binaryExpr r op left right i)
      (fun r => Evaluation.binaryExpr r op (left.trim S.keep) (right.trim S.keep) i') := by
  refine .bind .current fun v v' currents => ?_
  refine .bind (forked first currents) fun l l' lefts => ?_
  refine .bind (forked second currents) fun r r' rights => ?_
  refine .bind (unbox lefts) fun l l' lefts => ?_
  refine .bind (unbox rights) fun r r' rights => ?_
  have operand : S.Related (fun τ => Option.map (Evaluated.translate τ)) (some r) (some r') :=
    rights.map some fun _ _ => rfl
  refine .bind (delegate op.symbol lefts operand) fun o o' decisions => ?_
  cases o with
  | some result =>
      obtain ⟨rfl, inert⟩ := decisions
      exact .pure ⟨rfl, fun plain => Option.some.inj (inert plain)⟩
  | none =>
      obtain ⟨rfl, -⟩ := decisions
      have values : S.Related (fun τ => translateResult τ) (Operation.binary op l.value r.value)
          (Operation.binary op l'.value r'.value) :=
        lefts.map₂ rights (fun l r => Operation.binary op l.value r.value) fun τ l r => by
          simp only [Evaluated.value_translate, Operation.binary_translate]
      exact .bind (ofResult values) fun w w' same => .pure same.plainly

theorem unaryExpr (op : UnaryOp) {operand : Expr} (allowed : S.Allows operand) :
    Alike S μ i i' S.result (fun r => Evaluation.unaryExpr r op operand i)
      (fun r => Evaluation.unaryExpr r op (operand.trim S.keep) i') := by
  refine .bind (.run allowed) fun v v' values => ?_
  refine .bind (unbox values) fun v v' values => ?_
  refine .bind (delegate op.overrideSymbol values (.const fun _ => rfl)) fun o o' decisions => ?_
  cases o with
  | some result =>
      obtain ⟨rfl, inert⟩ := decisions
      exact .pure ⟨rfl, fun plain => Option.some.inj (inert plain)⟩
  | none =>
      obtain ⟨rfl, -⟩ := decisions
      have results : S.Related (fun τ => translateResult τ) (Operation.unary op v.value)
          (Operation.unary op v'.value) :=
        values.map (fun v => Operation.unary op v.value) fun τ v => by
          simp only [Evaluated.value_translate, Operation.unary_translate]
      exact .bind (ofResult results) fun w w' same => .pure same.plainly

end Alike

/-! ## Where there are no functions -/

/-- No functions occur among the values. -/
def Setting.FunctionFree (S : Setting) : Prop :=
  ∀ l u, ¬ S.value (.lambda l) u

namespace Setting.FunctionFree

variable (free : S.FunctionFree) {v v' : Evaluated}

include free

theorem unbox (related : S.result v v') (r : Runner) (i : Nat) :
    Evaluation.unbox r v i = pure v := by
  have content := related.content
  unfold Evaluation.unbox
  split
  · rename_i l shape
    rw [shape] at content
    exact (free l _ content).elim
  · rfl

theorem find? (related : S.result v v') (symbol : String) :
    v.overrides.find? symbol = none := by
  have found : S.Related (fun τ => Option.map (Override.translate τ))
      (v.overrides.find? symbol) (v'.overrides.find? symbol) :=
    related.map (fun v => v.overrides.find? symbol) fun τ v => by
      rw [Evaluated.overrides_translate, Overrides.find?_translate]
  cases here : v.overrides.find? symbol with
  | none => rfl
  | some o =>
      rw [here] at found
      have function : S.Related Override.translate o (o.translate S.image) :=
        ⟨rfl, fun plain => Option.some.inj (found.inert plain)⟩
      exact (free _ _ function.function).elim

/-- No operand has an override. -/
theorem delegate (left : S.result v v') (right : Option Evaluated)
    (others : ∀ u ∈ right, ∃ u', S.result u u') (r : Runner) (symbol : String) (i : Nat) :
    Evaluation.delegate r symbol v right i = pure none := by
  have winner : Evaluation.winner? symbol v right = none := by
    unfold Evaluation.winner?
    rw [free.find? left]
    cases right with
    | none => rfl
    | some u =>
        obtain ⟨u', related⟩ := others u rfl
        simp only [free.find? related, Option.map_none]
  rw [Evaluation.delegate, winner]

end Setting.FunctionFree

/-! ## Calls of library functions -/

namespace Alike

theorem callArgs {v v' : Evaluated} (related : S.result v v') (es : List Expr)
    (allowed : ∀ e ∈ es, S.Allows e) :
    Alike S μ i i' S.results (fun r => Evaluation.callArgs r i v es)
      (fun r => Evaluation.callArgs r i' v' (es.map (Expr.trim S.keep))) := by
  induction es with
  | nil => exact .pure .nil
  | cons e rest ih =>
      have others := ih fun e member => allowed e (List.mem_cons_of_mem _ member)
      refine .bind (forked (allowed e (List.mem_cons_self ..)) related) fun w w' first => ?_
      refine .bind (unbox first) fun w w' first => ?_
      exact .bind others fun ws ws' more => .pure (first.cons more)

/-- The functions that need nothing but their arguments, and the error for arguments that do not
fit. -/
theorem library (f : Function) (library name : String) {args args' : List Evaluated}
    (related : S.results args args') :
    Alike S μ i i' S.result
      (fun _ => match f.result? (args.map Evaluated.value) with
        | some (.ok v) => Pure.pure (Evaluated.plain v)
        | some (.error e) => Eval.fail (e.toFault library name)
        | none => Eval.fail
            ((Library.CallError.doNotFit args.length library name).toFault library name))
      (fun _ => match f.result? (args'.map Evaluated.value) with
        | some (.ok v) => Pure.pure (Evaluated.plain v)
        | some (.error e) => Eval.fail (e.toFault library name)
        | none => Eval.fail
            ((Library.CallError.doNotFit args'.length library name).toFault library name)) := by
  have results : S.Related (fun τ => Option.map (Except.map (Value.translate τ)))
      (f.result? (args.map Evaluated.value)) (f.result? (args'.map Evaluated.value)) :=
    related.contents.map f.result? fun τ args => Function.result?_translate τ f args
  have count : args'.length = args.length :=
    related.same List.length fun _ _ => List.length_map ..
  obtain ⟨image, inert⟩ := results
  rw [image, count]
  rcases given : f.result? (args.map Evaluated.value) with _ | e | v
  · exact failSame fun τ => Library.CallError.translate_toFault τ _ library name
  · exact failSame fun τ => Library.CallError.translate_toFault τ e library name
  · rw [given] at inert
    have values : S.value v (v.translate S.image) :=
      ⟨rfl, fun plain => Except.ok.inj (Option.some.inj (inert plain))⟩
    exact .pure values.plainly

theorem dispatch {f : Function} {exprs : List Expr}
    (allowed : S.Allows (.call f.fullName.1 f.fullName.2 exprs))
    {args args' : List Evaluated} (related : S.results args args') :
    Alike S μ i i' S.result (fun _ => Evaluation.dispatch f args i)
      (fun _ => Evaluation.dispatch f args' i') := by
  have other : Alike S μ i i' S.result _ _ := library f f.fullName.1 f.fullName.2 related
  cases f with
  | coreCopy =>
      obtain ⟨rfl, inert⟩ := related
      rcases args with _ | ⟨v, _ | ⟨w, rest⟩⟩
      · exact other
      · exact .pure ⟨rfl, fun plain => (List.cons.inj (inert plain)).1⟩
      · exact other
  | pathCurrent =>
      obtain ⟨rfl, -⟩ := related
      cases args with
      | nil =>
          refine .bind .cursor fun a a' cursors => .pure ?_
          refine cursors.map (fun a => Evaluated.plain ((a.map Value.address).getD .empty))
            fun τ a => ?_
          cases a <;> rfl
      | cons v rest => exact other
  | errorHandled =>
      obtain ⟨rfl, -⟩ := related
      rcases args with _ | ⟨⟨v, o⟩, _ | ⟨w, rest⟩⟩
      · exact other
      · cases v with
        | bool flag =>
            exact .bind (.markHandled allowed flag) fun v v' values => .pure values.plainly
        | _ => exact other
      · cases v <;> exact other
  | stateGet =>
      rcases args with _ | ⟨⟨v, o⟩, _ | ⟨w, _ | ⟨u, rest⟩⟩⟩
      · obtain ⟨rfl, -⟩ := related
        exact other
      · obtain ⟨rfl, -⟩ := related
        cases v with
        | text key =>
            refine .bind (.withStore allowed fun n b => ?_) fun v v' values => .pure values.plainly
            exact .const fun τ => (Store.Backend.get_translate τ n key none b).symm
        | _ => exact other
      · obtain ⟨_, _, rfl, first, more⟩ := related.uncons
        obtain ⟨w', _, rfl, default, rest⟩ := more.uncons
        obtain ⟨rfl, -⟩ := first
        obtain ⟨rfl, -⟩ := rest
        cases v with
        | text key =>
            refine .bind (.withStore allowed fun n b => ?_) fun v v' values => .pure values.plainly
            exact default.content.map (fun v => b.get n key (some v)) fun τ v =>
              Store.Backend.get_translate τ n key (some v) b
        | _ => exact other
      · obtain ⟨rfl, -⟩ := related
        cases v <;> exact other
  | stateSet =>
      rcases args with _ | ⟨⟨v, o⟩, _ | ⟨w, _ | ⟨u, rest⟩⟩⟩
      · obtain ⟨rfl, -⟩ := related
        exact other
      · obtain ⟨rfl, -⟩ := related
        cases v <;> exact other
      · obtain ⟨_, _, rfl, first, more⟩ := related.uncons
        obtain ⟨w', _, rfl, content, rest⟩ := more.uncons
        obtain ⟨rfl, -⟩ := first
        obtain ⟨rfl, -⟩ := rest
        cases v with
        | text key =>
            have stored : Alike S μ i i' (S.Related fun _ (u : Unit) => u)
                (fun _ => Evaluation.withStore (fun n b => b.set n key w.value) "state" "set")
                (fun _ => Evaluation.withStore (fun n b => b.set n key w'.value) "state" "set") := by
              refine .withStore allowed fun n b => ?_
              refine content.content.map (fun v => b.set n key v) fun τ v => ?_
              rw [Store.Backend.set, Store.encode_translate]
              change b.set n key v = _
              rcases b.set n key v with ⟨_ | _, _⟩ <;> rfl
            exact .bind stored fun _ _ _ => .pure content.content.plainly
        | _ => exact other
      · obtain ⟨rfl, -⟩ := related
        cases v <;> exact other
  | streamCollect =>
      obtain ⟨rfl, inert⟩ := related
      rcases args with _ | ⟨⟨v, o⟩, _ | ⟨w, rest⟩⟩
      · exact other
      · cases v with
        | stream id =>
            have source : S.value (.stream id) (.stream id) := ⟨rfl, fun plain =>
              congrArg Evaluated.value (List.cons.inj (inert plain)).1⟩
            refine .bind (.drain source) fun items items' same => .pure ?_
            have collected : S.value (Library.collected items) (Library.collected items') :=
              same.map Library.collected Library.collected_translate
            exact collected.plainly
        | _ => exact other
      · cases v <;> exact other
  | _ =>
      obtain ⟨rfl, -⟩ := related
      exact other

theorem callExpr {library name : String} {args : List Expr}
    (allowed : S.Allows (.call library name args)) :
    Alike S μ i i' S.result (fun r => Evaluation.callExpr r library name args i)
      (fun r => Evaluation.callExpr r library name (args.map (Expr.trim S.keep)) i') := by
  have refused : ∀ (e : Library.SignatureError) (τ : Translation),
      ((Library.CallError.signature e).toFault library name).translate τ =
        (Library.CallError.signature e).toFault library name :=
    fun e τ => Library.CallError.translate_toFault τ _ library name
  have checked : ∀ o : Except Library.SignatureError Unit, Alike S μ i i' Eq
      (fun _ => Eval.ofExcept
        (o.mapError fun e => (Library.CallError.signature e).toFault library name))
      (fun _ => Eval.ofExcept
        (o.mapError fun e => (Library.CallError.signature e).toFault library name)) := by
    intro o
    cases o with
    | error e => exact failSame (refused e)
    | ok u => exact .pure rfl
  unfold Evaluation.callExpr
  rw [List.length_map]
  refine .bind (R := fun f f' => f = f' ∧ Function.lookup library name = .ok f) ?_
    fun f f' looked => ?_
  · cases found : Function.lookup library name with
    | error e => exact failSame (refused e)
    | ok f => exact .pure ⟨rfl, rfl⟩
  · obtain ⟨rfl, found⟩ := looked
    refine .bind (checked _) fun _ _ _ => ?_
    refine .bind .current fun v v' currents => ?_
    refine .bind (callArgs currents args fun e member => allowed.part member)
      fun values values' same => ?_
    have types : f.signature.checkTypes (values'.map Evaluated.value) =
        f.signature.checkTypes (values.map Evaluated.value) :=
      same.contents.same f.signature.checkTypes fun τ values =>
        Library.checkTypes_translate τ f.signature values
    rw [types]
    refine .bind (checked _) fun _ _ _ => ?_
    have named := Function.fullName_of_lookup found
    exact dispatch (by rw [named]; exact allowed) same

end Alike

end TreeQuery
