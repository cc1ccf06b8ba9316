import TreeQuery.Proofs.Lockstep.Rules

/-!
# Handlers and scopes go in lockstep

Errors, handlers and let-bindings, with the evaluation of their parts left open, are alike to the
same with the handlers taken out, or kept, as the setting says. A handler that is kept is run on
both sides (`Alike.guarded`); a scope with let-bindings is opened, prepared and left on both
(`Alike.letScope`).
-/

set_option autoImplicit false

namespace TreeQuery

variable {S : Setting} {μ : Mode} {i i' : Nat}

namespace Alike

/-! ## Failing -/

theorem fail {α : Type} {R : α → α → Prop} {f f' : Fault} (related : S.fault f f') :
    Alike S μ i i' R (fun _ => Eval.fail f) (fun _ => Eval.fail f') :=
  .throw (related.map Signal.fault fun _ _ => rfl)

/-- An error that holds nothing to translate. -/
theorem failSame {α : Type} {R : α → α → Prop} {f : Fault} (untouched : ∀ τ, f.translate τ = f) :
    Alike S μ i i' R (fun _ => Eval.fail f) (fun _ => Eval.fail f) :=
  fail (.const untouched)

theorem ofResult {o o' : Except Fault Value}
    (related : S.Related (fun τ => translateResult τ) o o') :
    Alike S μ i i' S.value (fun _ => Eval.ofExcept o) (fun _ => Eval.ofExcept o') := by
  obtain ⟨rfl, inert⟩ := related
  cases o with
  | ok v => exact .pure ⟨rfl, fun plain => Except.ok.inj (inert plain)⟩
  | error f => exact fail ⟨rfl, fun plain => Except.error.inj (inert plain)⟩

/-! ## Handlers -/

theorem setCurrent {v v' : Evaluated} (related : S.result v v') :
    Alike S .own i i' Eq (fun _ => Eval.onChain fun c => c.setCurrent i v)
      (fun _ => Eval.onChain fun c => c.setCurrent i' v') :=
  .setValue Chain.currentName related

end Alike

/-- Outcomes with a flag. -/
def Setting.outcome (S : Setting) (o o' : Except Signal Evaluated × Bool) : Prop :=
  match o, o' with
  | (.ok v, flag), (.ok v', flag') => S.result v v' ∧ flag = flag'
  | (.error s, flag), (.error s', flag') => S.signal s s' ∧ flag = flag'
  | _, _ => False

namespace Alike

theorem handle {h : Handler} (kept : S.keep = true) (handlers : S.unhandled = false)
    (allowed : S.Allows h.body) {caught caught' : Fault} (related : S.fault caught caught') :
    Alike S μ i i' S.outcome (fun r => Evaluation.handle r i h caught)
      (fun r => Evaluation.handle r i' (h.trim S.keep) caught') := by
  have error : S.result (.plain (.fault caught)) (.plain (.fault caught')) :=
    related.map (fun f => Evaluated.plain (.fault f)) fun _ _ => rfl
  unfold Evaluation.handle
  rw [Handler.body_trim, Handler.handled_trim]
  refine .within .handler (fun _ => kept) fun j j' => ?_
  refine .bind (setCurrent error) fun _ _ _ => ?_
  refine .bind (.setValue Chain.errorName error) fun _ _ _ => ?_
  refine .bind (.setHandled h.handled) fun _ _ _ => ?_
  refine .catching (.run allowed) (fun v v' values => ?_) (fun s s' signals => ?_)
    (fun unhandled => ?_) fun dropped => ?_
  · refine .bind .isHandled fun flag flag' flags => ?_
    exact .pure ⟨values, flags⟩
  · refine .bind .isHandled fun flag flag' flags => ?_
    exact .pure ⟨signals, flags⟩
  · cases unhandled.symm.trans handlers
  · cases dropped.symm.trans kept

/-- What becomes of the outcome of a handler. -/
theorem afterHandling {caught caught' : Fault} (faults : S.fault caught caught')
    (o o' : Except Signal Evaluated × Bool) : S.outcome o o' →
    Alike S μ i i' S.result
      (fun _ => match o with
        | (.ok recovered, handled) => if handled then Pure.pure recovered else Eval.fail caught
        | (.error (.fault secondary), _) => Eval.fail (secondary.wrapping caught)
        | (.error control, _) => MonadExcept.throw control)
      (fun _ => match o' with
        | (.ok recovered, handled) => if handled then Pure.pure recovered else Eval.fail caught'
        | (.error (.fault secondary), _) => Eval.fail (secondary.wrapping caught')
        | (.error control, _) => MonadExcept.throw control) := by
  intro outcomes
  obtain ⟨o, flag⟩ := o
  obtain ⟨o', flag'⟩ := o'
  cases o with
  | ok v =>
      cases o' with
      | error s' => exact outcomes.elim
      | ok v' =>
          obtain ⟨values, rfl⟩ := outcomes
          cases flag with
          | true => exact .pure values
          | false => exact fail faults
  | error s =>
      cases o' with
      | ok v' => exact outcomes.elim
      | error s' =>
          obtain ⟨⟨rfl, inert⟩, -⟩ := outcomes
          cases s with
          | fault secondary =>
              have replaced : S.fault secondary (secondary.translate S.image) :=
                ⟨rfl, fun plain => Signal.fault.inj (inert plain)⟩
              exact fail (replaced.map₂ faults Fault.wrapping fun τ f c =>
                (Fault.translate_wrapping τ f c).symm)
          | _ => exact .throw ⟨rfl, inert⟩

theorem guarded {h : Option Handler} (allowed : ∀ e ∈ Handler.parts h, S.Allows e)
    (absent : S.unhandled = true → h = none) {x x' : Runner → Eval Evaluated} (body : Alike S μ i i' S.result x x') :
    Alike S μ i i' S.result (fun r => Evaluation.guarded r i h (x r))
      (fun r => Evaluation.guarded r i' (Handler.trimOption S.keep h) (x' r)) := by
  cases h with
  | none => exact body
  | some h =>
      cases kept : S.keep with
      | false => exact .unguarded h kept body
      | true =>
          rw [← kept]
          have handlers : S.unhandled = false := by
            cases unhandled : S.unhandled with
            | false => rfl
            | true => cases absent unhandled
          have handling : S.Allows h.body := allowed h.body (List.mem_singleton_self _)
          have trimmed : Handler.trimOption S.keep (some h) = some (h.trim S.keep) := by
            rw [Handler.trimOption, if_pos kept]
          rw [trimmed]
          unfold Evaluation.guarded
          refine .catching body (fun v v' values => .pure values) (fun s s' signals => ?_)
            (fun unhandled => ?_) fun dropped => ?_
          · obtain ⟨rfl, inert⟩ := signals
            cases s with
            | fault caught =>
                have faults : S.fault caught (caught.translate S.image) :=
                  ⟨rfl, fun plain => Signal.fault.inj (inert plain)⟩
                refine .bind (handle kept handlers handling faults) fun o o' outcomes => ?_
                exact afterHandling faults o o' outcomes
            | _ => exact .throw ⟨rfl, inert⟩
          · cases unhandled.symm.trans handlers
          · cases dropped.symm.trans kept

/-! ## Let-bindings -/

theorem compute {b : Binding} (allowed : S.AllowsBinding b) :
    Alike S μ i i' S.result (fun r => Evaluation.compute r i b)
      (fun r => Evaluation.compute r i' (b.trim S.keep)) := by
  unfold Evaluation.compute
  rw [Binding.expr_trim, Binding.handler_trim]
  refine .within .binding (fun other => by cases other) fun j j' => ?_
  exact guarded (fun _ member => allowed.handling member) allowed.handler
    (.run (allowed.part (List.mem_cons_self ..)))

theorem forceEager {bindings : List Binding} (allowed : S.AllowsLet bindings) (bs : List Binding)
    (inside : bs ⊆ bindings) :
    Alike S (.letting bindings) i i' Eq (fun r => Evaluation.forceEager r i bs)
      (fun r => Evaluation.forceEager r i' (bs.map (Binding.trim S.keep))) := by
  induction bs with
  | nil => exact .pure rfl
  | cons b rest ih =>
      have member : b ∈ bindings := inside (List.mem_cons_self ..)
      have may := allowed.each member
      refine .bind (.prefetch member may fun _ _ => compute may) fun _ _ _ => ?_
      exact ih fun _ later => inside (List.mem_cons_of_mem _ later)

end Alike

namespace Evaluation

theorem declareAll_eq (i : Nat) (bindings : List Binding) :
    declareAll i bindings = fun m =>
      (.ok (), m.onChain fun c => bindings.foldl (fun c b => c.declare i b) c) := by
  induction bindings with
  | nil => rfl
  | cons b rest ih =>
      rw [declareAll, ih]
      rfl

/-- Declaring let-bindings cannot fail, so it makes no difference to a handler. -/
theorem letScope_eq (run : Runner) (kind : FrameKind) (bindings : List Binding) (body : Expr)
    (handler : Option Handler) (frame : Nat) :
    letScope run kind bindings body handler frame = (run.within kind frame fun i => do
      declareAll i bindings
      let outcome ← Eval.attempt (guarded run i handler do
        forceEager run i bindings
        run body i)
      match outcome with
      | .ok v => return v
      | .error (.stop reason v) =>
        if kind = .select then return .plain v else throw (.stop reason v)
      | .error signal => throw signal) := by
  unfold letScope
  congr
  funext i
  rw [declareAll_eq]
  cases handler <;> rfl

end Evaluation

namespace Alike

theorem letScope {kind : FrameKind} (handlers : kind ≠ .handler) {bindings : List Binding}
    {body : Expr} {handler : Option Handler} (lets : S.AllowsLet bindings)
    (inside : S.Allows body) (handling : ∀ e ∈ Handler.parts handler, S.Allows e)
    (absent : S.unhandled = true → handler = none) :
    Alike S μ i i' S.result (fun r => Evaluation.letScope r kind bindings body handler i)
      (fun r => Evaluation.letScope r kind (Binding.trimList S.keep bindings) (body.trim S.keep)
        (Handler.trimOption S.keep handler) i') := by
  simp only [Evaluation.letScope_eq, Binding.trimList_eq]
  refine .letting kind handlers lets fun j j' => ?_
  have entered : Alike S (.letting bindings) j j' S.result
      (fun r => do
        Evaluation.forceEager r j bindings
        r body j)
      (fun r => do
        Evaluation.forceEager r j' (bindings.map (Binding.trim S.keep))
        r (body.trim S.keep) j') :=
    .bind (forceEager lets bindings (List.Subset.refl _)) fun _ _ _ => .run inside
  refine .catching (guarded handling absent entered) (fun v v' values => .pure values)
    (fun s s' signals => ?_) (fun _ _ => rfl) fun _ _ => rfl
  obtain ⟨rfl, inert⟩ := signals
  cases s with
  | stop reason v =>
      have values : S.value v (v.translate S.image) :=
        ⟨rfl, fun plain => (Signal.stop.inj (inert plain)).2⟩
      cases kind with
      | select => exact .pure values.plainly
      | _ => exact .throw ⟨rfl, inert⟩
  | _ => exact .throw ⟨rfl, inert⟩

end Alike

end TreeQuery
