import Mathlib
import TreeQuery.Proofs.Handlers.Erased
import TreeQuery.Proofs.Watch

/-!
# Handlers are invisible where nothing fails

A program runs like the same program without its handlers for as long as the latter does not fail:
it ends in the same value or signal, leaves the same machine, and opens no frame for a handler
(`Machine.runRoot_erase`). The two runs go in lockstep (`Follows`). A handler lets values and
signals other than errors pass, so it is enough that the guarded computation follows the one without
the handler; and where an error would be held up on one side only, the other side has failed
already.
-/

set_option autoImplicit false

namespace TreeQuery

/-- A program is compared with the same program without handlers. -/
abbrev Setting.erasing : Setting := .basic false false false

theorem Setting.Related.erased {α : Type} {act : Translation → α → α} {a a' : α}
    (related : Setting.erasing.Related act a a') : a' = act .erasing a :=
  related.image

/-- An outcome that is no error. -/
def Calm {α : Type} (outcome : Except Signal α) : Prop :=
  ∀ f, outcome ≠ .error (.fault f)

/-- A run on a machine and the run without handlers on the machine without handlers. -/
structure FollowsAt (w r : Runner) {α : Type} (R : α → α → Prop) (x x' : Runner → Eval α)
    (m : Machine) : Prop where
  agree : x w m = x r m
  state : (x' r m.erase).2 = (x r m).2.erase
  outcome : Setting.erasing.Matches R (x r m).1 (x' r m.erase).1

/-- A computation follows the one without handlers for as long as that one does not fail. -/
def Follows (w r : Runner) {α : Type} (R : α → α → Prop) (x x' : Runner → Eval α) : Prop :=
  ∀ m, Calm (x' r m.erase).1 → FollowsAt w r R x x' m

/-- Evaluation follows evaluation without handlers, and opens frames as usual, but for those of
handlers. -/
structure FollowsRunner (w r : Runner) : Prop where
  eval : ∀ e i, Follows w r Setting.erasing.result (fun r => r e i) (fun r => r (e.trim false) i)
  within : ∀ {α : Type} {kind : FrameKind}, kind ≠ .handler →
    ∀ (i : Nat) (body : Nat → Eval α), w.within kind i body = Eval.within kind i body
  opens : ∀ {α : Type} (kind : FrameKind) (i : Nat) (body : Nat → Eval α),
    r.within kind i body = Eval.within kind i body

variable {w r : Runner} {α β : Type} {R : α → α → Prop} {Q : β → β → Prop}
  {x x' : Runner → Eval α} {m : Machine}

namespace FollowsAt

theorem of_runs {o o' : Except Signal α} {after : Machine} (watched : x w m = (o, after))
    (run : x r m = (o, after)) (erased : x' r m.erase = (o', after.erase))
    (outcome : Setting.erasing.Matches R o o') : FollowsAt w r R x x' m := by
  refine ⟨watched.trans run.symm, ?_, ?_⟩
  · rw [erased, run]
  · rw [erased, run]
    exact outcome

/-- A run that goes on like another one. -/
theorem of_follows {y y' : Runner → Eval α} {n : Machine} (watched : x w m = y w n)
    (run : x r m = y r n) (erased : x' r m.erase = y' r n.erase) (calm : Calm (x' r m.erase).1)
    (follows : Follows w r R y y') : FollowsAt w r R x x' m := by
  rw [erased] at calm
  have onwards := follows n calm
  refine ⟨watched.trans (onwards.agree.trans run.symm), ?_, ?_⟩
  · rw [erased, run]
    exact onwards.state
  · rw [erased, run]
    exact onwards.outcome

/-- The two runs, opened up. -/
theorem runs (follows : FollowsAt w r R x x' m) : ∃ o o' after, x w m = (o, after) ∧
    x r m = (o, after) ∧ x' r m.erase = (o', after.erase) ∧ Setting.erasing.Matches R o o' :=
  ⟨(x r m).1, (x' r m.erase).1, (x r m).2, follows.agree, rfl,
    Prod.ext rfl follows.state, follows.outcome⟩

end FollowsAt

namespace Follows

/-! ## Steps in sequence -/

/-- Without handlers an error is never held up, so there is none. -/
theorem catching {f f' : Except Signal α → Runner → Eval β} (first : Follows w r R x x')
    (returned : ∀ a a', R a a' → Follows w r Q (f (.ok a)) (f' (.ok a')))
    (signalled : ∀ s s', Setting.erasing.signal s s' → Follows w r Q (f (.error s)) (f' (.error s')))
    (passed : ∀ c, f' (.error (.fault c)) = fun _ => throw (.fault c)) :
    Follows w r Q (fun r => Eval.attempt (x r) >>= fun o => f o r)
      (fun r => Eval.attempt (x' r) >>= fun o => f' o r) := by
  intro m calm
  have before : Calm (x' r m.erase).1 := by
    intro fault failed
    refine calm fault ?_
    simp only [Eval.attempt_bind, failed, passed]
    rfl
  obtain ⟨o, o', after, watched, run, erased, outcome⟩ := (first m before).runs
  have onwards : Follows w r Q (f o) (f' o') := by
    cases outcome with
    | ok related => exact returned _ _ related
    | error related => exact signalled _ _ related
  refine .of_follows (n := after) ?_ ?_ ?_ calm onwards
  · rw [Eval.attempt_bind, watched]
  · rw [Eval.attempt_bind, run]
  · rw [Eval.attempt_bind, erased]

theorem bind {f f' : α → Runner → Eval β} (first : Follows w r R x x')
    (next : ∀ a a', R a a' → Follows w r Q (f a) (f' a')) :
    Follows w r Q (fun r => x r >>= fun a => f a r) (fun r => x' r >>= fun a => f' a r) := by
  rw [Eval.bind_eq_attempt_open x f, Eval.bind_eq_attempt_open x' f']
  exact catching first next (fun s s' related m _ => .of_runs rfl rfl rfl (.error related))
    fun _ => rfl

/-- A handler has nothing to do where nothing fails. -/
theorem guarded {x x' : Runner → Eval Evaluated} (i : Nat) (h : Handler)
    (body : Follows w r Setting.erasing.result x x') :
    Follows w r Setting.erasing.result (fun r => Evaluation.guarded r i (some h) (x r)) x' := by
  intro m calm
  obtain ⟨o, o', after, watched, run, erased, outcome⟩ := (body m calm).runs
  have passes : ∀ s : Runner, x s m = (o, after) →
      Evaluation.guarded s i (some h) (x s) m = (o, after) := by
    intro s ran
    change (Eval.attempt (x s) >>= _) m = _
    rw [Eval.attempt_bind, ran]
    cases o with
    | ok v => rfl
    | error signal =>
        cases signal with
        | fault caught =>
            cases outcome with
            | @error _ s' related =>
                rw [related.erased] at erased
                exact absurd (congrArg Prod.fst erased) (calm _)
        | _ => rfl
  exact .of_runs (passes w watched) (passes r run) erased outcome

/-- A frame comes and goes. -/
theorem within (runner : FollowsRunner w r) {kind : FrameKind} (apart : kind ≠ .handler) {i : Nat}
    {x x' : Nat → Runner → Eval α} (body : ∀ j, Follows w r R (x j) (x' j)) :
    Follows w r R (fun r => r.within kind i fun j => x j r)
      (fun r => r.within kind i fun j => x' j r) := by
  intro m calm
  simp only [runner.opens, Eval.within_apply, Machine.chain_erase, Chain.size_erase,
    ← Machine.erase_push] at calm
  obtain ⟨o, o', after, watched, run, erased, outcome⟩ := (body m.chain.size _ calm).runs
  have bare : (r.within kind i fun j => x' j r) m.erase =
      (o', (after.onChain fun c => c.truncate m.chain.size).erase) := by
    rw [runner.opens, Eval.within_apply, Machine.chain_erase, Chain.size_erase,
      ← Machine.erase_push, erased, Machine.erase_truncate]
  refine .of_runs ?_ ?_ bare outcome
  · rw [runner.within apart, Eval.within_apply, watched]
  · rw [runner.opens, Eval.within_apply, run]

theorem letting (runner : FollowsRunner w r) {kind : FrameKind} (apart : kind ≠ .handler) {i : Nat}
    {bindings : List Binding} {x x' : Nat → Runner → Eval α}
    (body : ∀ j, Follows w r R (x j) (x' j)) :
    Follows w r R
      (fun r => r.within kind i fun j => do
        Evaluation.declareAll j bindings
        x j r)
      (fun r => r.within kind i fun j => do
        Evaluation.declareAll j (bindings.map (Binding.trim false))
        x' j r) := by
  intro m calm
  simp only [runner.opens, Eval.letFrame_apply, Machine.chain_erase, Chain.size_erase,
    Machine.letFrame_erase] at calm
  obtain ⟨o, o', after, watched, run, erased, outcome⟩ := (body m.chain.size _ calm).runs
  have bare : (r.within kind i fun j => do
        Evaluation.declareAll j (bindings.map (Binding.trim false))
        x' j r) m.erase = (o', (after.onChain fun c => c.truncate m.chain.size).erase) := by
    rw [runner.opens, Eval.letFrame_apply, Machine.chain_erase, Chain.size_erase,
      Machine.letFrame_erase, erased, Machine.erase_truncate]
  refine .of_runs ?_ ?_ bare outcome
  · rw [runner.within apart, Eval.letFrame_apply, watched]
  · rw [runner.opens, Eval.letFrame_apply, run]

/-! ## The frames -/

/-- A computation that only looks. -/
theorem reads {f f' : Chain → α} (related : ∀ c : Chain, R (f c) (f' c.erase)) :
    Follows w r R (fun _ => Eval.ofChain f) (fun _ => Eval.ofChain f') :=
  fun m _ => .of_runs rfl rfl rfl (.ok (related m.chain))

/-- A change to the frames. -/
theorem changes {f f' : Chain → Chain} (commutes : ∀ c : Chain, (f c).erase = f' c.erase) :
    Follows w r Eq (fun _ => Eval.onChain f) (fun _ => Eval.onChain f') := by
  intro m _
  have erased : Eval.onChain f' m.erase = (.ok (), (m.onChain f).erase) := by
    rw [Machine.erase_onChain commutes]
    rfl
  exact .of_runs rfl rfl erased (.ok rfl)

/-! ## Let-bindings -/

theorem settle (b : Binding) {v v' : Evaluated} (related : Setting.erasing.result v v') :
    Follows w r (Setting.erasing.Related BindingConfig.translate)
      (fun _ => Evaluation.settle b v) (fun _ => Evaluation.settle (b.trim false) v') := by
  intro m calm
  have outcome : Evaluation.configOf m.settings v'.value =
      (Evaluation.configOf m.settings v.value).map (BindingConfig.translate .erasing) := by
    rw [related.erased, Evaluated.value_translate]
    exact Evaluation.configOf_translate .erasing m.settings v.value
  have settings : m.erase.settings = m.settings := rfl
  cases settled : Evaluation.configOf m.settings v.value with
  | error e =>
      have erased : Evaluation.settle (b.trim false) v' m.erase =
          (.error (.fault e.toFault), m.erase) := by
        simp only [Evaluation.settle, settings, outcome, settled, Except.map]
      exact absurd (congrArg Prod.fst erased) (calm _)
  | ok config =>
      have run : Evaluation.settle b v m = (.ok config, Evaluation.settled b config m) := by
        simp only [Evaluation.settle, settled]
      have erased : Evaluation.settle (b.trim false) v' m.erase =
          (.ok (config.translate .erasing), (Evaluation.settled b config m).erase) := by
        simp only [Evaluation.settle, settings, outcome, settled, Except.map,
          Evaluation.settled_erase]
      exact .of_runs run run erased (.ok (.of_effects rfl config))

theorem letConfig (runner : FollowsRunner w r) (b : Binding) (i : Nat) :
    Follows w r (Setting.erasing.Related BindingConfig.translate)
      (fun r => Evaluation.letConfig r b i)
      (fun r => Evaluation.letConfig r (b.trim false) i) := by
  intro m calm
  have lookup : Assoc.get? m.erase.configs (b.trim false).id =
      (Assoc.get? m.configs b.id).map (BindingConfig.translate .erasing) := by
    rw [Binding.id_trim]
    exact Assoc.get?_mapValues _ m.configs b.id
  cases known : Assoc.get? m.configs b.id with
  | some config =>
      rw [known] at lookup
      exact .of_runs (Evaluation.letConfig_known known) (Evaluation.letConfig_known known)
        (Evaluation.letConfig_known lookup) (.ok (.of_effects rfl config))
  | none =>
      rw [known] at lookup
      cases given : b.config with
      | none =>
          have bare : (b.trim false).config = none := by rw [Binding.config_trim, given]; rfl
          refine .of_runs (Evaluation.letConfig_default known given)
            (Evaluation.letConfig_default known given) ?_ (.ok (.of_effects rfl _))
          rw [Evaluation.letConfig_default lookup bare, ← Evaluation.settled_erase]
          rfl
      | some e =>
          have bare : (b.trim false).config = some (e.trim false) := by
            rw [Binding.config_trim, given]
            rfl
          have computed := (runner.eval e i).bind (f := fun v _ => Evaluation.settle b v)
            fun v v' related => settle b related
          exact .of_follows (Evaluation.letConfig_computed known given)
            (Evaluation.letConfig_computed known given) (Evaluation.letConfig_computed lookup bare)
            calm computed

theorem memoized {b : Binding} {i : Nat} (compute : Follows w r Setting.erasing.result
      (fun r => Evaluation.compute r i b) (fun r => Evaluation.compute r i (b.trim false)))
    (config : BindingConfig) : Follows w r Setting.erasing.result
      (fun r => Evaluation.memoized r i b config)
      (fun r => Evaluation.memoized r i (b.trim false) (config.translate .erasing)) := by
  intro m calm
  have lookup : Evaluation.memo? (config.translate .erasing).reset i (b.trim false) m.erase = _ :=
    Evaluation.memo?_erase config.reset i b m
  cases found : Evaluation.memo? config.reset i b m with
  | some v =>
      rw [found] at lookup
      exact .of_runs (Evaluation.memoized_found found) (Evaluation.memoized_found found)
        (Evaluation.memoized_found lookup) (.ok (.of_effects rfl v))
  | none =>
      rw [found] at lookup
      have remembered : ∀ v v', Setting.erasing.result v v' → Follows w r Setting.erasing.result
          (fun _ => Evaluation.memoized.remember i b config v)
          (fun _ =>
            Evaluation.memoized.remember i (b.trim false) (config.translate .erasing) v') := by
        intro v v' related n _
        have erased : Evaluation.memoized.remember i (b.trim false) (config.translate .erasing) v'
            n.erase = (.ok ((Evaluation.dressed config v).translate .erasing),
              (Evaluation.storeMemo config.reset i b (Evaluation.dressed config v) n).erase) := by
          rw [← Evaluation.storeMemo_erase, ← Evaluation.dressed_translate, related.erased]
          rfl
        exact .of_runs rfl rfl erased (.ok (.of_effects rfl _))
      have computed := compute.bind (f := fun v _ => Evaluation.memoized.remember i b config v)
        remembered
      exact .of_follows (Evaluation.memoized_missing found) (Evaluation.memoized_missing found)
        (Evaluation.memoized_missing lookup) calm computed

theorem force (runner : FollowsRunner w r) {b : Binding} {i : Nat}
    (compute : Follows w r Setting.erasing.result
      (fun r => Evaluation.compute r i b) (fun r => Evaluation.compute r i (b.trim false))) :
    Follows w r Setting.erasing.result (fun r => Evaluation.force r i b)
      (fun r => Evaluation.force r i (b.trim false)) := by
  simp only [Evaluation.force_eq]
  refine (letConfig runner b i).bind fun config config' related => ?_
  rw [related.erased]
  exact memoized compute config

theorem prefetch (runner : FollowsRunner w r) {b : Binding} {i : Nat}
    (compute : Follows w r Setting.erasing.result
      (fun r => Evaluation.compute r i b) (fun r => Evaluation.compute r i (b.trim false))) :
    Follows w r Eq (fun r => Evaluation.prefetch r i b)
      (fun r => Evaluation.prefetch r i (b.trim false)) := by
  refine (letConfig runner b i).bind fun config config' related => ?_
  have timing : config'.timing = config.timing := by rw [related.erased]; rfl
  simp only [timing]
  by_cases eager : config.timing = .eager
  · simp only [eager, if_true]
    exact (force runner compute).bind (f := fun _ _ => Pure.pure ()) fun _ _ _ m _ =>
      .of_runs rfl rfl rfl (.ok rfl)
  · simp only [eager, if_false]
    exact fun m _ => .of_runs rfl rfl rfl (.ok rfl)

theorem named (runner : FollowsRunner w r) (name : String) {i : Nat}
    (compute : ∀ o b, Follows w r Setting.erasing.result
      (fun r => Evaluation.compute r o b) (fun r => Evaluation.compute r o (b.trim false))) :
    Follows w r Setting.erasing.result (fun r => Evaluation.nameRef r name i)
      (fun r => Evaluation.nameRef r name i) := by
  intro m calm
  have run := fun r => Evaluation.nameRef_apply r name i m
  have erased := Evaluation.nameRef_apply r name i m.erase
  rw [Machine.chain_erase, Chain.resolve?_erase] at erased
  cases found : m.chain.resolve? i name with
  | none =>
      simp only [found, Option.map_none] at run erased
      exact .of_runs (run w) (run r) erased (.ok (.const fun _ => rfl))
  | some resolved =>
      cases resolved with
      | value v =>
          simp only [found, Option.map_some, Resolved.erase] at run erased
          exact .of_runs (run w) (run r) erased (.ok (.of_effects rfl v))
      | binding owner b =>
          simp only [found, Option.map_some, Resolved.erase] at run erased
          exact .of_follows (run w) (run r) erased calm (force runner (compute owner b))

/-! ## Effects -/

theorem once (id : Nat) {x x' : Runner → Eval Evaluated}
    (body : Follows w r Setting.erasing.result x x') :
    Follows w r Setting.erasing.result (fun r => Eval.once id (x r))
      (fun r => Eval.once id (x' r)) := by
  intro m calm
  have run := fun r => Eval.once_apply id (x r) m
  have erased := Eval.once_apply id (x' r) m.erase
  have lookup : Assoc.get? m.erase.forced id =
      (Assoc.get? m.forced id).map (Evaluated.translate .erasing) :=
    Assoc.get?_mapValues _ m.forced id
  rw [lookup] at erased
  cases found : Assoc.get? m.forced id with
  | some done =>
      simp only [found, Option.map_some] at run erased
      exact .of_runs (run w) (run r) erased (.ok (.of_effects rfl done))
  | none =>
      simp only [found, Option.map_none] at run erased
      have keeps : ∀ done done', Setting.erasing.result done done' →
          Follows w r Setting.erasing.result (fun _ => Eval.keepForced id done)
            (fun _ => Eval.keepForced id done') := by
        intro done done' related n _
        have kept : Eval.keepForced id done' n.erase = (.ok (done.translate .erasing),
            Machine.erase { n with forced := Assoc.insert n.forced id done }) := by
          rw [related.erased]
          simp only [Eval.keepForced, Machine.erase, Assoc.insert_mapValues]
        exact .of_runs rfl rfl kept (.ok (.of_effects rfl done))
      exact .of_follows (run w) (run r) erased calm (body.bind keeps)

theorem makeLambda (d : Definition) (i : Nat) :
    Follows w r Setting.erasing.result (fun _ => Evaluation.makeLambda d i)
      (fun _ => Evaluation.makeLambda (d.trim false) i) := by
  intro m _
  have made : Evaluation.makeLambda (d.trim false) i m.erase =
      (.ok (Evaluated.translate .erasing (.plain (.lambda ⟨m.nextId, d, m.chain.visible i⟩))),
        Machine.erase { m with nextId := m.nextId + 1 }) := by
    change (Except.ok (Evaluated.plain (.lambda ⟨m.nextId, d.trim false, m.chain.erase.visible i⟩)),
      Machine.erase { m with nextId := m.nextId + 1 }) = _
    rw [Chain.visible_erase, Evaluated.translate_plain, Value.translate_lambda, Lambda.translate_eq]
    rfl
  exact .of_runs rfl rfl made (.ok (.of_effects rfl _))

theorem drain (id : Nat) :
    Follows w r Setting.erasing.values (fun _ => Eval.drain id) (fun _ => Eval.drain id) := by
  intro m _
  have drained : Eval.drain id m.erase = (.ok ((m.stream id).map (Value.translate .erasing)),
      Machine.erase { m with streams := Assoc.insert m.streams id [] }) := by
    change (Except.ok (m.erase.stream id),
      { m.erase with streams := Assoc.insert m.erase.streams id [] }) = _
    rw [Machine.stream_erase]
    simp only [Machine.erase, ← Assoc.insert_mapValues, List.map_nil]
  exact .of_runs rfl rfl drained (.ok (.of_effects rfl _))

theorem deliver (component : String) {v v' : Value} (related : Setting.erasing.value v v') :
    Follows w r Setting.erasing.value (fun _ => Eval.deliver component v)
      (fun _ => Eval.deliver component v') := by
  intro m calm
  have run := Eval.deliver_apply component v m
  have erased := Eval.deliver_apply component v' m.erase
  have outlets : m.erase.outlets = m.outlets := rfl
  rw [related.erased, outlets] at erased
  cases found : Assoc.get? m.outlets component with
  | none =>
      simp only [found] at erased
      rw [← related.erased] at erased
      exact absurd (congrArg Prod.fst erased) (calm _)
  | some outlet =>
      simp only [found, Machine.deliver_erase] at run erased
      rw [← related.erased] at erased
      rcases delivered : m.deliver outlet v with ⟨_ | answer, after⟩
      · rw [delivered] at erased
        exact absurd (congrArg Prod.fst erased) (calm _)
      · rw [delivered] at run erased
        exact .of_runs run run erased (.ok (.of_effects rfl answer))

theorem withStore {act : Translation → α → α}
    {operation operation' : Nat → Store.Backend → Except StoreError α × Store.Backend}
    (library name : String) (related : ∀ n b, operation' n b =
      ((operation n b).1.map (act .erasing), (operation n b).2)) :
    Follows w r (Setting.erasing.Related act)
      (fun _ => Evaluation.withStore operation library name)
      (fun _ => Evaluation.withStore operation' library name) := by
  intro m calm
  have run := Evaluation.withStore_apply operation library name m
  have erased := Evaluation.withStore_apply operation' library name m.erase
  have store : m.erase.store = m.store := rfl
  rw [store] at erased
  cases found : m.store with
  | none =>
      simp only [found] at erased
      exact absurd (congrArg Prod.fst erased) (calm _)
  | some s =>
      simp only [found, related] at run erased
      rcases ran : operation s.attempts s.backend with ⟨_ | a, backend⟩
      · rw [ran] at erased
        exact absurd (congrArg Prod.fst erased) (calm _)
      · rw [ran] at run erased
        exact .of_runs run run erased (.ok (.of_effects rfl a))

theorem markHandled (i : Nat) (flag : Bool) :
    Follows w r Setting.erasing.value (fun _ => Evaluation.markHandled i flag)
      (fun _ => Evaluation.markHandled i flag) := by
  intro m calm
  have run := Evaluation.markHandled_apply i flag m
  have erased := Evaluation.markHandled_apply i flag m.erase
  rw [Machine.chain_erase, Chain.nearest?_erase] at erased
  cases found : m.chain.nearest? i .handler with
  | none =>
      simp only [found] at erased
      exact absurd (congrArg Prod.fst erased) (calm _)
  | some j =>
      simp only [found] at run erased
      rw [← Machine.erase_onChain fun c => c.erase_setHandled j flag] at erased
      exact .of_runs run run erased (.ok (.const fun _ => rfl))

end Follows

/-- **Whatever the rules allow follows the same without handlers.** -/
theorem Alike.follows (runner : FollowsRunner w r) {μ : Mode} {i i' : Nat}
    (alike : Alike .erasing μ i i' R x x') (same : i = i') : Follows w r R x x' := by
  induction alike with
  | pure related => exact fun m _ => .of_runs rfl rfl rfl (.ok related)
  | throw related => exact fun m _ => .of_runs rfl rfl rfl (.error related)
  | bind first next ihFirst ihNext =>
      exact (ihFirst same).bind fun a a' related => ihNext a a' related same
  | catching first returned signalled passed passedToo ihFirst ihReturned ihSignalled =>
      exact (ihFirst same).catching (fun a a' related => ihReturned a a' related same)
        (fun s s' related => ihSignalled s s' related same) (passedToo rfl)
  | run allowed =>
      subst same
      exact runner.eval _ _
  | current =>
      subst same
      refine .reads fun c => ?_
      rw [Chain.current_erase]
      exact .of_effects rfl _
  | cursor =>
      subst same
      refine .reads fun c => ?_
      rw [Chain.cursor?_erase]
      exact .of_effects rfl _
  | isHandled =>
      subst same
      exact .reads fun c => (c.isHandled_erase _).symm
  | setCursor related =>
      subst same
      exact .changes fun c => by rw [c.erase_setCursor, related.erased]
  | setValue name related =>
      subst same
      exact .changes fun c => by rw [c.erase_setValue, related.erased]
  | setHandled flag =>
      subst same
      exact .changes fun c => c.erase_setHandled _ flag
  | within kind handlers body ih =>
      subst same
      exact .within runner (fun handler => by cases handlers handler) fun j => ih j j rfl
  | letting kind handlers allowed body ih =>
      subst same
      exact .letting runner handlers fun j => ih j j rfl
  | unguarded h dropped body ih => exact (ih same).guarded _ h
  | prefetch member allowed compute ih =>
      subst same
      exact .prefetch runner (ih _ _ rfl)
  | named allowed compute ih =>
      subst same
      exact .named runner _ fun o b => ih o o b (fun plain => by cases plain) rfl
  | @once μ i i' x x' l l' function body ih =>
      have id : l'.id = l.id := by
        rw [Value.lambda.inj function.erased, Lambda.translate_eq]
        rfl
      rw [id]
      exact .once l.id (ih same)
  | makeLambda d allowed =>
      subst same
      exact .makeLambda d _
  | drain source => exact .drain _
  | deliver allowed related => exact .deliver _ related
  | withStore allowed related => exact .withStore _ _ fun n b => (related n b).erased
  | markHandled allowed flag =>
      subst same
      exact .markHandled _ flag

/-! ## Programs -/

/-- No frame is opened for a handler. -/
def Watch.noHandler : Watch where
  starts _ _ _ _ := True
  opens kind _ _ := kind ≠ .handler

theorem Follows.deeper (follows : Follows w r R x x') :
    Follows w r R (fun r => Eval.deeper (x r)) (fun r => Eval.deeper (x' r)) := by
  intro m calm
  obtain ⟨o, o', after, watched, run, erased, outcome⟩ :=
    (follows { m with depth := m.depth + 1 } calm).runs
  have deeper : ∀ y : Eval α, y { m with depth := m.depth + 1 } = (o, after) →
      Eval.deeper y m = (o, { after with depth := after.depth - 1 }) := by
    intro y ran
    simp only [Eval.deeper, ran]
  have bare : Eval.deeper (x' r) m.erase =
      (o', Machine.erase { after with depth := after.depth - 1 }) := by
    have ran : x' r { m.erase with depth := m.erase.depth + 1 } = (o', after.erase) := erased
    simp only [Eval.deeper, ran]
    rfl
  exact .of_runs (deeper _ watched) (deeper _ run) bare outcome

theorem FollowsRunner.ofDepth (other : Runner) (left : Nat) :
    FollowsRunner (watched .noHandler other left) (.ofDepth left) := by
  have within : ∀ {α : Type} {kind : FrameKind}, kind ≠ .handler → ∀ (left i : Nat)
      (body : Nat → Eval α), (watched .noHandler other left).within kind i body =
        Eval.within kind i body := by
    intro α kind apart left i body
    funext m
    exact watched_within apart
  refine ⟨?_, fun apart => within apart left, fun _ _ _ => rfl⟩
  induction left with
  | zero =>
      intro e i m calm
      exact absurd rfl (calm (depthExceeded m.settings.maxDepth))
  | succ left ih =>
      intro e i m calm
      have runner : FollowsRunner (watched .noHandler other left) (.ofDepth left) :=
        ⟨ih, fun apart => within apart left, fun _ _ _ => rfl⟩
      have alike : Alike .erasing .shared i i Setting.erasing.result
        (fun r => Evaluation.node r e i) _ := .node (.of_effects rfl e)
      have follows := (alike.follows runner rfl).deeper m calm
      refine ⟨?_, follows.state, follows.outcome⟩
      rw [watched_succ trivial, follows.agree]
      rfl

/-- An outcome with the handlers taken out of the functions in it. -/
def eraseOutcome : Except Signal Evaluated → Except Signal Evaluated
  | .ok v => .ok (v.translate .erasing)
  | .error s => .error (s.translate .erasing)

theorem Setting.Matches.eq_erase {o o' : Except Signal Evaluated}
    (outcome : Setting.erasing.Matches Setting.erasing.result o o') : o' = eraseOutcome o := by
  cases outcome with
  | ok related => exact congrArg Except.ok related.erased
  | error related => exact congrArg Except.error related.erased

theorem Machine.enter_erase (m : Machine) (input : Value) :
    m.erase.enter (input.translate .erasing) = (m.enter input).erase := by
  have moved : (m.enter input).erase = m.erase.onChain fun c =>
      ((c.push .query none).setCursor m.chain.size
        (.linkedTo [] (input.translate .erasing))).setCurrent m.chain.size
          (.plain (input.translate .erasing)) := by
    refine Machine.erase_onChain (fun c => ?_) m
    rw [Chain.setCurrent, Chain.erase_setValue, Chain.erase_setCursor, Chain.erase_push,
      ← Address.linkedTo_translate]
    rfl
  rw [moved, Machine.enter, Machine.chain_erase, Chain.size_erase]

/-- **Handlers are invisible where nothing fails.** If the root of a program without its handlers
ends in a value or in a signal other than an error, the root of the program ends in the same value
or signal and leaves the same machine, up to the handlers of functions, and no handler runs. -/
theorem Machine.runRoot_erase (left : Nat) (m : Machine) (p : Program) (input : Value)
    (calm : Calm (m.erase.runRoot (.ofDepth left) p.erase (input.translate .erasing)).1) :
    m.erase.runRoot (.ofDepth left) p.erase (input.translate .erasing) =
        (eraseOutcome (m.runRoot (.ofDepth left) p input).1,
          (m.runRoot (.ofDepth left) p input).2.erase) ∧
      Throughout .noHandler left fun run => m.runRoot run p input := by
  have alike : Alike .erasing .shared m.chain.size m.chain.size Setting.erasing.result
      (fun run => Evaluation.guarded run m.chain.size p.handler (run p.root m.chain.size))
      (fun run => run (p.root.trim false) m.chain.size) := by
    cases p.handler with
    | none => exact .run (.of_effects rfl _)
    | some h => exact .unguarded h rfl (.run (.of_effects rfl _))
  have bare : ∀ run : Runner, m.erase.runRoot run p.erase (input.translate .erasing) =
      run (p.root.trim false) m.chain.size (m.enter input).erase := by
    intro run
    have handler : p.erase.handler = none := by
      change Handler.trimOption false p.handler = none
      cases p.handler <;> rfl
    rw [← Machine.enter_erase, Machine.runRoot, Machine.chain_erase, Chain.size_erase, handler]
    rfl
  rw [bare] at calm ⊢
  have follows := fun other =>
    alike.follows (.ofDepth other left) rfl (m.enter input) calm
  obtain ⟨agree, state, outcome⟩ := follows (.ofDepth left)
  exact ⟨Prod.ext outcome.eq_erase state, fun other => (follows other).agree⟩

/-- A stop passes the handlers of a scope and of the program, and a value those of a let-binding. -/
theorem runRoot_erase_stop :
    let h : Handler := ⟨.text "handled", true⟩
    let p : Program :=
      ⟨.scope (.letIn [⟨0, "x", .text "found", none, some h⟩] (.stop .stop (.named "x")) (some h))
        (some h), some h⟩
    Calm ((Machine.erase {}).runRoot (.ofDepth 5) p.erase (.translate .erasing .null)).1 ∧
      (Machine.erase {}).runRoot (.ofDepth 5) p.erase (.translate .erasing .null) =
        (eraseOutcome (Machine.runRoot {} (.ofDepth 5) p .null).1,
          (Machine.runRoot {} (.ofDepth 5) p .null).2.erase) ∧
      (Machine.runRoot {} (.ofDepth 5) p .null).1 = .error (.stop .stop (.text "found")) := by
  intro h p
  have fresh : Machine.erase {} = {} := by simp [Machine.erase, Chain.erase]
  have outcome : ((Machine.erase {}).runRoot (.ofDepth 5) p.erase (.translate .erasing .null)).1 =
      .error (.stop .stop (.text "found")) := by
    rw [fresh]
    cbv
  have calm : Calm ((Machine.erase {}).runRoot (.ofDepth 5) p.erase
      (.translate .erasing .null)).1 := by
    rw [outcome]
    exact fun f same => by cases same
  exact ⟨calm, (Machine.runRoot_erase 5 {} p .null calm).1, by cbv⟩

end TreeQuery
