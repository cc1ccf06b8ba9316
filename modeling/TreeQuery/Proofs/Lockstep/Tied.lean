import TreeQuery.Proofs.Lockstep.Ties

/-!
# Runs on tied machines

Two computations that do the same things in the same order, on machines that are tied, come to
related outcomes and leave the machines tied (`Alike.tied`). The first run also leaves only what may
occur, whatever the second machine is. The comparison ends with an error that is fatal to it, which
nothing holds up then, and where more identities are given out than fit.
-/

set_option autoImplicit false

namespace TreeQuery

variable {S : Setting} {C : Comparison S} {r r' : Runner} {i : Nat} {m m' : Machine}

/-- The run has ended with an error at which the comparison ends. -/
def Comparison.Cut (C : Comparison S) {α : Type} (outcome : Except Signal α) : Prop :=
  ∃ f, outcome = .error (.fault f) ∧ C.fatal f

structure TiedAt (C : Comparison S) (r r' : Runner) {α : Type} (R : α → α → Prop)
    (x x' : Runner → Eval α) (m : Machine) : Prop where
  confined : Confined C (x r m).2
  counts : m.nextId ≤ (x r m).2.nextId
  ends : S.Ends R (x r m).1
  ties : ∀ m', Tie C m m' → C.fits (x r m).2.nextId → C.Cut (x r m).1 ∨
    S.Matches R (x r m).1 (x' r' m').1 ∧ Tie C (x r m).2 (x' r' m').2

/-- The second computation, on a machine that is tied, does what the first one does. -/
def Tied (C : Comparison S) (r r' : Runner) {α : Type} (R : α → α → Prop)
    (x x' : Runner → Eval α) : Prop :=
  ∀ m, Confined C m → TiedAt C r r' R x x' m

/-- Expressions are evaluated alike on tied machines, and frames are opened as usual. -/
structure TiedRunner (C : Comparison S) (r r' : Runner) : Prop where
  eval : ∀ e, S.Allows e → ∀ i, Tied C r r' S.result (fun r => r e i) (fun r => r e i)
  opens : ∀ {α : Type} (kind : FrameKind) (i : Nat) (body : Nat → Eval α),
    r.within kind i body = Eval.within kind i body
  opensToo : ∀ {α : Type} (kind : FrameKind) (i : Nat) (body : Nat → Eval α),
    r'.within kind i body = Eval.within kind i body

variable {α β : Type} {R : α → α → Prop} {Q : β → β → Prop} {x x' : Runner → Eval α}

theorem Setting.Matches.ends {o o' : Except Signal α} (matched : S.Matches R o o') :
    S.Ends R o := by
  cases matched with
  | ok related => exact ⟨_, related⟩
  | error related => exact ⟨_, related⟩

theorem Setting.Ends.matched {o : Except Signal α} (ends : S.Ends R o) : ∃ o', S.Matches R o o' :=
  ends.elim (fun _ _ related => ⟨_, .ok related⟩) fun _ _ related => ⟨_, .error related⟩

namespace TiedAt

/-- A computation whose run is known. -/
theorem of_runs {o : Except Signal α} {after : Machine} (run : x r m = (o, after))
    (confined : Confined C after) (counts : m.nextId ≤ after.nextId) (ends : S.Ends R o)
    (ties : ∀ m', Tie C m m' → C.fits after.nextId →
      ∃ o' after', x' r' m' = (o', after') ∧ S.Matches R o o' ∧ Tie C after after') :
    TiedAt C r r' R x x' m := by
  refine ⟨?_, ?_, ?_, fun m' tie fits => ?_⟩
  · rw [run]
    exact confined
  · rw [run]
    exact counts
  · rw [run]
    exact ends
  · rw [run] at fits ⊢
    obtain ⟨o', after', runToo, matched, tied⟩ := ties m' tie fits
    rw [runToo]
    exact .inr ⟨matched, tied⟩

/-- A computation that goes on like another one. -/
theorem of_tied {y y' : Runner → Eval α} {q q' : Runner} (run : x r m = y q m)
    (runToo : ∀ m', Tie C m m' → x' r' m' = y' q' m') (tied : TiedAt C q q' R y y' m) :
    TiedAt C r r' R x x' m := by
  refine ⟨?_, ?_, ?_, fun m' tie fits => ?_⟩
  · rw [run]
    exact tied.confined
  · rw [run]
    exact tied.counts
  · rw [run]
    exact tied.ends
  · rw [run] at fits ⊢
    rw [runToo m' tie]
    exact tied.ties m' tie fits

/-! ## Steps in sequence -/

/-- An error that is fatal to the comparison is passed on. -/
theorem catching {f g : Except Signal α → Runner → Eval β} (first : TiedAt C r r' R x x' m)
    (returned : ∀ a a', R a a' → Tied C r r' Q (f (.ok a)) (g (.ok a')))
    (signalled : ∀ s s', S.signal s s' → Tied C r r' Q (f (.error s)) (g (.error s')))
    (passed : S.unhandled = true → ∀ c, f (.error (.fault c)) = fun _ => throw (.fault c)) :
    TiedAt C r r' Q (fun r => Eval.attempt (x r) >>= fun o => f o r)
      (fun r => Eval.attempt (x' r) >>= fun o => g o r) m := by
  have next : ∀ o o', S.Matches R o o' → Tied C r r' Q (f o) (g o') := by
    intro o o' matched
    cases matched with
    | ok related => exact returned _ _ related
    | error related => exact signalled _ _ related
  obtain ⟨confined, counts, ends, ties⟩ := first
  obtain ⟨o', matched⟩ := ends.matched
  have onwards := next _ _ matched _ confined
  refine ⟨onwards.confined, Nat.le_trans counts onwards.counts, onwards.ends, fun m' tie fits => ?_⟩
  rcases ties m' tie (C.fits_of_le _ _ onwards.counts fits) with
    ⟨fault, failed, fatal⟩ | ⟨matched, tied⟩
  · refine .inl ⟨fault, ?_, fatal⟩
    simp only [Eval.attempt_bind, failed, passed (C.unhandled fault fatal)]
    rfl
  · exact (next _ _ matched _ confined).ties _ tied fits

theorem bind {f g : α → Runner → Eval β} (first : TiedAt C r r' R x x' m)
    (next : ∀ a a', R a a' → Tied C r r' Q (f a) (g a')) :
    TiedAt C r r' Q (fun r => x r >>= fun a => f a r) (fun r => x' r >>= fun a => g a r) m := by
  rw [Eval.bind_eq_attempt_open x f, Eval.bind_eq_attempt_open x' g]
  refine first.catching next (fun s s' related n confined => ?_) fun _ _ => rfl
  exact .of_runs rfl confined (Nat.le_refl _) ⟨s', related⟩ fun _ tie _ =>
    ⟨_, _, rfl, .error related, tie⟩

/-- Where nothing cuts the comparison short and the machines are the same, so are the runs. -/
theorem run_eq {x x' : Runner → Eval Evaluated} (tied : TiedAt C r r' S.result x x' m)
    (verbatim : C.Verbatim) (limit : C.limit = C.settings.maxDepth) (confined : Confined C m)
    (fits : C.fits (x r m).2.nextId) (uncut : ¬ C.Cut (x r m).1) : x' r' m = x r m := by
  have tie := verbatim.tie m
  rw [confined.copy_self limit] at tie
  rcases tied.ties m tie fits with cut | ⟨matched, after⟩
  · exact absurd cut uncut
  · exact Prod.ext (matched.eq_of_verbatim verbatim.image Evaluated.translate_identity)
      ((verbatim.eq_copy after).trans (tied.confined.copy_self limit))

end TiedAt

namespace Tied

theorem pure {a a' : α} (related : R a a') :
    Tied C r r' R (fun _ => Pure.pure a) (fun _ => Pure.pure a') := fun _ confined =>
  .of_runs rfl confined (Nat.le_refl _) ⟨_, related⟩ fun _ tie _ => ⟨_, _, rfl, .ok related, tie⟩

theorem bind {f g : α → Runner → Eval β} (first : Tied C r r' R x x')
    (next : ∀ a a', R a a' → Tied C r r' Q (f a) (g a')) :
    Tied C r r' Q (fun r => x r >>= fun a => f a r) (fun r => x' r >>= fun a => g a r) :=
  fun m confined => (first m confined).bind next

/-! ## The frames -/

theorem reads {f g : Chain → α} (related : ∀ c c', S.chains c c' → R (f c) (g c')) :
    Tied C r r' R (fun _ => Eval.ofChain f) (fun _ => Eval.ofChain g) := by
  intro m confined
  exact .of_runs rfl confined (Nat.le_refl _) ⟨_, related _ _ confined.chains⟩ fun m' tie _ =>
    ⟨_, _, rfl, .ok (related _ _ (tie.chains confined)), tie⟩

theorem changes {f g : Chain → Chain} (related : ∀ c c', S.chains c c' → S.chains (f c) (g c'))
    (declares : ∀ c : Chain, c.Declares S → (f c).Declares S) :
    Tied C r r' Eq (fun _ => Eval.onChain f) (fun _ => Eval.onChain g) := by
  intro m confined
  refine .of_runs rfl
    (confined.onChain (related _ _ confined.chains).inert (declares _ confined.declares))
    (Nat.le_refl _) ⟨(), rfl⟩ fun m' tie _ => ⟨_, _, rfl, .ok rfl, tie.onChain ?_⟩
  exact (related _ _ (tie.chains confined)).image

theorem setValue (name : String) {v v' : Evaluated} (related : S.result v v') :
    Tied C r r' Eq (fun _ => Eval.onChain fun c => c.setValue i name v)
      (fun _ => Eval.onChain fun c => c.setValue i name v') :=
  changes (fun _ _ chains => chains.map₂ related (fun c v => c.setValue i name v) fun τ c v =>
    (c.under_setValue id τ i name v).symm)
    fun _ declares => declares.update i fun _ _ slot found => ⟨slot, found, rfl⟩

theorem setCursor {a a' : Address} (related : S.address a a') :
    Tied C r r' Eq (fun _ => Eval.onChain fun c => c.setCursor i a)
      (fun _ => Eval.onChain fun c => c.setCursor i a') :=
  changes (fun _ _ chains => chains.map₂ related (fun c a => c.setCursor i a) fun τ c a =>
    (c.under_setCursor id τ i a).symm)
    fun _ declares => declares.update i fun _ _ slot found => ⟨slot, found, rfl⟩

theorem setHandled (flag : Bool) :
    Tied C r r' Eq (fun _ => Eval.onChain fun c => c.setHandled i flag)
      (fun _ => Eval.onChain fun c => c.setHandled i flag) :=
  changes (fun _ _ chains => chains.map (fun c => c.setHandled i flag) fun τ c =>
    (c.under_setHandled id τ i flag).symm)
    fun _ declares => declares.update i fun _ _ slot found => ⟨slot, found, rfl⟩

/-- A frame comes and goes. -/
theorem framed {y y' : Nat → Runner → Eval α} (grow : Chain → Chain)
    (related : ∀ c c', S.chains c c' → S.chains (grow c) (grow c'))
    (declares : ∀ c : Chain, c.Declares S → (grow c).Declares S)
    (body : ∀ j, Tied C r r' R (y j) (y' j))
    (run : ∀ m, x r m = ((y m.chain.size r (m.onChain grow)).1,
      (y m.chain.size r (m.onChain grow)).2.onChain fun c => c.truncate m.chain.size))
    (runToo : ∀ m, x' r' m = ((y' m.chain.size r' (m.onChain grow)).1,
      (y' m.chain.size r' (m.onChain grow)).2.onChain fun c => c.truncate m.chain.size)) :
    Tied C r r' R x x' := by
  intro m confined
  have inside := body m.chain.size (m.onChain grow)
    (confined.onChain (related _ _ confined.chains).inert (declares _ confined.declares))
  refine ⟨?_, ?_, ?_, fun m' tie fits => ?_⟩
  · rw [run]
    exact inside.confined.truncate _
  · rw [run]
    exact inside.counts
  · rw [run]
    exact inside.ends
  · rw [run] at fits ⊢
    rw [runToo, tie.size]
    rcases inside.ties _ (tie.onChain (related _ _ (tie.chains confined)).image) fits with
      ended | ⟨matched, tied⟩
    · exact .inl ended
    · exact .inr ⟨matched, tied.truncate _⟩

theorem within (runner : TiedRunner C r r') (kind : FrameKind) {x x' : Nat → Runner → Eval α}
    (body : ∀ j, Tied C r r' R (x j) (x' j)) :
    Tied C r r' R (fun r => r.within kind i fun j => x j r)
      (fun r => r.within kind i fun j => x' j r) := by
  refine framed (fun c => c.push kind (some i)) (fun c c' chains => ?_)
    (fun c declares => declares.push kind (some i)) body (fun m => ?_) fun m => ?_
  · exact chains.map (fun c => c.push kind (some i)) fun τ c => (c.under_push id τ _ _).symm
  · rw [runner.opens]
    exact Eval.within_apply kind i _ m
  · rw [runner.opensToo]
    exact Eval.within_apply kind i _ m

theorem letting (runner : TiedRunner C r r') (kind : FrameKind) {bindings : List Binding}
    (allowed : S.AllowsLet bindings) {x x' : Nat → Runner → Eval α}
    (body : ∀ j, Tied C r r' R (x j) (x' j)) :
    Tied C r r' R
      (fun r => r.within kind i fun j => do
        Evaluation.declareAll j bindings
        x j r)
      (fun r => r.within kind i fun j => do
        Evaluation.declareAll j bindings
        x' j r) := by
  refine framed (fun c => (c.push kind (some i)).update c.size fun f =>
      { f with lets := declareIn f.lets bindings }) (fun c c' chains => ?_)
    (fun c declares => declares.letFrame allowed kind i) body (fun m => ?_) fun m => ?_
  · refine chains.map (fun c => (c.push kind (some i)).update c.size fun f =>
      { f with lets := declareIn f.lets bindings }) fun τ c => ?_
    have grown := c.letFrame_under (β := id) (fun _ => rfl) τ kind i bindings
    rw [List.map_id] at grown
    exact grown.symm
  · rw [runner.opens]
    exact Eval.letFrame_apply kind i bindings (fun j => x j r) m
  · rw [runner.opensToo]
    exact Eval.letFrame_apply kind i bindings (fun j => x' j r') m

end Tied

/-! ## Let-bindings -/

/-- Configurations that may occur. Where the machines are apart, there is only one. -/
structure Comparison.Config (C : Comparison S) (c c' : BindingConfig) : Prop where
  related : S.Related BindingConfig.translate c c'
  default : C.lasting = false → c = C.settings.config

theorem Comparison.Config.policy {c c' : BindingConfig} (config : C.Config c c') :
    C.lasting = false → c.reset ≠ .never := by
  intro apart
  rw [config.default apart]
  exact (C.apart apart).2.1

theorem Comparison.config_default (C : Comparison S) :
    C.Config C.settings.config C.settings.config :=
  ⟨.const fun _ => rfl, fun _ => rfl⟩

namespace Tied

theorem settle {b : Binding} (lasting : C.lasting = true) (configured : ¬ C.bare b.id)
    (free : Assoc.get? C.base.configs b.id = none) {v v' : Evaluated}
    (related : S.result v v') : Tied C r r' C.Config (fun _ => Evaluation.settle b v)
      (fun _ => Evaluation.settle b v') := by
  intro m confined
  have configs : S.Related (fun τ => Except.map (BindingConfig.translate τ))
      (Evaluation.configOf C.settings v.value) (Evaluation.configOf C.settings v'.value) :=
    related.content.map (Evaluation.configOf C.settings) fun τ v =>
      Evaluation.configOf_translate τ C.settings v
  have settled : ∀ m', Tie C m m' → Evaluation.configOf m'.settings v'.value =
      (Evaluation.configOf C.settings v.value).map (BindingConfig.translate S.image) := by
    intro m' tie
    rw [tie.settings]
    exact configs.image
  cases decided : Evaluation.configOf C.settings v.value with
  | error e =>
      rw [decided] at settled
      have run : Evaluation.settle b v m = (.error (.fault e.toFault), m) := by
        simp only [Evaluation.settle, confined.settings, decided]
      have signal : S.signal (.fault e.toFault) (.fault e.toFault) :=
        .const fun τ => congrArg Signal.fault (e.translate_toFault τ)
      refine .of_runs run confined (Nat.le_refl _) ⟨_, signal⟩ fun m' tie _ =>
        ⟨.error (.fault e.toFault), m', ?_, .error signal, tie⟩
      simp only [Evaluation.settle, settled m' tie, Except.map]
  | ok config =>
      rw [decided] at configs settled
      have inert : S.plain = true → config.translate S.test = config := fun plain =>
        Except.ok.inj (configs.inert plain)
      have result : C.Config config (config.translate S.image) :=
        ⟨⟨rfl, inert⟩, fun apart => by cases apart.symm.trans lasting⟩
      have run : Evaluation.settle b v m = (.ok config, Evaluation.settled b config m) := by
        simp only [Evaluation.settle, confined.settings, decided]
      refine .of_runs run (confined.settled free inert fun bare => absurd bare configured)
        (Nat.le_refl _) ⟨_, result⟩ fun m' tie _ => ⟨.ok (config.translate S.image),
          Evaluation.settled b (config.translate S.image) m', ?_, .ok result,
          tie.settled lasting b config⟩
      simp only [Evaluation.settle, settled m' tie, Except.map]

/-- Settles the default where nothing is known. -/
theorem letConfig_settles {r : Runner} {b : Binding} {config : BindingConfig}
    (settings : m.settings.config = config) (missing : Assoc.get? m.configs b.id = none)
    (given : b.config = none) :
    Evaluation.letConfig r b i m = (.ok config, Evaluation.settled b config m) := by
  rw [← settings]
  exact Evaluation.letConfig_default missing given

/-- Where the machines are apart, each finds the default or settles it. -/
theorem letConfig_apart (apart : C.lasting = false) {b : Binding} (allowed : S.AllowsBinding b) :
    Tied C r r' C.Config (fun r => Evaluation.letConfig r b i)
      (fun r => Evaluation.letConfig r b i) := by
  intro m confined
  have bare : C.bare b.id := (C.apart apart).2.2 b.id
  have given : b.config = none := C.config b allowed bare
  have second : ∀ first m', Tie C first m' → ∃ after',
      Evaluation.letConfig r' b i m' = (.ok C.settings.config, after') ∧ Tie C first after' := by
    intro first m' tie
    cases found : Assoc.get? m'.configs b.id with
    | some config =>
        rw [(tie.apart apart).configs b allowed config found] at found
        exact ⟨m', Evaluation.letConfig_known found, tie⟩
    | none => exact ⟨_, letConfig_settles tie.config found given, tie.settledSecond apart b⟩
  cases found : Assoc.get? m.configs b.id with
  | some config =>
      rw [confined.defaults b.id bare config found] at found
      refine .of_runs (Evaluation.letConfig_known found) confined (Nat.le_refl _)
        ⟨_, C.config_default⟩ fun m' tie _ => ?_
      obtain ⟨after', run, tied⟩ := second m m' tie
      exact ⟨_, after', run, .ok C.config_default, tied⟩
  | none =>
      refine .of_runs (letConfig_settles confined.config found given)
        (confined.settled (confined.grown.free found) (fun _ => rfl) fun _ => rfl) (Nat.le_refl _)
        ⟨_, C.config_default⟩ fun m' tie _ => ?_
      obtain ⟨after', run, tied⟩ := second _ m' (tie.settledFirst apart b C.settings.config)
      exact ⟨_, after', run, .ok C.config_default, tied⟩

/-- Where what is settled lasts, both machines know it or neither does. -/
theorem letConfig_lasting (runner : TiedRunner C r r') (lasting : C.lasting = true) {b : Binding}
    (allowed : S.AllowsBinding b) : Tied C r r' C.Config (fun r => Evaluation.letConfig r b i)
      (fun r => Evaluation.letConfig r b i) := by
  intro m confined
  have lookup : ∀ m', Tie C m m' → Assoc.get? m'.configs b.id =
      (Assoc.get? m.configs b.id).map (BindingConfig.translate S.image) := by
    intro m' tie
    rw [(tie.lasting lasting).configs, Assoc.get?_mapValues]
  have together : ∀ {p : Prop}, C.lasting = false → p := fun apart => by
    cases apart.symm.trans lasting
  cases found : Assoc.get? m.configs b.id with
  | some config =>
      rw [found] at lookup
      have inert : S.plain = true → config.translate S.test = config := fun plain =>
        Assoc.fixed_of_get? (confined.configs plain) found
      have result : C.Config config (config.translate S.image) := ⟨⟨rfl, inert⟩, together⟩
      exact .of_runs (Evaluation.letConfig_known found) confined (Nat.le_refl _) ⟨_, result⟩
        fun m' tie _ => ⟨_, m', Evaluation.letConfig_known (lookup m' tie), .ok result, tie⟩
  | none =>
      rw [found] at lookup
      cases given : b.config with
      | none =>
          refine .of_runs (letConfig_settles confined.config found given)
            (confined.settled (confined.grown.free found) (fun _ => rfl) fun _ => rfl)
            (Nat.le_refl _) ⟨_, C.config_default⟩ fun m' tie _ => ?_
          exact ⟨_, _, letConfig_settles tie.config (lookup m' tie) given, .ok C.config_default,
            tie.settled lasting b C.settings.config⟩
      | some e =>
          have configured : ¬ C.bare b.id := fun bare => by
            cases given.symm.trans (C.config b allowed bare)
          have part : S.Allows e := allowed.part (by simp [Binding.parts, given])
          have computed := (runner.eval e part i m confined).bind
            (f := fun v _ => Evaluation.settle b v) (g := fun v _ => Evaluation.settle b v)
            fun v v' related => settle lasting configured (confined.grown.free found) related
          exact .of_tied (Evaluation.letConfig_computed found given)
            (fun m' tie => Evaluation.letConfig_computed (lookup m' tie) given) computed

theorem letConfig (runner : TiedRunner C r r') {b : Binding} (allowed : S.AllowsBinding b) :
    Tied C r r' C.Config (fun r => Evaluation.letConfig r b i)
      (fun r => Evaluation.letConfig r b i) := by
  cases lasting : C.lasting with
  | true => exact letConfig_lasting runner lasting allowed
  | false => exact letConfig_apart lasting allowed

theorem memoized {b : Binding} (compute : Tied C r r' S.result
      (fun r => Evaluation.compute r i b) (fun r => Evaluation.compute r i b))
    {config config' : BindingConfig} (shape : C.Config config config') :
    Tied C r r' S.result (fun r => Evaluation.memoized r i b config)
      (fun r => Evaluation.memoized r i b config') := by
  intro m confined
  obtain rfl := shape.related.image
  have lookup : ∀ m', Tie C m m' →
      Evaluation.memo? (config.translate S.image).reset i b m' = _ :=
    fun m' tie => tie.memo? shape.policy i b
  cases found : Evaluation.memo? config.reset i b m with
  | some v =>
      rw [found] at lookup
      have result : S.result v (v.translate S.image) := by
        refine ⟨rfl, fun plain => ?_⟩
        have kept := confined.memo? config.reset i b plain
        rw [found] at kept
        exact Option.some.inj kept
      exact .of_runs (Evaluation.memoized_found found) confined (Nat.le_refl _) ⟨_, result⟩
        fun m' tie _ => ⟨_, m', Evaluation.memoized_found (lookup m' tie), .ok result, tie⟩
  | none =>
      rw [found] at lookup
      -- The binding may have been remembered meanwhile, but not when the comparison began.
      have free : config.reset = .never → Assoc.get? C.base.persistent b.id = none := by
        intro policy
        rw [policy] at found
        cases there : Assoc.get? C.base.persistent b.id with
        | none => rfl
        | some v => cases found.symm.trans (confined.grown.persistent b.id v there)
      have remembered : ∀ v v', S.result v v' → Tied C r r' S.result
          (fun _ => Evaluation.memoized.remember i b config v)
          (fun _ => Evaluation.memoized.remember i b (config.translate S.image) v') := by
        intro v v' values n confinedThen
        have dressed : S.result (Evaluation.dressed config v)
            (Evaluation.dressed (config.translate S.image) v') :=
          (shape.related.map₂ values Evaluation.dressed Evaluation.dressed_translate)
        refine .of_runs rfl (confinedThen.storeMemo dressed.inert free) ?_ ⟨_, dressed⟩
          fun n' tie _ => ⟨_, _, rfl, .ok dressed, ?_⟩
        · cases config.reset <;> exact Nat.le_refl _
        · have stored := tie.storeMemo shape.policy i b (Evaluation.dressed config v)
          rw [← dressed.image] at stored
          exact stored
      exact .of_tied (Evaluation.memoized_missing found)
        (fun m' tie => Evaluation.memoized_missing (lookup m' tie))
        ((compute m confined).bind (f := fun v _ => Evaluation.memoized.remember i b config v)
          (g := fun v _ => Evaluation.memoized.remember i b (config.translate S.image) v)
          remembered)

theorem force (runner : TiedRunner C r r') {b : Binding} (allowed : S.AllowsBinding b)
    (compute : Tied C r r' S.result (fun r => Evaluation.compute r i b)
      (fun r => Evaluation.compute r i b)) :
    Tied C r r' S.result (fun r => Evaluation.force r i b) (fun r => Evaluation.force r i b) := by
  simp only [Evaluation.force_eq]
  exact (letConfig runner allowed).bind fun config config' shape => memoized compute shape

theorem prefetch (runner : TiedRunner C r r') {b : Binding} (allowed : S.AllowsBinding b)
    (compute : Tied C r r' S.result (fun r => Evaluation.compute r i b)
      (fun r => Evaluation.compute r i b)) :
    Tied C r r' Eq (fun r => Evaluation.prefetch r i b) (fun r => Evaluation.prefetch r i b) := by
  refine (letConfig runner allowed).bind fun config config' shape => ?_
  have done : Tied C r r' Eq (fun _ => Pure.pure ()) (fun _ => Pure.pure ()) := pure rfl
  have timing : config'.timing = config.timing := by rw [shape.related.image]; rfl
  simp only [timing]
  by_cases eager : config.timing = .eager
  · simp only [eager, if_true]
    exact (force runner allowed compute).bind (f := fun _ _ => Pure.pure ())
      (g := fun _ _ => Pure.pure ()) fun _ _ _ => done
  · simp only [eager, if_false]
    exact done

theorem named (runner : TiedRunner C r r') (name : String)
    (compute : ∀ o b, S.AllowsBinding b → Tied C r r' S.result
      (fun r => Evaluation.compute r o b) (fun r => Evaluation.compute r o b)) :
    Tied C r r' S.result (fun r => Evaluation.nameRef r name i)
      (fun r => Evaluation.nameRef r name i) := by
  intro m confined
  have run := Evaluation.nameRef_apply r name i m
  have runToo : ∀ m', Tie C m m' → Evaluation.nameRef r' name i m' = _ := fun m' _ =>
    Evaluation.nameRef_apply r' name i m'
  have resolved : ∀ m', Tie C m m' → m'.chain.resolve? i name =
      (m.chain.resolve? i name).map (Resolved.under id S.image) := by
    intro m' tie
    rw [tie.chain]
    exact m.chain.resolve?_under id S.image i name
  cases found : m.chain.resolve? i name with
  | none =>
      rw [found] at resolved run
      refine .of_runs run confined (Nat.le_refl _) ⟨_, .const fun _ => rfl⟩ fun m' tie _ =>
        ⟨.ok (.plain .empty), m', ?_, .ok (.const fun _ => rfl), tie⟩
      rw [runToo m' tie, resolved m' tie]
      rfl
  | some target =>
      rw [found] at resolved run
      cases target with
      | value v =>
          have result : S.result v (v.translate S.image) := by
            refine ⟨rfl, fun plain => ?_⟩
            have inside := m.chain.resolve?_under id S.test i name
            rw [confined.chain plain, found] at inside
            exact (Resolved.value.inj (Option.some.inj inside)).symm
          refine .of_runs run confined (Nat.le_refl _) ⟨_, result⟩ fun m' tie _ =>
            ⟨.ok (v.translate S.image), m', ?_, .ok result, tie⟩
          rw [runToo m' tie, resolved m' tie]
          rfl
      | binding owner b =>
          have allowed : S.AllowsBinding b := by
            obtain ⟨j, -, f, frame, here⟩ := Chain.exists_of_search found
            cases value : Assoc.get? f.values name with
            | some v =>
                rw [value] at here
                cases here
            | none =>
                rw [value] at here
                obtain ⟨slot, declared, same⟩ := Option.map_eq_some_iff.mp here
                cases same
                exact confined.declares _ f name slot frame declared
          refine .of_tied run (fun m' tie => ?_) (force runner allowed (compute owner b allowed) m
            confined)
          rw [runToo m' tie, resolved m' tie]
          rfl

/-! ## Functions and effects -/

theorem once {l l' : Lambda} (function : S.value (.lambda l) (.lambda l'))
    {x x' : Runner → Eval Evaluated} (body : Tied C r r' S.result x x') :
    Tied C r r' S.result (fun r => Eval.once l.id (x r)) (fun r => Eval.once l'.id (x' r)) := by
  intro m confined
  have id : l'.id = S.renumber l.id := by
    rw [Value.lambda.inj function.image, Lambda.translate_eq]
    rfl
  rw [id]
  have run := Eval.once_apply l.id (x r) m
  have runToo : ∀ m', Eval.once (S.renumber l.id) (x' r') m' = _ :=
    Eval.once_apply (S.renumber l.id) (x' r')
  cases found : Assoc.get? m.forced l.id with
  | some done =>
      rw [found] at run
      have result : S.result done (done.translate S.image) :=
        ⟨rfl, fun plain => Assoc.fixed_of_get? (confined.forced plain) found⟩
      refine .of_runs run confined (Nat.le_refl _) ⟨_, result⟩ fun m' tie _ =>
        ⟨.ok (done.translate S.image), m', ?_, .ok result, tie⟩
      rw [runToo, tie.forced, found]
      rfl
  | none =>
      rw [found] at run
      have kept : ∀ done done', S.result done done' → Tied C r r' S.result
          (fun _ => Eval.keepForced l.id done)
          (fun _ => Eval.keepForced (S.renumber l.id) done') := by
        intro done done' related n confinedThen
        refine .of_runs rfl (confinedThen.keepForced l.id related.inert) (Nat.le_refl _)
          ⟨_, related⟩ fun n' tie _ => ⟨_, _, rfl, .ok related, ?_⟩
        rw [related.image]
        exact tie.keepForced l.id done
      refine .of_tied run (fun m' tie => ?_) ((body m confined).bind kept)
      rw [runToo, tie.forced, found]
      rfl

theorem makeLambda {d : Definition} (allowed : S.Allows (.function d)) :
    Tied C r r' S.result (fun _ => Evaluation.makeLambda d i)
      (fun _ => Evaluation.makeLambda d i) := by
  intro m confined
  have visible : S.Related (fun τ => Assoc.mapValues (Evaluated.translate τ))
      (m.chain.visible i) _ :=
    confined.chains.map (fun c => c.visible i) fun τ c => c.visible_under id τ i
  have same : Definition.trim S.keep d = d := by
    rw [C.kept]
    exact d.trim_true
  have result : ∀ id' captured', id' = S.renumber m.nextId →
      captured' = Assoc.mapValues (Evaluated.translate S.image) (m.chain.visible i) →
      S.result (.plain (.lambda ⟨m.nextId, d, m.chain.visible i⟩))
        (.plain (.lambda ⟨id', d, captured'⟩)) := by
    rintro id' captured' rfl rfl
    refine ⟨?_, fun plain => ?_⟩
    · rw [Evaluated.translate_plain, Value.translate_lambda, Lambda.translate_eq]
      simp only [Setting.image, Translation.trimming, same]
    · rw [Evaluated.translate_plain, Value.translate_lambda, Lambda.translate_eq]
      simp only [visible.inert plain, C.identities plain, S.made d (allowed plain)]
  have run : Evaluation.makeLambda d i m = (_, { m with nextId := m.nextId + 1 }) := rfl
  refine .of_runs run confined.counted (Nat.le_succ _) ⟨_, result _ _ rfl rfl⟩ fun m' tie fits =>
    ⟨_, _, rfl, .ok (result _ _ ?_ ?_), tie.counted⟩
  · rw [C.numbered m.nextId fits]
    exact tie.nextId
  · rw [tie.chain]
    exact m.chain.visible_under id S.image i

theorem drain {id : Nat} (source : S.value (.stream id) (.stream id)) :
    Tied C r r' S.values (fun _ => Eval.drain id) (fun _ => Eval.drain id) := by
  intro m confined
  have lasting : C.lasting = true := by
    cases apart : C.lasting with
    | true => rfl
    | false =>
        have secluded := (C.apart apart).1
        exact absurd (Value.stream.inj (source.inert secluded.plain)) (secluded.stream id)
  have result : S.values (m.stream id) ((m.stream id).map (Value.translate S.image)) :=
    ⟨rfl, confined.stream lasting id⟩
  refine .of_runs rfl (confined.drained id) (Nat.le_refl _) ⟨_, result⟩ fun m' tie _ =>
    ⟨_, _, rfl, .ok ?_, tie.drained lasting id⟩
  rw [tie.stream lasting]
  exact result

/-- Where the machines are apart, expressions are secluded. -/
theorem lasting_of {e : Expr} (allowed : S.Allows e) (outgoing : ¬ e.Secluded) :
    C.lasting = true := by
  cases apart : C.lasting with
  | true => rfl
  | false =>
      have secluded := (C.apart apart).1
      exact absurd (secluded.occurs e (allowed.root secluded.plain)) outgoing

theorem deliver {input : Expr} {component : String} (allowed : S.Allows (.sink input component))
    {v v' : Value} (related : S.value v v') :
    Tied C r r' S.value (fun _ => Eval.deliver component v)
      (fun _ => Eval.deliver component v') := by
  intro m confined
  have lasting : C.lasting = true := lasting_of allowed id
  have run := Eval.deliver_apply component v m
  cases found : Assoc.get? m.outlets component with
  | none =>
      rw [found] at run
      have signal : S.signal (.fault (LoadError.unknownComponent component).toFault)
          (.fault (LoadError.unknownComponent component).toFault) := .const fun _ => rfl
      refine .of_runs run confined (Nat.le_refl _) ⟨_, signal⟩ fun m' tie _ =>
        ⟨_, m', ?_, .error signal, tie⟩
      rw [Eval.deliver_apply, (tie.lasting lasting).outlets, found]
  | some outlet =>
      rw [found] at run
      have matched : S.Matches S.value
          ((m.deliver outlet v).1.mapError fun e => Signal.fault e.toFault)
          (((m.deliver outlet v).1.map (Value.translate S.image)).mapError fun e =>
            Signal.fault e.toFault) := by
        cases answered : (m.deliver outlet v).1 with
        | ok w =>
            exact .ok ⟨rfl, fun plain =>
              outlet.component.answered S.test _ v w answered (related.inert plain)⟩
        | error e => exact .error (.const fun τ => congrArg Signal.fault (e.translate_toFault τ))
      refine .of_runs run (confined.deliver outlet v) (Nat.le_refl _) matched.ends
        fun m' tie _ => ⟨_, (m'.deliver outlet v').2, ?_, matched, ?_⟩
      · rw [Eval.deliver_apply, (tie.lasting lasting).outlets, found, related.image]
        simp only [(tie.deliver lasting outlet v).1]
      · rw [related.image]
        exact (tie.deliver lasting outlet v).2

theorem withStore {act : Translation → α → α} {name : String} {args : List Expr}
    (allowed : S.Allows (.call "state" name args))
    {operation operation' : Nat → Store.Backend → Except StoreError α × Store.Backend}
    (related : ∀ n b, S.Related (fun τ o => (o.1.map (act τ), o.2)) (operation n b)
      (operation' n b)) :
    Tied C r r' (S.Related act) (fun _ => Evaluation.withStore operation "state" name)
      (fun _ => Evaluation.withStore operation' "state" name) := by
  intro m confined
  have lasting : C.lasting = true := lasting_of allowed fun secluded => secluded rfl
  have run := Evaluation.withStore_apply operation "state" name m
  cases found : m.store with
  | none =>
      rw [found] at run
      have signal : S.signal (.fault ((Fault.of .component "no state store configured").withCode
          "NO_STATE_STORE")) _ := .const fun _ => rfl
      refine .of_runs run confined (Nat.le_refl _) ⟨_, signal⟩ fun m' tie _ =>
        ⟨_, m', ?_, .error signal, tie⟩
      rw [Evaluation.withStore_apply, (tie.lasting lasting).store, found]
  | some s =>
      rw [found] at run
      have results := related s.attempts s.backend
      have backend : (operation' s.attempts s.backend).2 = (operation s.attempts s.backend).2 :=
        results.same Prod.snd fun _ _ => rfl
      have matched : S.Matches (S.Related act)
          ((operation s.attempts s.backend).1.mapError fun e =>
            Signal.fault ((Library.CallError.store e).toFault "state" name))
          ((operation' s.attempts s.backend).1.mapError fun e =>
            Signal.fault ((Library.CallError.store e).toFault "state" name)) := by
        obtain ⟨image, inert⟩ := results
        rw [image]
        rcases ran : operation s.attempts s.backend with ⟨e | a, _⟩
        · exact .error (.const fun τ => congrArg Signal.fault
            (Library.CallError.translate_toFault τ _ "state" name))
        · rw [ran] at inert
          exact .ok ⟨rfl, fun plain => Except.ok.inj (congrArg Prod.fst (inert plain))⟩
      refine .of_runs run (confined.stored _) (Nat.le_refl _) matched.ends fun m' tie _ =>
        ⟨_, _, ?_, matched, tie.stored lasting _⟩
      rw [Evaluation.withStore_apply, (tie.lasting lasting).store, found, ← backend]

theorem markHandled (flag : Bool) : Tied C r r' S.value (fun _ => Evaluation.markHandled i flag)
    (fun _ => Evaluation.markHandled i flag) := by
  intro m confined
  have run := Evaluation.markHandled_apply i flag m
  cases found : m.chain.nearest? i .handler with
  | none =>
      rw [found] at run
      have signal : S.signal (.fault ((Fault.of .function
          "called outside of an exception handler").inFunction "error" "handled")) _ :=
        .const fun _ => rfl
      refine .of_runs run confined (Nat.le_refl _) ⟨_, signal⟩ fun m' tie _ =>
        ⟨_, m', ?_, .error signal, tie⟩
      rw [Evaluation.markHandled_apply, tie.chain, Chain.nearest?_under, found]
  | some j =>
      rw [found] at run
      have result : S.value (.bool flag) (.bool flag) := .const fun _ => rfl
      have marked : Tied C r r' S.value _ _ := (setHandled (i := j) flag).bind
        (f := fun _ _ => Pure.pure (Value.bool flag)) (g := fun _ _ => Pure.pure (Value.bool flag))
        fun _ _ _ => pure result
      refine .of_tied run (fun m' tie => ?_) (marked m confined)
      rw [Evaluation.markHandled_apply, tie.chain, Chain.nearest?_under, found]
      rfl

end Tied

/-- **Whatever the rules allow goes alike on tied machines.** -/
theorem Alike.tied (runner : TiedRunner C r r') {μ : Mode} {i i' : Nat}
    (alike : Alike S μ i i' R x x') (same : i = i') : Tied C r r' R x x' := by
  have expr : ∀ e : Expr, e.trim S.keep = e := by
    rw [C.kept]
    exact Expr.trim_true
  have binding : Binding.trim S.keep = id := by
    rw [C.kept]
    exact funext Binding.trim_true
  induction alike with
  | pure related => exact .pure related
  | throw related =>
      exact fun m confined => .of_runs rfl confined (Nat.le_refl _) ⟨_, related⟩ fun m' tie _ =>
        ⟨_, _, rfl, .error related, tie⟩
  | bind first next ihFirst ihNext =>
      exact (ihFirst same).bind fun a a' related => ihNext a a' related same
  | catching first returned signalled passed passedToo ihFirst ihReturned ihSignalled =>
      exact fun m confined => (ihFirst same m confined).catching
        (fun a a' related => ihReturned a a' related same)
        (fun s s' related => ihSignalled s s' related same) passed
  | @run μ i i' e allowed =>
      subst same
      rw [expr]
      exact runner.eval e allowed i
  | current =>
      subst same
      exact .reads fun c c' chains => chains.map (fun c => c.current _) fun τ c =>
        c.current_under id τ _
  | cursor =>
      subst same
      exact .reads fun c c' chains => chains.map (fun c => c.cursor? _) fun τ c =>
        c.cursor?_under id τ _
  | isHandled =>
      subst same
      exact .reads fun c c' chains => (chains.same (fun c => c.isHandled _) fun τ c =>
        c.isHandled_under id τ _).symm
  | setCursor related =>
      subst same
      exact .setCursor related
  | setValue name related =>
      subst same
      exact .setValue name related
  | setHandled flag =>
      subst same
      exact .setHandled flag
  | within kind handlers body ih =>
      subst same
      exact .within runner kind fun j => ih j j rfl
  | letting kind handlers allowed body ih =>
      subst same
      rw [binding, List.map_id]
      exact .letting runner kind allowed fun j => ih j j rfl
  | unguarded h dropped body ih => cases dropped.symm.trans C.kept
  | @prefetch i i' bindings b member allowed compute ih =>
      subst same
      have computed := ih i i rfl
      rw [binding] at computed ⊢
      exact .prefetch runner allowed computed
  | named allowed compute ih =>
      subst same
      refine .named runner _ fun o b may => ?_
      have computed := ih o o b may rfl
      rw [binding] at computed
      exact computed
  | once function body ih => exact .once function (ih same)
  | makeLambda d allowed =>
      subst same
      have kept : d.trim S.keep = d := by
        rw [C.kept]
        exact d.trim_true
      rw [kept]
      exact .makeLambda allowed
  | drain source => exact .drain source
  | deliver allowed related => exact .deliver allowed related
  | withStore allowed related => exact .withStore allowed related
  | markHandled allowed flag =>
      subst same
      exact .markHandled flag

end TreeQuery
