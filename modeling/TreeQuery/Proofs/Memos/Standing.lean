import Mathlib
import TreeQuery.Proofs.Frames.Balance
import TreeQuery.Proofs.Lockstep.Ties

/-!
# What an evaluation leaves as it is remembered

No evaluation replaces what is remembered of let-bindings when it starts: the configurations that
are settled, the values kept for good or to the end of the run, and those in the slots of the frames
that are live. All of it stands at each evaluation that is started inside, and at the end
(`Machine.Stands`). For a value is stored only by a computation that found none when it began. The
same goes for the results of functions on access (`Machine.Retains`), and one induction over what a
computation can do shows both (`Alike.standing`). A reference that succeeds leaves the value it gives
to be found by those that follow.

What comes to be remembered while a let-binding is computed has no such standing: if the computation
refers to the same let-binding and that reference succeeds, what the reference leaves is replaced in
the end (`memo_replaced`).
-/

set_option autoImplicit false

namespace TreeQuery

/-- All that is remembered of let-bindings in the first machine is remembered, unchanged, in the
second. -/
structure Machine.Stands (base m : Machine) : Prop extends base.Extends m where
  perQuery : ∀ id v, Assoc.get? base.perQuery id = some v → Assoc.get? m.perQuery id = some v
  memos : ∀ j name v, base.chain.memo? j name = some v → m.chain.memo? j name = some v

/-- All results of functions on access that are kept in the first machine are kept, unchanged, in the
second. -/
def Machine.Retains (base m : Machine) : Prop :=
  ∀ id v, Assoc.get? base.forced id = some v → Assoc.get? m.forced id = some v

/-- Nothing the first machine has stored, for a let-binding or for a function on access, is replaced
in the second. -/
structure Machine.Preserves (base m : Machine) : Prop where
  stands : base.Stands m
  retains : base.Retains m

/-- The value of a let-binding is remembered, under the policy that is settled for it. -/
def Machine.Recalls (m : Machine) (owner : Nat) (b : Binding) (v : Evaluated) : Prop :=
  ∃ config, Assoc.get? m.configs b.id = some config ∧
    Evaluation.memo? config.reset owner b m = some v

/-- Inserting a key that was free earlier replaces nothing that was there earlier. -/
theorem Assoc.get?_insert_free {α : Type} {table table' : Assoc Nat α} {key : Nat}
    (free : Assoc.get? table key = none)
    (kept : ∀ id u, Assoc.get? table id = some u → Assoc.get? table' id = some u) (v : α) :
    ∀ id u, Assoc.get? table id = some u → Assoc.get? (Assoc.insert table' key v) id = some u := by
  intro id u found
  have apart : key ≠ id := by
    rintro rfl
    cases free.symm.trans found
  rw [Assoc.get?_insert, if_neg apart]
  exact kept id u found

theorem Chain.memo?_congr {c d : Chain} {j : Nat} (same : c.frame? j = d.frame? j)
    (name : String) : c.memo? j name = d.memo? j name := by
  rw [Chain.memo?, same, Chain.memo?]

theorem Chain.lt_of_memo? {c : Chain} {j : Nat} {name : String} {v : Evaluated}
    (found : c.memo? j name = some v) : j < c.size := by
  obtain ⟨f, frame, -⟩ := Option.bind_eq_some_iff.mp found
  exact Chain.lt_size_of_frame? frame

/-- A memo is found where it was stored, and nothing else changes. -/
theorem Chain.memo?_storeMemo (c : Chain) (i : Nat) (name : String) (v : Evaluated) (j : Nat)
    (other : String) : (c.storeMemo i name v).memo? j other =
      if j = i ∧ other = name then
        (c.frame? i).bind fun f => (Assoc.get? f.lets name).map fun _ => v
      else c.memo? j other := by
  simp only [Chain.memo?, Chain.storeMemo, Chain.frame?_update]
  by_cases here : j = i
  · subst here
    cases c.frame? j with
    | none => simp
    | some f =>
        by_cases same : other = name
        · subst same
          simp only [Option.map_some, Option.bind_some, Assoc.get?_modify, if_true, and_self]
          cases Assoc.get? f.lets other <;> rfl
        · simp [Assoc.get?_modify, same, Ne.symm same]
  · simp [here]

variable {base m m' m'' : Machine}

namespace Machine.Stands

theorem of_same (chain : m'.chain = m.chain) (configs : m'.configs = m.configs)
    (persistent : m'.persistent = m.persistent) (perQuery : m'.perQuery = m.perQuery) :
    m.Stands m' := by
  refine ⟨⟨fun id config found => ?_, fun id v found => ?_⟩, fun id v found => ?_,
    fun j name v found => ?_⟩
  · rw [configs, found]
  · rw [persistent, found]
  · rw [perQuery, found]
  · rw [chain, found]

theorem refl (m : Machine) : m.Stands m :=
  of_same rfl rfl rfl rfl

theorem trans (first : m.Stands m') (second : m'.Stands m'') : m.Stands m'' :=
  ⟨first.toExtends.trans second.toExtends,
    fun id v found => second.perQuery id v (first.perQuery id v found),
    fun j name v found => second.memos j name v (first.memos j name v found)⟩

theorem memo? (stands : m.Stands m') {reset : ResetPolicy} {owner : Nat} {b : Binding}
    {v : Evaluated} (found : Evaluation.memo? reset owner b m = some v) :
    Evaluation.memo? reset owner b m' = some v := by
  cases reset with
  | afterScope => exact stands.memos owner b.name v found
  | afterQuery => exact stands.perQuery b.id v found
  | never => exact stands.persistent b.id v found
  | always => cases found

theorem recalls (stands : m.Stands m') {owner : Nat} {b : Binding} {v : Evaluated}
    (recalled : m.Recalls owner b v) : m'.Recalls owner b v := by
  obtain ⟨config, settled, memo⟩ := recalled
  exact ⟨config, stands.configs b.id config settled, stands.memo? memo⟩

end Machine.Stands

namespace Machine.Retains

theorem of_same (same : m'.forced = m.forced) : m.Retains m' := fun id v found => by
  rw [same, found]

theorem refl (m : Machine) : m.Retains m :=
  of_same rfl

theorem trans (first : m.Retains m') (second : m'.Retains m'') : m.Retains m'' :=
  fun id v found => second id v (first id v found)

end Machine.Retains

/-! ## Steps that replace nothing -/

namespace Machine.Preserves

theorem of_same (chain : m'.chain = m.chain) (configs : m'.configs = m.configs)
    (persistent : m'.persistent = m.persistent) (perQuery : m'.perQuery = m.perQuery)
    (forced : m'.forced = m.forced) : m.Preserves m' :=
  ⟨.of_same chain configs persistent perQuery, .of_same forced⟩

theorem refl (m : Machine) : m.Preserves m :=
  of_same rfl rfl rfl rfl rfl

theorem trans (first : m.Preserves m') (second : m'.Preserves m'') : m.Preserves m'' :=
  ⟨first.stands.trans second.stands, first.retains.trans second.retains⟩

/-- A change to a frame that leaves its slots alone. -/
theorem update (m : Machine) (k : Nat) {change : Frame → Frame}
    (kept : ∀ f, (change f).lets = f.lets) :
    m.Preserves (m.onChain fun c => c.update k change) := by
  refine ⟨⟨⟨fun _ _ found => found, fun _ _ found => found⟩, fun _ _ found => found,
    fun j name v found => ?_⟩, .of_same rfl⟩
  obtain ⟨f, frame, memo⟩ := Option.bind_eq_some_iff.mp found
  simp only [Machine.onChain, Chain.memo?, Chain.frame?_update, frame, Option.map_some]
  split
  · rw [Option.bind_some, kept]
    exact memo
  · exact memo

/-- A new frame on top hides nothing. -/
theorem grown {i : Nat} (grown : Grown i m m') (persistent : m'.persistent = m.persistent)
    (perQuery : m'.perQuery = m.perQuery) (forced : m'.forced = m.forced) : m.Preserves m' := by
  refine ⟨⟨⟨fun id config found => ?_, fun id v found => ?_⟩, fun id v found => ?_,
    fun j name v found => ?_⟩, .of_same forced⟩
  · rw [grown.configs, found]
  · rw [persistent, found]
  · rw [perQuery, found]
  · rw [Chain.memo?_congr (grown.below j (Chain.lt_of_memo? found)), found]

/-- Dropping the frames above leaves what was remembered before they came. -/
theorem truncate (preserves : m.Preserves m') :
    m.Preserves (m'.onChain fun c => c.truncate m.chain.size) := by
  obtain ⟨stands, retains⟩ := preserves
  refine ⟨⟨⟨stands.configs, stands.persistent⟩, stands.perQuery, fun j name v found => ?_⟩, retains⟩
  have below := Chain.lt_of_memo? found
  rw [← stands.memos j name v found]
  refine Chain.memo?_congr ?_ name
  simp only [Machine.onChain, Chain.frame?_truncate, if_pos below]

/-- A configuration is settled where there was none. -/
theorem settled {b : Binding} (preserves : m.Preserves m')
    (fresh : Assoc.get? m.configs b.id = none) (config : BindingConfig) :
    m.Preserves (Evaluation.settled b config m') := by
  obtain ⟨stands, retains⟩ := preserves
  have configs := Assoc.get?_insert_free fresh stands.configs config
  exact ⟨⟨⟨configs, stands.persistent⟩, stands.perQuery, stands.memos⟩, retains⟩

/-- A memo is stored where there was none. -/
theorem storeMemo {reset : ResetPolicy} {owner : Nat} {b : Binding} (preserves : m.Preserves m')
    (missing : Evaluation.memo? reset owner b m = none) (v : Evaluated) :
    m.Preserves (Evaluation.storeMemo reset owner b v m') := by
  obtain ⟨stands, retains⟩ := preserves
  cases reset with
  | afterScope =>
      refine ⟨⟨⟨stands.configs, stands.persistent⟩, stands.perQuery, fun j name u found => ?_⟩,
        retains⟩
      have apart : ¬ (j = owner ∧ name = b.name) := by
        rintro ⟨rfl, rfl⟩
        cases missing.symm.trans found
      simp only [Evaluation.storeMemo, Machine.onChain, Chain.memo?_storeMemo, if_neg apart]
      exact stands.memos j name u found
  | afterQuery =>
      have perQuery := Assoc.get?_insert_free missing stands.perQuery v
      exact ⟨⟨⟨stands.configs, stands.persistent⟩, perQuery, stands.memos⟩, retains⟩
  | never =>
      have persistent := Assoc.get?_insert_free missing stands.persistent v
      exact ⟨⟨⟨stands.configs, persistent⟩, stands.perQuery, stands.memos⟩, retains⟩
  | always => exact ⟨stands, retains⟩

/-- A result is kept where there was none. -/
theorem keepForced {id : Nat} (preserves : m.Preserves m') (fresh : Assoc.get? m.forced id = none)
    (done : Evaluated) : m.Preserves { m' with forced := Assoc.insert m'.forced id done } := by
  obtain ⟨stands, retains⟩ := preserves
  exact ⟨stands.trans (.of_same rfl rfl rfl rfl), Assoc.get?_insert_free fresh retains done⟩

end Machine.Preserves

/-! ## References to what is remembered -/

namespace Machine.Recalls

variable {owner : Nat} {b : Binding} {v : Evaluated}

/-- A let-binding whose value is remembered is not computed again. -/
theorem force (recalled : m.Recalls owner b v) (run : Runner) :
    Evaluation.force run owner b m = (.ok v, m) := by
  obtain ⟨config, settled, memo⟩ := recalled
  rw [Evaluation.force_settled (Evaluation.letConfig_known settled)]
  exact Evaluation.memoized_found memo

theorem named (recalled : m.Recalls owner b v) {i : Nat} {name : String}
    (resolved : m.chain.resolve? i name = some (.binding owner b)) (run : Runner) :
    Evaluation.node run (.named name) i m = (.ok v, m) := by
  have rule := Evaluation.nameRef_apply run name i m
  rw [resolved] at rule
  exact rule.trans (recalled.force run)

end Machine.Recalls

/-- Wherever something is evaluated, what was remembered at the beginning still is. A name that
stands for a let-binding whose value was remembered gives that value, and nothing is evaluated. -/
def Watch.standing (base : Machine) : Watch where
  starts _ e i m := base.Stands m ∧ ∀ name owner b v, e = .named name →
    m.chain.resolve? i name = some (.binding owner b) → base.Recalls owner b v →
      ∀ run, Evaluation.node run e i m = (.ok v, m)
  opens _ _ _ := True

theorem Machine.Stands.starts (stands : base.Stands m) (left : Nat) (e : Expr) (i : Nat) :
    (Watch.standing base).starts left e i m := by
  refine ⟨stands, ?_⟩
  rintro name owner b v rfl resolved recalled run
  exact (stands.recalls recalled).named resolved run

/-! ## Computations that replace nothing -/

/-- A computation that replaces nothing that is stored, and comes to the same with either of two
evaluations of its parts. -/
structure StandsAt (w r : Runner) {α : Type} (x : Runner → Eval α) (m : Machine) : Prop where
  agree : x w m = x r m
  preserves : m.Preserves (x r m).2

def Standing (base : Machine) (w r : Runner) (μ : Mode) (i : Nat) {α : Type}
    (x : Runner → Eval α) : Prop :=
  ∀ m, Ready .whole μ i m → base.Stands m → StandsAt w r x m

structure StandingRunner (base : Machine) (w r : Runner) : Prop where
  sound : SoundRunner .whole r r
  eval : ∀ e i, Standing base w r .shared i fun r => r e i
  within : ∀ {α : Type} (kind : FrameKind) (i : Nat) (body : Nat → Eval α),
    w.within kind i body = Eval.within kind i body

variable {w r : Runner} {μ : Mode} {i : Nat} {α β : Type}

namespace StandsAt

theorem of_runs {x y : Runner → Eval α} (watched : x w m = y w m) (run : x r m = y r m)
    (after : StandsAt w r y m) : StandsAt w r x m := by
  refine ⟨by rw [watched, run, after.agree], ?_⟩
  rw [run]
  exact after.preserves

/-- A computation that does not evaluate parts. -/
theorem steps {x : Eval α} (preserves : m.Preserves (x m).2) : StandsAt w r (fun _ => x) m :=
  ⟨rfl, preserves⟩

theorem catching {x : Runner → Eval α} {f : Except Signal α → Runner → Eval β}
    (first : StandsAt w r x m) (next : StandsAt w r (f (x r m).1) (x r m).2) :
    StandsAt w r (fun r => Eval.attempt (x r) >>= fun o => f o r) m := by
  refine ⟨?_, first.preserves.trans next.preserves⟩
  simp only [Eval.attempt_bind, first.agree]
  exact next.agree

theorem bind {x : Runner → Eval α} {f : α → Runner → Eval β} (first : StandsAt w r x m)
    (next : ∀ a, (x r m).1 = .ok a → StandsAt w r (f a) (x r m).2) :
    StandsAt w r (fun r => x r >>= fun a => f a r) m := by
  rw [Eval.bind_eq_attempt_open x f]
  refine first.catching ?_
  cases outcome : (x r m).1 with
  | ok a => exact next a outcome
  | error s => exact .steps (.refl _)

/-- A computation, and then a step that replaces nothing that was there before the computation. -/
theorem thenStep {x : Runner → Eval α} {f : α → Eval β} (first : StandsAt w r x m)
    (next : ∀ a n, m.Preserves n → m.Preserves (f a n).2) : StandsAt w r (fun r => x r >>= f) m := by
  rw [Eval.bind_eq_attempt_open x fun a _ => f a]
  refine ⟨by simp only [Eval.attempt_bind, first.agree], ?_⟩
  rw [Eval.attempt_bind]
  cases (x r m).1 with
  | ok a => exact next a _ first.preserves
  | error s => exact first.preserves

/-- What happens in a new frame on top replaces nothing that was stored before. -/
theorem framed {n : Machine} {x y : Runner → Eval α} (grown : m.Preserves n)
    (inside : StandsAt w r y n)
    (watched : x w m = ((y w n).1, (y w n).2.onChain fun c => c.truncate m.chain.size))
    (run : x r m = ((y r n).1, (y r n).2.onChain fun c => c.truncate m.chain.size)) :
    StandsAt w r x m := by
  refine ⟨by rw [watched, run, inside.agree], ?_⟩
  rw [run]
  exact (grown.trans inside.preserves).truncate

end StandsAt

namespace Standing

/-- What replaces nothing in a frame replaces nothing in the frames nested in it. -/
theorem ofShared {x : Runner → Eval α} (standing : Standing base w r .shared i x) :
    Standing base w r μ i x :=
  fun m ready stands => standing m (ready.shared ready.live) stands

theorem settle (b : Binding) (v : Evaluated) {n : Machine} (preserves : m.Preserves n)
    (fresh : Assoc.get? m.configs b.id = none) : m.Preserves (Evaluation.settle b v n).2 := by
  unfold Evaluation.settle
  split
  · exact preserves.settled fresh _
  · exact preserves

theorem letConfig (runner : StandingRunner base w r) (b : Binding) :
    Standing base w r .shared i fun r => Evaluation.letConfig r b i := by
  intro m ready stands
  cases known : Assoc.get? m.configs b.id with
  | some config =>
      have run := fun r => Evaluation.letConfig_known (r := r) (i := i) known
      refine .of_runs (run w) (run r) (y := fun _ m => (.ok config, m)) (.steps (.refl m))
  | none =>
      cases given : b.config with
      | none =>
          have run := fun r => Evaluation.letConfig_default (r := r) (i := i) known given
          exact .of_runs (run w) (run r) (y := fun _ _ => (.ok _, Evaluation.settled b _ m))
            (.steps ((Machine.Preserves.refl m).settled known _))
      | some e =>
          have run := fun r => Evaluation.letConfig_computed (r := r) (i := i) known given
          exact .of_runs (run w) (run r) ((runner.eval e i m ready stands).thenStep
            fun v n kept => settle b v kept known)

theorem memoized {b : Binding} (compute : Standing base w r .shared i fun r =>
      Evaluation.compute r i b) (config : BindingConfig) :
    Standing base w r .shared i fun r => Evaluation.memoized r i b config := by
  intro m ready stands
  cases found : Evaluation.memo? config.reset i b m with
  | some v =>
      have run := fun r => Evaluation.memoized_found (r := r) found
      exact .of_runs (run w) (run r) (y := fun _ m => (.ok v, m)) (.steps (.refl m))
  | none =>
      have run := fun r => Evaluation.memoized_missing (r := r) found
      exact .of_runs (run w) (run r) ((compute m ready stands).thenStep
        fun v n kept => kept.storeMemo found _)

theorem force (runner : StandingRunner base w r) {b : Binding}
    (compute : Standing base w r .shared i fun r => Evaluation.compute r i b) :
    Standing base w r .shared i fun r => Evaluation.force r i b := by
  intro m ready stands
  simp only [Evaluation.force_eq]
  have config := letConfig runner b m ready stands
  refine config.bind fun c _ => memoized compute c _ ?_ (stands.trans config.preserves.stands)
  exact (Sound.letConfig runner.sound (nofun : Setting.whole.AllowsBinding b) m ready).ready

theorem prefetch (runner : StandingRunner base w r) {b : Binding}
    (compute : Standing base w r .shared i fun r => Evaluation.compute r i b) :
    Standing base w r .shared i fun r => Evaluation.prefetch r i b := by
  intro m ready stands
  have config := letConfig runner b m ready stands
  have readyNext :=
    (Sound.letConfig runner.sound (nofun : Setting.whole.AllowsBinding b) m ready).ready
  refine config.bind fun c _ => ?_
  by_cases eager : c.timing = .eager
  · simp only [eager, if_true]
    exact (force runner compute _ readyNext (stands.trans config.preserves.stands)).thenStep
      fun _ _ kept => kept
  · simp only [eager, if_false]
    exact .steps (.refl _)

theorem named (runner : StandingRunner base w r) (name : String)
    (compute : ∀ o b, Standing base w r .shared o fun r => Evaluation.compute r o b) :
    Standing base w r μ i fun r => Evaluation.nameRef r name i := by
  intro m ready stands
  have run := fun r => Evaluation.nameRef_apply r name i m
  cases found : m.chain.resolve? i name with
  | none =>
      simp only [found] at run
      exact .of_runs (run w) (run r) (y := fun _ m => (.ok _, m)) (.steps (.refl m))
  | some resolved =>
      simp only [found] at run
      cases resolved with
      | value v => exact .of_runs (run w) (run r) (y := fun _ m => (.ok v, m)) (.steps (.refl m))
      | binding owner b =>
          obtain ⟨live, -⟩ := Chain.slot_of_resolve? ready.nested found
          exact .of_runs (run w) (run r)
            (force runner (compute owner b) m (ready.shared live) stands)

theorem within (runner : StandingRunner base w r) {kind : FrameKind} {x : Nat → Runner → Eval α}
    (body : ∀ j, Standing base w r .own j (x j)) :
    Standing base w r μ i fun r => r.within kind i fun j => x j r := by
  intro m ready stands
  have pushed : m.Preserves (m.onChain fun c => c.push kind (some i)) :=
    .grown (.push m kind i) rfl rfl rfl
  refine .framed pushed (body _ _ (ready.push kind) (stands.trans pushed.stands)) ?_ ?_
  · rw [runner.within]
    exact Eval.within_apply kind i _ m
  · rw [runner.sound.opens]
    exact Eval.within_apply kind i _ m

theorem letting (runner : StandingRunner base w r) {kind : FrameKind} {bindings : List Binding}
    {x : Nat → Runner → Eval α} (body : ∀ j, Standing base w r (.letting bindings) j (x j)) :
    Standing base w r μ i (fun r => r.within kind i fun j => do
      Evaluation.declareAll j bindings
      x j r) := by
  intro m ready stands
  have pushed : m.Preserves (m.letFrame kind i bindings) :=
    .grown (.letFrame m kind i bindings) rfl rfl rfl
  have readyInside : Ready .whole (.letting bindings) m.chain.size (m.letFrame kind i bindings) :=
    ready.letFrame (.basic ..) kind (nofun : Setting.whole.AllowsLet bindings)
  refine .framed pushed (body _ _ readyInside (stands.trans pushed.stands)) ?_ ?_
  · rw [runner.within]
    exact Eval.letFrame_apply kind i bindings (fun j => x j w) m
  · rw [runner.sound.opens]
    exact Eval.letFrame_apply kind i bindings (fun j => x j r) m

theorem once (id : Nat) {x : Runner → Eval Evaluated} (body : Standing base w r μ i x) :
    Standing base w r μ i fun r => Eval.once id (x r) := by
  intro m ready stands
  have run := fun y => Eval.once_apply id y m
  cases found : Assoc.get? m.forced id with
  | some done =>
      simp only [found] at run
      exact .of_runs (run (x w)) (run (x r)) (y := fun _ m => (.ok done, m)) (.steps (.refl m))
  | none =>
      simp only [found] at run
      exact .of_runs (run (x w)) (run (x r)) ((body m ready stands).thenStep
        fun done _ kept => kept.keepForced found done)

theorem deliver (component : String) (v : Value) :
    Standing base w r μ i fun _ => Eval.deliver component v := by
  intro m ready stands
  have run := Eval.deliver_apply component v m
  refine .steps ?_
  rw [run]
  cases Assoc.get? m.outlets component <;> exact .of_same rfl rfl rfl rfl rfl

theorem withStore (operation : Nat → Store.Backend → Except StoreError α × Store.Backend)
    (library name : String) :
    Standing base w r μ i fun _ => Evaluation.withStore operation library name := by
  intro m ready stands
  refine .steps ?_
  rw [Evaluation.withStore_apply]
  cases m.store <;> exact .of_same rfl rfl rfl rfl rfl

theorem markHandled (flag : Bool) :
    Standing base w r μ i fun _ => Evaluation.markHandled i flag := by
  intro m ready stands
  refine .steps ?_
  rw [Evaluation.markHandled_apply]
  cases m.chain.nearest? i .handler with
  | none => exact .refl m
  | some j => exact .update m j fun _ => rfl

end Standing

/-- **Whatever the rules allow replaces nothing that is stored.** -/
theorem Alike.standing (runner : StandingRunner base w r) {i' : Nat} {R : α → α → Prop}
    {x x' : Runner → Eval α} (alike : Alike .whole μ i i' R x x') :
    Standing base w r μ i x := by
  induction alike with
  | pure | throw | current | cursor | isHandled | makeLambda | drain =>
      exact fun m _ _ => .steps (.of_same rfl rfl rfl rfl rfl)
  | bind first next ihFirst ihNext =>
      intro m ready stands
      have ran := ihFirst m ready stands
      obtain ⟨readyNext, ends⟩ := first.next rfl runner.sound ready
      refine ran.bind fun a outcome => ?_
      rw [outcome] at ends
      obtain ⟨a', related⟩ := ends
      exact ihNext a a' related _ readyNext (stands.trans ran.preserves.stands)
  | @catching _ _ _ _ _ _ _ x _ _ _ first returned signalled passed passedToo ihFirst ihReturned
      ihSignalled =>
      intro m ready stands
      have ran := ihFirst m ready stands
      obtain ⟨readyNext, ends⟩ := first.next rfl runner.sound ready
      have standsNext := stands.trans ran.preserves.stands
      exact ran.catching (ends.elim
        (fun a a' related => ihReturned a a' related _ readyNext standsNext)
        fun s s' related => ihSignalled s s' related _ readyNext standsNext)
  | run allowed => exact .ofShared (runner.eval _ _)
  | setCursor | setValue | setHandled => exact fun m _ _ => .steps (.update m _ fun _ => rfl)
  | within kind handlers body ih => exact .within runner fun j => ih j 0
  | letting kind handlers allowed body ih => exact .letting runner fun j => ih j 0
  | unguarded h dropped => cases dropped
  | prefetch member allowed compute ih => exact .ofShared (.prefetch runner (ih _ 0))
  | named allowed compute ih =>
      exact .named runner _ fun o b => ih o 0 b (nofun : Setting.whole.AllowsBinding b)
  | once function body ih => exact .once _ ih
  | deliver => exact .deliver _ _
  | withStore => exact .withStore _ _ _
  | markHandled allowed flag => exact .markHandled flag

/-! ## Evaluation -/

theorem StandingRunner.watched (base : Machine) (other : Runner) (left : Nat) :
    StandingRunner base (watched (.standing base) other left) (.ofDepth left) := by
  have sound := fun left => SoundRunner.ofDepth (S := .whole) rfl (.basic ..) left
  have opens : ∀ {α : Type} (left : Nat) (kind : FrameKind) (i : Nat) (body : Nat → Eval α),
      (TreeQuery.watched (.standing base) other left).within kind i body =
        Eval.within kind i body := by
    intro α left kind i body
    funext m
    exact watched_within trivial
  refine ⟨sound left, ?_, opens left⟩
  induction left with
  | zero =>
      intro e i m ready stands
      exact ⟨watched_zero (stands.starts 0 e i), .refl m⟩
  | succ left ih =>
      intro e i m ready stands
      have runner : StandingRunner base (TreeQuery.watched (.standing base) other left)
          (.ofDepth left) := ⟨sound left, ih, opens left⟩
      have alike : Alike .whole .shared i i _ (fun r => Evaluation.node r e i) _ :=
        .node (.of_effects rfl e)
      have same : m.Preserves { m with depth := m.depth + 1 } := .of_same rfl rfl rfl rfl rfl
      have node := alike.standing runner { m with depth := m.depth + 1 } (ready.atDepth _)
        (stands.trans same.stands)
      refine ⟨?_, (same.trans node.preserves).trans (.of_same rfl rfl rfl rfl rfl)⟩
      rw [watched_succ (stands.starts (left + 1) e i)]
      simp only [Eval.deeper, node.agree]
      rfl

/-! ## References that succeed -/

/-- What a frame declares is declared there to the end of a computation. -/
theorem Keeps.declares {S : Setting} (keeps : Keeps S μ i m m') {j : Nat} {name : String}
    (declared : ∃ f slot, m.chain.frame? j = some f ∧ Assoc.get? f.lets name = some slot) :
    ∃ f slot, m'.chain.frame? j = some f ∧ Assoc.get? f.lets name = some slot := by
  obtain ⟨f, slot, frame, there⟩ := declared
  obtain ⟨f', frame', kept⟩ := keeps.frame j f frame
  have still : Assoc.get? f'.declared name = some slot.binding := by
    rw [kept.declared, Frame.declared, Assoc.get?_mapValues, there]
    rfl
  rw [Frame.declared, Assoc.get?_mapValues] at still
  obtain ⟨slot', there', -⟩ := Option.map_eq_some_iff.mp still
  exact ⟨f', slot', frame', there'⟩

namespace Evaluation

variable {owner : Nat} {b : Binding}

/-- The configuration that a let-binding is found to have is settled. -/
theorem letConfig_settles {config : BindingConfig} (ran : letConfig r b owner m = (.ok config, m')) :
    Assoc.get? m'.configs b.id = some config := by
  have inserted : ∀ n : Machine, Assoc.get? (settled b config n).configs b.id = some config :=
    fun n => by simp only [settled, Assoc.get?_insert, if_true]
  cases known : Assoc.get? m.configs b.id with
  | some known' =>
      cases (letConfig_known known).symm.trans ran
      exact known
  | none =>
      cases given : b.config with
      | none =>
          cases (letConfig_default known given).symm.trans ran
          exact inserted m
      | some e =>
          rw [letConfig_computed known given] at ran
          rcases first : r e owner m with ⟨_ | v, n⟩
          · rw [Eval.bind_error first] at ran
            cases ran
          · rw [Eval.bind_ok first, settle] at ran
            split at ran
            · cases ran
              exact inserted n
            · cases ran

/-- A memo that is stored is found again, if the let-binding is declared. -/
theorem memo?_storeMemo {reset : ResetPolicy} (kept : reset ≠ .always)
    (declared : ∃ f slot, m.chain.frame? owner = some f ∧ Assoc.get? f.lets b.name = some slot)
    (v : Evaluated) : memo? reset owner b (storeMemo reset owner b v m) = some v := by
  obtain ⟨f, slot, frame, there⟩ := declared
  cases reset with
  | afterScope =>
      simp only [memo?, storeMemo, Machine.onChain, Chain.memo?_storeMemo, and_self, if_true, frame,
        Option.bind_some, there, Option.map_some]
  | afterQuery | never => simp only [memo?, storeMemo, Assoc.get?_insert, if_true]
  | always => exact absurd rfl kept

theorem configs_storeMemo (reset : ResetPolicy) (owner : Nat) (b : Binding) (v : Evaluated)
    (m : Machine) : (storeMemo reset owner b v m).configs = m.configs := by
  cases reset <;> rfl

/-- What is computed for a let-binding, once its configuration is settled, is left to be found. -/
theorem memoized_recalls {left : Nat} {config : BindingConfig} (ready : Ready .whole .shared owner m)
    (declared : ∃ f slot, m.chain.frame? owner = some f ∧ Assoc.get? f.lets b.name = some slot)
    (settled : Assoc.get? m.configs b.id = some config) {v : Evaluated}
    (ran : memoized (.ofDepth left) owner b config m = (.ok v, m')) :
    Assoc.get? m'.configs b.id = some config ∧ (config.reset ≠ .always → m'.Recalls owner b v) := by
  cases found : memo? config.reset owner b m with
  | some u =>
      cases (memoized_found found).symm.trans ran
      exact ⟨settled, fun _ => ⟨config, settled, found⟩⟩
  | none =>
      rw [memoized_missing found] at ran
      have alike : Alike .whole .shared owner owner _ (fun r => compute r owner b) _ :=
        .compute (nofun : Setting.whole.AllowsBinding b)
      have keeps := (alike.sound rfl (.ofDepth rfl (.basic ..) left) m ready).keeps
      have stands :=
        (alike.standing (.watched m (.ofDepth left) left) m ready (.refl m)).preserves.stands
      rcases computed : compute (.ofDepth left) owner b m with ⟨_ | u, n⟩
      · rw [Eval.bind_error computed] at ran
        cases ran
      · rw [Eval.bind_ok computed] at ran
        rw [computed] at keeps stands
        cases ran
        have still : Assoc.get?
            (storeMemo config.reset owner b (dressed config u) n).configs b.id = some config := by
          rw [configs_storeMemo]
          exact stands.configs b.id config settled
        exact ⟨still, fun kept => ⟨config, still, memo?_storeMemo kept (keeps.declares declared) _⟩⟩

/-- A let-binding that is referred to with success has a settled configuration, and unless its policy
is to remember nothing, its value is left to be found. -/
theorem force_recalls {left : Nat} (nested : m.chain.Nested) {i : Nat}
    (resolved : m.chain.resolve? i b.name = some (.binding owner b)) {v : Evaluated}
    (ran : force (.ofDepth left) owner b m = (.ok v, m')) :
    ∃ config, Assoc.get? m'.configs b.id = some config ∧
      (config.reset ≠ .always → m'.Recalls owner b v) := by
  obtain ⟨live, f, slot, frame, declared, -⟩ := Chain.slot_of_resolve? nested resolved
  have ready : Ready .whole .shared owner m := ⟨nested, live, nofun⟩
  obtain ⟨-, keeps, readyNext, -⟩ := Sound.letConfig (.ofDepth (S := .whole) rfl (.basic ..) left)
    (nofun : Setting.whole.AllowsBinding b) m ready
  rw [force_eq] at ran
  rcases first : letConfig (.ofDepth left) b owner m with ⟨_ | config, n⟩
  · rw [Eval.bind_error first] at ran
    cases ran
  · rw [Eval.bind_ok first] at ran
    rw [first] at keeps readyNext
    exact ⟨config, memoized_recalls readyNext (keeps.declares ⟨f, slot, frame, declared⟩)
      (letConfig_settles first) ran⟩

end Evaluation

/-! ## Every evaluation of every run -/

/-- What an evaluation does to what is remembered of let-bindings. -/
structure LeavesMemos (left : Nat) (e : Expr) (i : Nat) (m : Machine) : Prop where
  /-- What is remembered when it starts is remembered when it ends. -/
  stands : m.Stands (eval left e i m).2
  /-- So it is at each evaluation in between, and references to it find it. -/
  throughout : Throughout (.standing m) left fun run => run e i m
  /-- A reference that succeeds leaves its value to be found, unless nothing is to be remembered. -/
  recalls : ∀ owner b v m', e = .named b.name →
    m.chain.resolve? i b.name = some (.binding owner b) → eval left e i m = (.ok v, m') →
      ∃ config, Assoc.get? m'.configs b.id = some config ∧
        (config.reset ≠ .always → m'.Recalls owner b v)

theorem eval_leavesMemos (nested : m.chain.Nested) (live : i < m.chain.size) (left : Nat)
    (e : Expr) : LeavesMemos left e i m := by
  have ready : Ready .whole .shared i m := ⟨nested, live, nofun⟩
  have ran := fun other => (StandingRunner.watched m other left).eval e i m ready (.refl m)
  refine ⟨(ran (.ofDepth left)).preserves.stands, fun other => (ran other).agree, ?_⟩
  rintro owner b v m' rfl resolved outcome
  cases left with
  | zero => cases outcome
  | succ left =>
      have rule := Evaluation.nameRef_apply (.ofDepth left) b.name i { m with depth := m.depth + 1 }
      simp only [resolved] at rule
      rcases forced : Evaluation.force (.ofDepth left) owner b { m with depth := m.depth + 1 }
        with ⟨o, n⟩
      have whole : eval (left + 1) (.named b.name) i m = (o, { n with depth := n.depth - 1 }) := by
        change Eval.deeper (Evaluation.nameRef (.ofDepth left) b.name i) m = _
        simp only [Eval.deeper, rule, forced]
      cases whole.symm.trans outcome
      obtain ⟨config, settled, recalls⟩ :=
        Evaluation.force_recalls (i := i) (m := { m with depth := m.depth + 1 }) nested resolved forced
      have same : n.Stands { n with depth := n.depth - 1 } := .of_same rfl rfl rfl rfl
      exact ⟨config, settled, fun kept => same.recalls (recalls kept)⟩

/-- At each evaluation that is started, what is remembered is left as it is. -/
def Watch.leavesMemos : Watch where
  starts left e i m := LeavesMemos left e i m
  opens _ _ _ := True

/-- **What is remembered when an evaluation starts is not replaced by it.** This holds of every
expression in every live frame, and so of every evaluation that is started while a program runs.
All that is remembered stands at each evaluation inside and at the end, and a reference that succeeds
leaves its value to be found. As long as it stands, every reference to the let-binding gives that
value, and nothing is evaluated. -/
theorem Machine.memos_stand (m : Machine) (nested : m.chain.Nested) :
    (∀ left e i, i < m.chain.size → LeavesMemos left e i m) ∧
    (∀ p input, Throughout .leavesMemos m.depthLeft fun run => m.evaluateWith run p input) ∧
    ∀ owner b v, m.Recalls owner b v → ∀ m' i name, m.Stands m' →
      m'.chain.resolve? i name = some (.binding owner b) →
        ∀ run, Evaluation.node run (.named name) i m' = (.ok v, m') := by
  refine ⟨fun left e i live => eval_leavesMemos nested live left e, fun p input other => ?_,
    fun owner b v recalled m' i name stands resolved run =>
      (stands.recalls recalled).named resolved run⟩
  have runner : SoundRunner .whole (watched .leavesMemos other m.depthLeft)
      (.ofDepth m.depthLeft) :=
    .watched rfl (.basic ..)
      (fun left e i m ready => eval_leavesMemos ready.nested ready.live left e)
      (fun _ _ _ _ _ => trivial) other m.depthLeft
  have alike : Alike .whole .shared m.chain.size m.chain.size _ _ _ :=
    .runRoot .whole (p := p) (.of_effects rfl _) fun e _ => .of_effects rfl e
  have ready : Ready .whole .shared m.chain.size (m.enter input) := by
    refine ⟨m.enter_nested nested input, ?_, nofun⟩
    rw [m.enter_size]
    omega
  have root : m.runRoot (watched .leavesMemos other m.depthLeft) p input =
      m.runRoot (.ofDepth m.depthLeft) p input := (alike.sound rfl runner _ ready).agree
  simp only [Machine.evaluateWith, root]

/-- A let-binding whose computation refers to it, and takes another course the second time. -/
def reentrant : Binding where
  id := 0
  name := "x"
  expr := .conditional (.call "state" "get" [.text "begun"]) (.text "inner")
    (some (.conditional (.call "state" "set" [.text "begun", .bool true])
      (.conditional (.call "state" "set" [.text "seen", .named "x"]) (.text "outer") none) none))
  config := none
  handler := none

/-- The frame that declares it, on a machine with a store. -/
def reentrantMachine : Machine where
  chain := ((({} : Chain).push .query none).push .letIn (some 0)).declare 1 reentrant
  store := some { attempts := 1 }

theorem memos_stand_reentrant :
    reentrantMachine.chain.Nested ∧ 1 < reentrantMachine.chain.size ∧
      LeavesMemos 20 (.named "x") 1 reentrantMachine ∧
      (eval 20 (.named "x") 1 reentrantMachine).2.Recalls 1 reentrant (.plain (.text "outer")) := by
  have nested : reentrantMachine.chain.Nested :=
    (((Chain.Nested.of_size (c := {}) rfl).push (by simp) .query).push
      (by simp [Chain.size, Chain.push]) .letIn).update 1 fun _ => rfl
  have live : 1 < reentrantMachine.chain.size := by decide
  exact ⟨nested, live, (reentrantMachine.memos_stand nested).1 20 (.named "x") 1 live, _, by cbv,
    by cbv⟩

/-- What a let-binding is remembered by while it is computed is replaced in the end, and two
references to it in one scope give different values. -/
theorem memo_replaced :
    (Evaluation.compute (.ofDepth 20) 1 reentrant reentrantMachine).2.chain.memo? 1 "x" =
        some (.plain (.text "inner")) ∧
      (Evaluation.force (.ofDepth 20) 1 reentrant reentrantMachine).2.chain.memo? 1 "x" =
        some (.plain (.text "outer")) ∧
      (Machine.evaluate { store := some { attempts := 1 } }
        ⟨.letIn [reentrant] (.array [.named "x", .call "state" "get" [.text "seen"]]) none, none⟩
        .empty).1 = .ok (.array [.text "outer", .text "inner"]) := by
  cbv

end TreeQuery
