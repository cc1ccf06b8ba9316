import TreeQuery.Proofs.Memos.Wary

/-!
# Computations that are mirrored where nothing is remembered

A computation on a machine that remembers let-bindings, and may compute them ahead, is mirrored by
the same computation on a machine that faces it: from some depth on, the second has the same outcome
and the machines still face each other (`Mirrored`), if the first leaves no mark.

The second machine need not compute a let-binding when the first does so ahead. That the first has
come to a value for it says what every machine that faces it would come to, so the value is certain
(`Facing.certain`), and this is all that a later reference needs. Each rule of `Alike` is mirrored
(`Alike.mirrored`), and so is evaluation (`MirroredRunner.wary`).
-/

set_option autoImplicit false

namespace TreeQuery

variable {left : Nat} {μ ν : Mode} {i i' : Nat} {α β : Type} {R : α → α → Prop}
  {Q : β → β → Prop} {x x' : Runner → Eval α} {m m' n n' : Machine}

/-- The second computation comes to the outcome of the first, and the machines then face each
other. -/
def MirroredAt (left : Nat) (μ : Mode) (i i' : Nat) {α : Type} (R : α → α → Prop)
    (x x' : Runner → Eval α) (m m' : Machine) : Prop :=
  ∃ o' n', Converges x' m' o' n' ∧ Setting.effectless.Matches R (x (.wary left) m).1 o' ∧
    Facing μ i (x (.wary left) m).2 i' n'

/-- Two computations of which the second mirrors the first on machines that face each other, if the
first leaves no mark. -/
def Mirrored (left : Nat) (μ : Mode) (i i' : Nat) {α : Type} (R : α → α → Prop)
    (x x' : Runner → Eval α) : Prop :=
  ∀ m m', Facing μ i m i' m' → Quiet (x (.wary left)) m → MirroredAt left μ i i' R x x' m m'

theorem MirroredAt.of_run {o o' : Except Signal α} (run : x (.wary left) m = (o, n))
    (converges : Converges x' m' o' n') (outcome : Setting.effectless.Matches R o o')
    (facing : Facing μ i n i' n') : MirroredAt left μ i i' R x x' m m' := by
  refine ⟨o', n', converges, ?_, ?_⟩
  · rw [run]
    exact outcome
  · rw [run]
    exact facing

namespace Mirrored

/-! ## Steps in sequence -/

theorem catching {f f' : Except Signal α → Runner → Eval β} (watchful : Watchful left μ i R x)
    (onwards : ∀ o, Setting.effectless.Ends R o → Watchful left μ i Q (f o))
    (first : Mirrored left μ i i' R x x')
    (next : ∀ o o', Setting.effectless.Matches R o o' → Mirrored left μ i i' Q (f o) (f' o')) :
    Mirrored left μ i i' Q (fun r => Eval.attempt (x r) >>= fun o => f o r)
      (fun r => Eval.attempt (x' r) >>= fun o => f' o r) := by
  intro m m' facing quiet
  obtain ⟨quietFirst, quietNext⟩ := quiet.parts facing.ready watchful onwards
  obtain ⟨o, n, converges, outcome, between⟩ := first m m' facing quietFirst
  obtain ⟨o', n', goesOn, outcomeToo, after⟩ := next _ _ outcome _ _ between quietNext
  exact ⟨o', n', converges.catching goesOn, outcomeToo, after⟩

theorem bind {f f' : α → Runner → Eval β} (watchful : Watchful left μ i R x)
    (onwards : ∀ a a', R a a' → Watchful left μ i Q (f a)) (first : Mirrored left μ i i' R x x')
    (next : ∀ a a', R a a' → Mirrored left μ i i' Q (f a) (f' a')) :
    Mirrored left μ i i' Q (fun r => x r >>= fun a => f a r)
      (fun r => x' r >>= fun a => f' a r) := by
  rw [Eval.bind_eq_attempt_open x f, Eval.bind_eq_attempt_open x' f']
  have passes : ∀ s s', Setting.effectless.signal s s' → Watchful left μ i Q (fun _ => throw s) :=
    fun s s' related m ready => .steps rfl rfl (.refl m) ready ⟨s', related⟩
  refine catching watchful (fun o ends => ends.elim onwards passes) first fun o o' outcome => ?_
  cases outcome with
  | ok related => exact next _ _ related
  | error related =>
      exact fun m m' facing _ => .of_run rfl (.of_run fun _ => rfl) (.error related) facing

/-- What is mirrored for everyone is mirrored in frames of any mode. -/
theorem ofShared (alike : Alike .effectless .shared i i' R x x')
    (mirrored : Mirrored left .shared i i' R x x') : Mirrored left μ i i' R x x' := by
  intro m m' facing quiet
  obtain ⟨ready, readyToo⟩ := And.intro facing.ready facing.paired.readyToo
  have shared := readyToo.shared readyToo.live
  obtain ⟨o', n', converges, outcome, after⟩ := mirrored m m'
    (facing.shared ready.live shared facing.paired.always facing.lazy facing.view) quiet
  have here := alike.watchful left m (ready.shared ready.live)
  obtain ⟨keepsToo, afterToo⟩ := alike.converges shared converges
  exact ⟨o', n', converges, outcome,
    facing.inward (Chain.mem_ancestors_self ready.live) (Chain.mem_ancestors_self readyToo.live)
      here.keeps keepsToo after.ready afterToo after.memos⟩

/-! ## The frames -/

theorem current : Mirrored left μ i i' Setting.effectless.result
    (fun _ => Eval.ofChain fun c => c.current i) (fun _ => Eval.ofChain fun c => c.current i') := by
  intro m m' facing _
  have ends := (Sound.current (w := .wary left) (r := .wary left) m facing.ready).ends
  have same : m'.chain.current i' = m.chain.current i := Chain.current_of_view facing.view.symm
  refine .of_run rfl (.of_run fun _ => rfl) (.ok ?_) facing
  simp only [same]
  exact Setting.Ends.self Evaluated.translate_identity ends

theorem cursor : Mirrored left μ i i' Setting.effectless.cursor
    (fun _ => Eval.ofChain fun c => c.cursor? i) (fun _ => Eval.ofChain fun c => c.cursor? i') := by
  intro m m' facing _
  have ends := (Sound.cursor (w := .wary left) (r := .wary left) m facing.ready).ends
  have same : m'.chain.cursor? i' = m.chain.cursor? i := Chain.cursor?_of_view facing.view.symm
  refine .of_run rfl (.of_run fun _ => rfl) (.ok ?_) facing
  simp only [same]
  exact Setting.Ends.self Address.map_translate_identity ends

theorem isHandled : Mirrored left μ i i' Eq (fun _ => Eval.ofChain fun c => c.isHandled i)
    (fun _ => Eval.ofChain fun c => c.isHandled i') := by
  intro m m' facing _
  have readyToo := facing.paired.readyToo
  exact .of_run rfl (.of_run fun _ => rfl) (.ok (Chain.isHandled_of_view facing.ready.nested
    readyToo.nested facing.ready.live readyToo.live facing.view)) facing

/-- A change to a frame of one's own that shows the same on both sides. -/
theorem changes {change change' : Frame → Frame}
    (watchful : Watchful left .own i Eq (fun _ => Eval.onChain fun c => c.update i change))
    (watchfulToo : Watchful left .own i' Eq (fun _ => Eval.onChain fun c => c.update i' change'))
    (still : ∀ f, (change f).parent = f.parent) (stillToo : ∀ f, (change' f).parent = f.parent)
    (lets : ∀ f, (change f).lets = f.lets)
    (alike : ∀ f f', f.outline = f'.outline → (change f).outline = (change' f').outline) :
    Mirrored left .own i i' Eq (fun _ => Eval.onChain fun c => c.update i change)
      (fun _ => Eval.onChain fun c => c.update i' change') := by
  intro m m' facing _
  exact .of_run rfl (.of_run fun _ => rfl) (.ok rfl) (facing.update still stillToo lets alike
    (watchful m facing.ready).ready (watchfulToo m' facing.paired.readyToo).ready)

/-- What is mirrored in a new frame on both sides, which goes afterwards, is mirrored below. -/
theorem framed {y y' : Runner → Eval α} (facing : Facing μ i m i' m') (grown : Grown i m n)
    (grownToo : Grown i' m' n') (alike : Alike .effectless ν m.chain.size m'.chain.size R y y')
    (inside : Facing ν m.chain.size n m'.chain.size n')
    (run : x (.wary left) m = ((y (.wary left) n).1,
      (y (.wary left) n).2.onChain fun c => c.truncate m.chain.size))
    (runToo : ∀ left, x' (.ofDepth left) m' = ((y' (.ofDepth left) n').1,
      (y' (.ofDepth left) n').2.onChain fun c => c.truncate m'.chain.size))
    (mirrored : MirroredAt left ν m.chain.size m'.chain.size R y y' n n') :
    MirroredAt left μ i i' R x x' m m' := by
  obtain ⟨o', k', converges, outcome, after⟩ := mirrored
  have keeps := (alike.watchful left n inside.ready).keeps
  obtain ⟨keepsToo, -⟩ := alike.converges inside.paired.readyToo converges
  exact .of_run run (converges.framed runToo) outcome
    (facing.shrunk grown grownToo keeps keepsToo after)

theorem within {kind : FrameKind} {x x' : Nat → Runner → Eval α}
    (alike : ∀ j j', Alike .effectless .own j j' R (x j) (x' j'))
    (body : ∀ j j', Mirrored left .own j j' R (x j) (x' j')) :
    Mirrored left μ i i' R (fun r => r.within kind i fun j => x j r)
      (fun r => r.within kind i' fun j => x' j r) := by
  intro m m' facing quiet
  have grown : Grown i m (m.onChain fun c => c.push kind (some i)) := .push m kind i
  have grownToo : Grown i' m' (m'.onChain fun c => c.push kind (some i')) := .push m' kind i'
  have inside := facing.grown grown grownToo (facing.ready.push kind)
    (facing.paired.readyToo.push kind) (m.frame?_push kind i) (m'.frame?_push kind i') rfl
    (by simp [Assoc.get?])
  have run := Eval.within_apply kind i (x · (.wary left)) m
  have quietInside : Quiet (x m.chain.size (.wary left))
      (m.onChain fun c => c.push kind (some i)) := by
    rw [Quiet] at quiet ⊢
    exact (congrArg (fun result => result.2.settings.maxDepth) run).symm.trans quiet
  exact framed facing grown grownToo (alike _ _) inside run
    (fun left => Eval.within_apply kind i' (x' · (.ofDepth left)) m')
    (body m.chain.size m'.chain.size _ _ inside quietInside)

theorem letting {kind : FrameKind} {bindings : List Binding}
    (allowed : Setting.effectless.AllowsLet bindings) {x x' : Nat → Runner → Eval α}
    (alike : ∀ j j', Alike .effectless (.letting bindings) j j' R (x j) (x' j'))
    (body : ∀ j j', Mirrored left (.letting bindings) j j' R (x j) (x' j')) :
    Mirrored left μ i i' R
      (fun r => r.within kind i fun j => do
        Evaluation.declareAll j bindings
        x j r)
      (fun r => r.within kind i' fun j => do
        Evaluation.declareAll j bindings
        x' j r) := by
  intro m m' facing quiet
  have grown := Grown.letFrame m kind i bindings
  have grownToo := Grown.letFrame m' kind i' bindings
  have inside := facing.grown grown grownToo (facing.ready.letFrame (.basic ..) kind allowed)
    (facing.paired.readyToo.letFrame (.basic ..) kind allowed)
    (m.frame?_letFrame_top kind i bindings) (m'.frame?_letFrame_top kind i' bindings) rfl
    memo_declareIn
  have run := Eval.letFrame_apply kind i bindings (x · (.wary left)) m
  have quietInside : Quiet (x m.chain.size (.wary left)) (m.letFrame kind i bindings) := by
    rw [Quiet] at quiet ⊢
    exact (congrArg (fun result => result.2.settings.maxDepth) run).symm.trans quiet
  exact framed facing grown grownToo (alike _ _) inside run
    (fun left => Eval.letFrame_apply kind i' bindings (x' · (.ofDepth left)) m')
    (body m.chain.size m'.chain.size _ _ inside quietInside)

end Mirrored

/-! ## Let-bindings that are remembered -/

section

variable {o o' : Nat} {b : Binding}
  (compute : ∀ o o', Mirrored left .shared o o' Setting.effectless.result
    (fun r => Evaluation.compute r o b) (fun r => Evaluation.compute r o' b))
include compute

/-- A value that was computed without a mark is certain: any machine that sees the same could have
faced the one that computed it. -/
theorem Facing.certain (facing : Facing .shared o m o' m')
    (quiet : Quiet (Evaluation.compute (.wary left) o b) m) {v : Evaluated}
    (computed : Evaluation.compute (.wary left) o b m = (.ok v, n)) :
    Certain (m.chain.view o) b v := by
  intro j k ready always lazy view
  have there : Facing .shared o m j k :=
    facing.shared facing.ready.live ready always lazy view.symm
  -- The one run of the first machine is mirrored on each of them.
  obtain ⟨outcome, after, converges, same, -⟩ := compute o j m k there quiet
  simp only [computed] at same
  obtain ⟨rfl, -⟩ := same.of_ok Evaluated.translate_identity
  exact ⟨after, converges⟩

variable (allowed : Setting.effectless.AllowsBinding b)
include allowed

/-- **What a machine has for a let-binding is certain**, remembered or just computed, and it still
remembers only what is certain. -/
theorem Facing.memoized {timing : Timing} (facing : Facing .shared o m o' m')
    (declares : Declares m o b)
    (quiet : Quiet (Evaluation.memoized (.wary left) o b ⟨.afterScope, timing, Overrides.none⟩) m) :
    ∃ v n, Evaluation.memoized (.wary left) o b ⟨.afterScope, timing, Overrides.none⟩ m =
      (.ok v, n) ∧ Certain (m.chain.view o) b v ∧ Vouched n := by
  cases found : m.chain.memo? o b.name with
  | some v =>
      exact ⟨v, m, Evaluation.memoized_found found, facing.memos.memo declares found,
        facing.memos⟩
  | none =>
      have run : Evaluation.memoized (.wary left) o b ⟨.afterScope, timing, Overrides.none⟩ m =
          (Evaluation.compute (.wary left) o b >>=
            Evaluation.memoized.remember o b ⟨.afterScope, timing, Overrides.none⟩) m :=
        Evaluation.memoized_missing found
      have alike : Alike .effectless .shared o o _ (fun r => Evaluation.compute r o b) _ :=
        .compute allowed
      have still : Quiet (Evaluation.compute (.wary left) o b) m :=
        (quiet.of_run run rfl).of_bind fun _ _ => rfl
      obtain ⟨v, n, computed⟩ := still.computed allowed facing.ready
      have certain := facing.certain compute still computed
      have kept := (alike.watchful left m facing.ready).keeps
      have ends := (alike.watchful left m facing.ready).ends
      obtain ⟨_, _, -, -, after⟩ := compute o o' m m' facing still
      simp only [computed] at kept ends after
      have inert := (Setting.Ends.self Evaluated.translate_identity ends).inert rfl
      obtain ⟨keeps, -⟩ :=
        Sound.storeMemo (S := .effectless) after.ready .afterScope b fun _ => inert
      refine ⟨v, Evaluation.storeMemo .afterScope o b v n, run.trans (Eval.bind_ok computed),
        certain, after.memos.storeMemo keeps after.ready.nested (declares.of_keeps kept) ?_⟩
      rw [kept.view rfl facing.ready.nested facing.ready.live]
      exact certain

theorem Facing.forced (facing : Facing .shared o m o' m') (declares : Declares m o b)
    (quiet : Quiet (Evaluation.force (.wary left) o b) m) :
    ∃ v n, Evaluation.force (.wary left) o b m = (.ok v, n) ∧
      Keeps .effectless .shared o m n ∧ Ready .effectless .shared o n ∧ Vouched n ∧
      Setting.effectless.result v v ∧ Certain (m.chain.view o) b v := by
  obtain ⟨k, config, chain, settings, ready⟩ :=
    facing.ready.letConfig (allowed.config (.basic ..) rfl) o
  rw [facing.reset] at config
  have run : Evaluation.force (.wary left) o b m =
      Evaluation.memoized (.wary left) o b ⟨.afterScope, m.settings.timing, Overrides.none⟩ k :=
    Evaluation.force_settled (config _)
  have between : Facing .shared o k o' m' :=
    facing.of_same chain settings rfl rfl ready facing.paired.readyToo
  have declared : Declares k o b := by
    intro f found
    rw [chain] at found
    exact declares f found
  obtain ⟨v, n, value, certain, memos⟩ :=
    between.memoized compute allowed declared (quiet.of_run run settings)
  have alike : Alike .effectless .shared o o _ (fun r => Evaluation.compute r o b) _ :=
    .compute allowed
  obtain ⟨-, keeps, after, ends⟩ :=
    Sound.force (.wary left) allowed (alike.watchful left) m facing.ready
  rw [run.trans value] at keeps after ends
  rw [chain] at certain
  exact ⟨v, n, run.trans value, keeps, after, memos,
    Setting.Ends.self Evaluated.translate_identity ends, certain⟩

namespace Mirrored

/-- Only the first machine may compute a let-binding ahead. -/
theorem prefetch {bindings : List Binding} (member : b ∈ bindings) :
    Mirrored left (.letting bindings) i i' Eq (fun r => Evaluation.prefetch r i b)
      (fun r => Evaluation.prefetch r i' b) := by
  intro m m' facing quiet
  obtain ⟨ready, readyToo⟩ := And.intro facing.ready facing.paired.readyToo
  have bare := allowed.config (.basic ..) rfl
  obtain ⟨n, config, chain, settings, readyAfter⟩ := ready.letConfig bare i
  obtain ⟨n', configToo, chainToo, settingsToo, readyAfterToo⟩ := readyToo.letConfig bare i'
  rw [facing.lazy] at configToo
  have between := facing.of_same chain settings chainToo settingsToo readyAfter readyAfterToo
  have waits : ∀ r, Evaluation.prefetch r i' b m' = (.ok (), n') :=
    fun r => Evaluation.prefetch_settled (configToo r)
  have there := Evaluation.prefetch_settled (config (.wary left))
  by_cases eager : m.settings.timing = .eager
  · rw [if_pos eager] at there
    have live := readyAfter.live
    have liveToo := readyAfterToo.live
    have shared := between.shared live (readyAfterToo.shared liveToo) between.paired.always
      between.lazy between.view
    have declares : Declares n i b := fun f found => (readyAfter.tame rfl).fits f found b member
    have forcing : Quiet (Evaluation.force (.wary left) i b >>= fun _ => Pure.pure ()) n :=
      quiet.of_run there settings
    have still : Quiet (Evaluation.force (.wary left) i b) n := forcing.of_bind fun _ _ => rfl
    obtain ⟨v, k, forced, keeps, after, memos, -, -⟩ :=
      shared.forced compute allowed declares still
    -- The second machine waits; what the first remembers now is in no view.
    exact .of_run (there.trans (Eval.bind_ok forced)) (.of_run waits) (.ok rfl)
      (between.inward (Chain.mem_ancestors_self live) (Chain.mem_ancestors_self liveToo) keeps
        (.refl n') after (readyAfterToo.shared liveToo) memos)
  · rw [if_neg eager] at there
    exact .of_run there (.of_run waits) (.ok rfl) between

end Mirrored

end

/-- A reference to a let-binding needs no more than that its value is certain. -/
theorem Mirrored.named (name : String)
    (alike : ∀ o o' b, Setting.effectless.AllowsBinding b →
      Alike .effectless .shared o o' Setting.effectless.result
        (fun r => Evaluation.compute r o b) (fun r => Evaluation.compute r o' b))
    (compute : ∀ o o' b, Setting.effectless.AllowsBinding b →
      Mirrored left .shared o o' Setting.effectless.result
        (fun r => Evaluation.compute r o b) (fun r => Evaluation.compute r o' b))
    (watchful : Watchful left μ i Setting.effectless.result fun r => Evaluation.nameRef r name i) :
    Mirrored left μ i i' Setting.effectless.result (fun r => Evaluation.nameRef r name i)
      (fun r => Evaluation.nameRef r name i') := by
  intro m m' facing quiet
  obtain ⟨ready, readyToo⟩ := And.intro facing.ready facing.paired.readyToo
  have alongside := Chain.resolve?_of_view ready.nested readyToo.nested ready.live readyToo.live
    facing.view name
  have ends := (watchful m ready).ends
  have run := Evaluation.nameRef_apply (.wary left) name i m
  have runToo := fun r => Evaluation.nameRef_apply r name i' m'
  generalize m.chain.resolve? i name = found at alongside run
  generalize m'.chain.resolve? i' name = foundToo at alongside runToo
  cases alongside with
  | unknown => exact .of_run run (.of_run runToo) (.ok (.const fun _ => rfl)) facing
  | value v =>
      simp only [run] at ends
      exact .of_run run (.of_run runToo)
        (.ok (Setting.Ends.self Evaluated.translate_identity ends)) facing
  | @binding o o' b member memberToo declared same =>
      have live := Chain.lt_of_mem_ancestors ready.nested member
      have liveToo := Chain.lt_of_mem_ancestors readyToo.nested memberToo
      obtain ⟨f, frame⟩ := Chain.exists_frame? live
      obtain ⟨rfl, allowed⟩ := ((ready.tame rfl).frame o f frame).of_declared (declared f frame)
      have shared := facing.shared live (readyToo.shared liveToo) facing.paired.always facing.lazy
        same
      obtain ⟨v, n, forced, keeps, after, memos, related, certain⟩ :=
        shared.forced (fun o o' => compute o o' b allowed) allowed declared (quiet.of_run run rfl)
      -- The second machine settles the configuration and computes the value anew.
      obtain ⟨k, config, chain, settings, readyThere⟩ :=
        readyToo.letConfig (allowed.config (.basic ..) rfl) o'
      rw [facing.paired.always] at config
      have anew : ∀ r, Evaluation.nameRef r b.name i' m' = Evaluation.compute r o' b k := by
        intro r
        have forces : Evaluation.nameRef r b.name i' m' = Evaluation.force r o' b m' := runToo r
        rw [forces, Evaluation.force_settled (config r), Evaluation.memoized_always]
      have there := facing.of_same (n := m) rfl rfl chain settings ready readyThere
      have sharedThere : Ready .effectless .shared o' k :=
        readyThere.shared (by rw [chain]; exact liveToo)
      obtain ⟨n', converges⟩ := certain o' k sharedThere there.paired.always there.lazy
        (by rw [chain, same])
      obtain ⟨keepsToo, afterToo⟩ := (alike o o' b allowed).converges sharedThere converges
      exact .of_run (run.trans forced) (.of_runs anew converges) (.ok related)
        (there.inward member (by rw [chain]; exact memberToo) keeps keepsToo after afterToo memos)

/-! ## Evaluation -/

/-- Evaluation is mirrored in frames that see the same. -/
def MirroredRunner (left : Nat) : Prop :=
  ∀ e, Setting.effectless.Allows e → ∀ i i',
    Mirrored left .shared i i' Setting.effectless.result (fun r => r e i) (fun r => r e i')

/-- **Whatever the rules allow is mirrored.** -/
theorem Alike.mirrored (runner : MirroredRunner left) (alike : Alike .effectless μ i i' R x x') :
    Mirrored left μ i i' R x x' := by
  have bare : ∀ b : Binding, b.trim true = b := Binding.trim_true
  have strict : Setting.effectless.Strict := .basic ..
  induction alike with
  | pure related =>
      exact fun m m' facing _ => .of_run rfl (.of_run fun _ => rfl) (.ok related) facing
  | throw related =>
      exact fun m m' facing _ => .of_run rfl (.of_run fun _ => rfl) (.error related) facing
  | bind first next ihFirst ihNext =>
      exact .bind (first.watchful left) (fun a a' related => (next a a' related).watchful left)
        ihFirst ihNext
  | catching first returned signalled passed passedToo ihFirst ihReturned ihSignalled =>
      refine .catching (first.watchful left) (fun o ends => ?_) ihFirst fun o o' outcome => ?_
      · cases o with
        | ok a =>
            obtain ⟨a', related⟩ := ends
            exact (returned a a' related).watchful left
        | error s =>
            obtain ⟨s', related⟩ := ends
            exact (signalled s s' related).watchful left
      · cases outcome with
        | ok related => exact ihReturned _ _ related
        | error related => exact ihSignalled _ _ related
  | @run μ i i' e allowed =>
      have one : Alike .effectless .shared i i' _ (fun r => r e i) _ := .run allowed
      rw [Expr.trim_true] at one ⊢
      exact .ofShared one (runner e allowed i i')
  | current => exact .current
  | cursor => exact .cursor
  | isHandled => exact .isHandled
  | setCursor related =>
      cases related.eq Address.translate_identity
      exact .changes (.setCursor related) (.setCursor related) (fun _ => rfl) (fun _ => rfl)
        (fun _ => rfl) fun _ _ same => Frame.outline_cursor same _
  | setValue name related =>
      cases related.eq Evaluated.translate_identity
      exact .changes (.setValue name related) (.setValue name related) (fun _ => rfl) (fun _ => rfl)
        (fun _ => rfl) fun _ _ same => Frame.outline_values same name _
  | setHandled flag =>
      exact .changes (.setHandled flag) (.setHandled flag) (fun _ => rfl) (fun _ => rfl)
        (fun _ => rfl) fun _ _ same => Frame.outline_handled same flag
  | within kind handlers body ih => exact .within body ih
  | @letting μ i i' α R x x' kind handlers bindings allowed body ih =>
      have same : bindings.map (Binding.trim true) = bindings := by
        rw [← Binding.trimList_eq, Binding.trimList_true]
      rw [same]
      exact .letting allowed body ih
  | unguarded h dropped => cases dropped
  | prefetch member allowed compute ih =>
      rw [bare] at ih ⊢
      exact .prefetch ih allowed member
  | @named μ i i' name allowed compute ih =>
      have whole : Alike .effectless μ i i' _ _ _ := .named allowed compute
      refine .named name (fun o o' b allowed => ?_) (fun o o' b allowed => ?_) (whole.watchful left)
      · have one := compute o o' b allowed
        rw [bare] at one
        exact one
      · have one := ih o o' b allowed
        rw [bare] at one
        exact one
  | once function => cases strict.effects_of_lambda function
  | makeLambda d allowed => cases strict.effects_of allowed id
  | drain source => cases strict.effects_of_stream source
  | deliver allowed => cases strict.effects_of allowed id
  | withStore allowed => cases strict.effects_of allowed fun free => free.1 rfl
  | markHandled allowed => cases strict.effects_of allowed fun free => free.2.2 rfl

theorem MirroredRunner.wary (left : Nat) : MirroredRunner left := by
  induction left with
  | zero => exact fun e allowed i i' m m' facing quiet => absurd quiet Quiet.not_wary_zero
  | succ left ih =>
      intro e allowed i i' m m' facing quiet
      have alike : Alike .effectless .shared i i' _ (fun r => Evaluation.node r e i) _ :=
        .node allowed
      rw [Expr.trim_true] at alike
      obtain ⟨run, -⟩ := quiet.node allowed facing.ready
      have readyToo := facing.paired.readyToo
      have entered : Facing .shared i { m with depth := m.depth + 1 } i'
          { m' with depth := m'.depth + 1 } :=
        facing.of_same rfl rfl rfl rfl (facing.ready.atDepth _) (readyToo.atDepth _)
      have inside := quiet.of_run run rfl
      obtain ⟨o', n', converges, outcome, after⟩ := alike.mirrored ih _ _ entered inside
      exact .of_run run converges.eval outcome (after.of_same rfl rfl rfl rfl
        (after.ready.atDepth _) (after.paired.readyToo.atDepth _))

end TreeQuery
