import TreeQuery.Proofs.Memos.Certain

/-!
# Runs in which no let-binding fails

When a let-binding is computed does not matter as long as computing it gives a value. `Runner.wary`
leaves a mark not only where it is out of depth, but also where the expression of a let-binding ends
in a signal, before any handler could do something about it. Marks are never taken back, so in a run
without one each let-binding that is computed has a value (`Quiet.computed`).
-/

set_option autoImplicit false

namespace TreeQuery

/-! ## Let-bindings that fail -/

/-- Goes on with `other` after a computation in the frame of a let-binding has ended in a signal. -/
def Eval.heeding {α : Type} (other : Eval α) (i : Nat) (x : Eval α) : Eval α := fun m =>
  after (decide ((m.chain.frame? i).map Frame.kind = some .binding)) (x m)
where
  after (binding : Bool) : Except Signal α × Machine → Except Signal α × Machine
    | (.ok v, n) => (.ok v, n)
    | (.error s, n) => if binding then other n else (.error s, n)

namespace Eval

variable {α : Type} {other x : Eval α} {i : Nat} {m n : Machine}

theorem heeding_error {s : Signal} (run : x m = (.error s, n))
    (frame : (m.chain.frame? i).map Frame.kind = some .binding) :
    heeding other i x m = other n := by
  rw [heeding, run, decide_eq_true frame]
  rfl

theorem heeding_ok {v : α} (run : x m = (.ok v, n)) : heeding other i x m = (.ok v, n) := by
  rw [heeding, run]
  rfl

theorem heeding_elsewhere (frame : (m.chain.frame? i).map Frame.kind ≠ some .binding) :
    heeding other i x m = x m := by
  rw [heeding, decide_eq_false frame]
  rcases x m with ⟨_ | _, n⟩ <;> rfl

end Eval

namespace Runner

/-- Evaluation that hands over to `other` where it is out of depth, and after it has ended in a
signal in the frame of a let-binding. Nothing holds up a signal in such a frame before the
expression of the let-binding has ended with it. -/
def evalHeeding (other : Expr → Nat → Eval Evaluated) : Nat → Expr → Nat → Eval Evaluated
  | 0, e, i => other e i
  | left + 1, e, i =>
    Eval.heeding (other e i) i
      (Eval.deeper (Evaluation.node ⟨evalHeeding other left, Eval.within⟩ e i))

def heeding (other : Expr → Nat → Eval Evaluated) (left : Nat) : Runner :=
  ⟨evalHeeding other left, Eval.within⟩

/-- Evaluation that leaves a mark where it is out of depth or a let-binding fails. -/
def wary (left : Nat) : Runner :=
  heeding marking left

theorem wary_zero (e : Expr) (i : Nat) : (wary 0).eval e i = marking e i := rfl

theorem wary_succ (left : Nat) (e : Expr) (i : Nat) : (wary (left + 1)).eval e i =
    Eval.heeding (marking e i) i (Eval.deeper (Evaluation.node (wary left) e i)) := rfl

end Runner

/-- What is sound without effects, with marks for let-bindings that fail as well. -/
abbrev Watchful (left : Nat) (μ : Mode) (i : Nat) {α : Type} (R : α → α → Prop)
    (x : Runner → Eval α) : Prop :=
  Sound .effectless (.wary left) (.wary left) μ i R x

variable {left : Nat} {μ : Mode} {i i' : Nat} {α β : Type} {R : α → α → Prop}
  {Q : β → β → Prop} {x x' : Runner → Eval α} {m m' n n' : Machine}

/-- What comes after a computation that was sound is either nothing or a mark. -/
theorem SoundAt.heeding {w r inner : Runner} {x : Runner → Eval Evaluated} (e : Expr)
    (ready : Ready .effectless .shared i m)
    (sound : SoundAt .effectless inner inner .shared i Setting.effectless.result x m) :
    SoundAt .effectless w r .shared i Setting.effectless.result
      (fun _ => Eval.heeding (Runner.marking e i) i (x inner)) m := by
  obtain ⟨-, keeps, after, ends⟩ := sound
  by_cases frame : (m.chain.frame? i).map Frame.kind = some .binding
  · rcases outcome : x inner m with ⟨s | v, n⟩
    · rw [outcome] at keeps after
      have marked := Sound.marking (w := w) (r := r) rfl e i n after
      have run : Eval.heeding (Runner.marking e i) i (x inner) m = _ :=
        Eval.heeding_error outcome frame
      exact .steps run run (keeps.trans ready.nested marked.keeps) marked.ready marked.ends
    · rw [outcome] at keeps after ends
      exact .steps (Eval.heeding_ok outcome) (Eval.heeding_ok outcome) keeps after ends
  · have run : Eval.heeding (Runner.marking e i) i (x inner) m = x inner m :=
      Eval.heeding_elsewhere frame
    exact .steps run run keeps after ends

theorem SoundRunner.wary (left : Nat) : SoundRunner .effectless (.wary left) (.wary left) := by
  refine ⟨.basic .., ?_, fun kind i body m _ _ => rfl, fun _ _ _ => rfl⟩
  induction left with
  | zero => exact fun e _ i m ready => .of_runs rfl rfl (Sound.marking rfl e i m ready)
  | succ left ih =>
      intro e allowed i m ready
      have runner : SoundRunner .effectless (.wary left) (.wary left) :=
        ⟨.basic .., ih, fun kind i body m _ _ => rfl, fun _ _ _ => rfl⟩
      have alike : Alike .effectless .shared i i _ (fun r => Evaluation.node r e i) _ :=
        .node allowed
      exact .of_runs rfl rfl (((alike.sound rfl runner).deeper m ready).heeding e ready)

theorem Alike.watchful (alike : Alike .effectless μ i i' R x x') (left : Nat) :
    Watchful left μ i R x :=
  alike.sound rfl (.wary left)

/-- What a mirroring computation comes to is sound. -/
theorem Alike.converges (alike : Alike .effectless μ i i' R x x') {o : Except Signal α}
    (ready : Ready .effectless μ i' m') (converges : Converges x' m' o n') :
    Keeps .effectless μ i' m' n' ∧ Ready .effectless μ i' n' :=
  converges.sound (fun left => alike.symm.sound rfl (.ofDepth rfl (.basic ..) left)) ready

/-! ## Runs that leave no mark -/

namespace Quiet

/-- Marks are never taken back, so both parts of a quiet run are quiet. -/
theorem parts {f : Except Signal α → Runner → Eval β} (ready : Ready .effectless μ i m)
    (watchful : Watchful left μ i R x)
    (onwards : ∀ o, Setting.effectless.Ends R o → Watchful left μ i Q (f o))
    (quiet : Quiet (Eval.attempt (x (.wary left)) >>= fun o => f o (.wary left)) m) :
    Quiet (x (.wary left)) m ∧
      Quiet (f (x (.wary left) m).1 (.wary left)) (x (.wary left) m).2 := by
  have here := watchful m ready
  have later := (onwards _ here.ends _ here.ready).keeps.maxDepth
  simp only [Quiet, Eval.attempt_bind] at quiet
  rw [quiet] at later
  have still : Quiet (x (.wary left)) m := Nat.le_antisymm later here.keeps.maxDepth
  exact ⟨still, quiet.trans still.symm⟩

/-- What comes next leaves no mark. -/
theorem of_bind {x : Eval α} {f : α → Eval β}
    (unmarked : ∀ a n, (f a n).2.settings = n.settings) (quiet : Quiet (x >>= f) m) :
    Quiet x m := by
  rcases run : x m with ⟨s | a, n⟩
  · rw [Quiet, Eval.bind_error run] at quiet
    rw [Quiet, run]
    exact quiet
  · rw [Quiet, Eval.bind_ok run, unmarked] at quiet
    rw [Quiet, run]
    exact quiet

variable {e : Expr}

/-- What is left to evaluate leaves no mark. -/
theorem node (allowed : Setting.effectless.Allows e) (ready : Ready .effectless .shared i m)
    (quiet : Quiet ((Runner.wary (left + 1)).eval e i) m) :
    (Runner.wary (left + 1)).eval e i m = Eval.deeper (Evaluation.node (.wary left) e i) m ∧
      ((m.chain.frame? i).map Frame.kind = some .binding →
        ∃ v n, (Runner.wary (left + 1)).eval e i m = (.ok v, n)) := by
  rw [Runner.wary_succ] at quiet ⊢
  by_cases frame : (m.chain.frame? i).map Frame.kind = some .binding
  · rcases outcome : Eval.deeper (Evaluation.node (.wary left) e i) m with ⟨s | v, n⟩
    · have alike : Alike .effectless .shared i i _ (fun r => Evaluation.node r e i) _ :=
        .node allowed
      have before := ((alike.watchful left).deeper m ready).keeps.maxDepth
      simp only [outcome] at before
      rw [Quiet, Eval.heeding_error outcome frame] at quiet
      exact absurd quiet (Nat.ne_of_gt (Nat.lt_succ_of_le before))
    · have run : Eval.heeding (Runner.marking e i) i _ m = _ := Eval.heeding_ok outcome
      exact ⟨run, fun _ => ⟨v, n, run⟩⟩
  · exact ⟨Eval.heeding_elsewhere frame, fun here => absurd here frame⟩

theorem not_wary_zero : ¬ Quiet ((Runner.wary 0).eval e i) m := by
  intro quiet
  rw [Quiet, Runner.wary_zero] at quiet
  exact Nat.succ_ne_self _ quiet

/-- In the frame of a let-binding, there is a value. -/
theorem value (allowed : Setting.effectless.Allows e) (ready : Ready .effectless .shared i m)
    (frame : (m.chain.frame? i).map Frame.kind = some .binding)
    (quiet : Quiet ((Runner.wary left).eval e i) m) :
    ∃ v n, (Runner.wary left).eval e i m = (.ok v, n) := by
  cases left with
  | zero => exact absurd quiet not_wary_zero
  | succ left => exact (quiet.node allowed ready).2 frame

end Quiet

namespace Evaluation

variable {run : Runner} {body : Eval Evaluated}

theorem guarded_ok {v : Evaluated} (h : Option Handler) (value : body m = (.ok v, n)) :
    guarded run i h body m = (.ok v, n) := by
  cases h with
  | none => exact value
  | some h =>
      rw [guarded, Eval.attempt_bind, value]
      rfl

theorem guarded_error {s : Signal} (h : Option Handler) (signal : body m = (.error s, n)) :
    guarded run i h body m = guarded run i h (throw s) n := by
  cases h with
  | none => exact signal
  | some h =>
      rw [guarded, guarded, Eval.attempt_bind, Eval.attempt_bind, signal]
      rfl

end Evaluation

/-- In the frame of a let-binding, a handler has nothing to do: had the expression ended in a signal,
there would be a mark, whatever the handler does. -/
theorem Quiet.guarded {e : Expr} {h : Option Handler} (allowed : Setting.effectless.Allows e)
    (handling : ∀ part ∈ Handler.parts h, Setting.effectless.Allows part)
    (ready : Ready .effectless .shared i m)
    (frame : (m.chain.frame? i).map Frame.kind = some .binding)
    (quiet : Quiet (Evaluation.guarded (.wary left) i h ((Runner.wary left).eval e i)) m) :
    ∃ v n, Evaluation.guarded (.wary left) i h ((Runner.wary left).eval e i) m = (.ok v, n) := by
  rcases outcome : (Runner.wary left).eval e i m with ⟨s | v, n⟩
  · have body := (SoundRunner.wary left).eval e allowed i m ready
    have before := body.keeps.maxDepth
    have after := body.ready
    have ends := body.ends
    simp only [outcome] at before after ends
    obtain ⟨s', related⟩ := ends
    have alike : Alike .effectless .shared i i _ _ _ :=
      .guarded (x := fun _ => throw s) handling nofun (.throw related)
    have later := (alike.watchful left n after).keeps.maxDepth
    -- What the handler does comes after the expression and takes no mark back.
    rw [Quiet, Evaluation.guarded_error h outcome] at quiet
    have still : Quiet ((Runner.wary left).eval e i) m := by
      rw [Quiet, outcome]
      exact Nat.le_antisymm (quiet ▸ later) before
    obtain ⟨v, k, value⟩ := still.value allowed ready frame
    cases outcome.symm.trans value
  · exact ⟨v, n, Evaluation.guarded_ok h outcome⟩

/-- A let-binding that is computed without a mark has a value. -/
theorem Quiet.computed {o : Nat} {b : Binding} (allowed : Setting.effectless.AllowsBinding b)
    (ready : Ready .effectless .shared o m)
    (quiet : Quiet (Evaluation.compute (.wary left) o b) m) :
    ∃ v n, Evaluation.compute (.wary left) o b m = (.ok v, n) := by
  have inside := ready.push .binding
  have frame : ((m.onChain fun c => c.push .binding (some o)).chain.frame? m.chain.size).map
      Frame.kind = some .binding := by
    rw [m.frame?_push]
    rfl
  have run : Evaluation.compute (.wary left) o b m = _ :=
    Eval.within_apply .binding o
      (fun j => Evaluation.guarded (.wary left) j b.handler ((Runner.wary left).eval b.expr j)) m
  rw [Quiet, run] at quiet
  obtain ⟨v, n, value⟩ := Quiet.guarded (allowed.part (List.mem_cons_self ..))
    (fun _ member => allowed.handling member) (inside.shared inside.live) frame quiet
  rw [run, value]
  exact ⟨v, _, rfl⟩

end TreeQuery
