import TreeQuery.Proofs.Memos.View

/-!
# Runs that have depth left

What a computation comes to depends on how much depth is left, but only if it runs out of it.
`Runner.marked` leaves a mark on the machine when it does: it raises the limit, which nothing else
touches. A run without a mark is `Quiet`, and then so is each part of it, as marks are never taken
back.

Computations without effects are compared with each other in both directions (`Alike.symm`).
-/

set_option autoImplicit false

namespace TreeQuery

/-- There is depth left for every evaluation that is started. -/
def Watch.deepEnough : Watch where
  starts left _ _ _ := left ≠ 0
  opens _ _ _ := True

namespace Runner

/-- Evaluation that falls back on `other` when it is out of depth. -/
def evalBacked (other : Expr → Nat → Eval Evaluated) : Nat → Expr → Nat → Eval Evaluated
  | 0, e, i => other e i
  | left + 1, e, i => Eval.deeper (Evaluation.node ⟨evalBacked other left, Eval.within⟩ e i)

def backed (other : Expr → Nat → Eval Evaluated) (left : Nat) : Runner :=
  ⟨evalBacked other left, Eval.within⟩

/-- Evaluation that falls back on evaluation with some depth has that much depth more. -/
theorem backed_eval (left more : Nat) :
    backed (TreeQuery.eval more) left = .ofDepth (left + more) := by
  have evals : evalBacked (TreeQuery.eval more) left = TreeQuery.eval (left + more) := by
    induction left with
    | zero =>
        rw [Nat.zero_add]
        rfl
    | succ left ih =>
        funext e i
        rw [Nat.succ_add, evalBacked, ih]
        rfl
  rw [backed, evals]
  rfl

/-- Fails and leaves a mark. -/
def marking (_ : Expr) (_ : Nat) : Eval Evaluated := fun m =>
  (.error (.fault (depthExceeded m.settings.maxDepth)),
    { m with settings := { m.settings with maxDepth := m.settings.maxDepth + 1 } })

/-- Evaluation that leaves a mark where it runs out of depth. -/
def marked (left : Nat) : Runner :=
  backed marking left

theorem marked_zero (e : Expr) (i : Nat) : (marked 0).eval e i = marking e i := rfl

theorem marked_succ (left : Nat) (e : Expr) (i : Nat) :
    (marked (left + 1)).eval e i = Eval.deeper (Evaluation.node (marked left) e i) := rfl

theorem marked_within (left : Nat) {α : Type} (kind : FrameKind) (i : Nat) (body : Nat → Eval α) :
    (marked left).within kind i body = Eval.within kind i body := rfl

end Runner

/-- A watch for running out of depth takes over there and nowhere else. -/
theorem watched_deepEnough (other : Runner) (left : Nat) :
    watched .deepEnough other left = .backed other.eval left := by
  have opens : @Watch.within .deepEnough other = @Eval.within := by
    funext α kind parent body m
    exact if_pos trivial
  have starts : Watch.deepEnough.eval other left = Runner.evalBacked other.eval left := by
    induction left with
    | zero =>
        funext e i m
        have out : ¬ Watch.deepEnough.starts 0 e i m := fun enough => enough rfl
        exact watched_failed out
    | succ left ih =>
        funext e i m
        have here : Watch.deepEnough.eval other (left + 1) e i m = _ :=
          watched_succ (Nat.succ_ne_zero left)
        rw [here, watched, opens, ih]
        rfl
  rw [watched, Runner.backed, opens, starts]

/-- A run is nowhere out of depth if it does not matter what would happen there. -/
theorem throughout_deepEnough {α : Type} {left : Nat} {run : Runner → α} :
    Throughout .deepEnough left run ↔ ∀ other, run (.backed other left) = run (.ofDepth left) := by
  constructor
  · intro deep other
    rw [← deep ⟨other, Eval.within⟩, watched_deepEnough]
  · intro same other
    rw [watched_deepEnough, same]

/-- A run that leaves no mark. -/
def Quiet {α : Type} (x : Eval α) (m : Machine) : Prop :=
  (x m).2.settings.maxDepth = m.settings.maxDepth

/-- A run that goes on like another one is as quiet. -/
theorem Quiet.of_run {α : Type} {x y : Eval α} {m n : Machine} (quiet : Quiet x m) (run : x m = y n)
    (settings : n.settings = m.settings) : Quiet y n := by
  rw [Quiet, ← run, settings]
  exact quiet

variable {S : Setting}

/-- A mark changes nothing but the limit. -/
theorem Sound.marking {w r : Runner} (marks : S.marks = true) (e : Expr) (i : Nat) :
    Sound S w r .shared i S.result fun _ => Runner.marking e i := by
  intro m ready
  have keeps : Keeps S .shared i m (Runner.marking e i m).2 :=
    ⟨rfl, rfl, rfl, rfl, Nat.le_succ _, fun never => by simp [marks] at never,
      fun j f found => ⟨f, found, .refl m.chain j f⟩⟩
  refine .steps rfl rfl keeps ?_ ⟨_, .const fun _ => rfl⟩
  exact ready.of_keeps keeps (fun plain => (ready.tame plain).frame)
    fun plain => (ready.tame plain).configs

theorem SoundRunner.marked (kept : S.keep = true) (strict : S.Strict) (marks : S.marks = true)
    (left : Nat) : SoundRunner S (.marked left) (.marked left) := by
  refine ⟨strict, ?_, fun kind i body m _ _ => rfl, Runner.marked_within left⟩
  induction left with
  | zero => exact fun e _ i m ready => .of_runs rfl rfl (Sound.marking marks e i m ready)
  | succ left ih =>
      intro e allowed i
      have runner : SoundRunner S (.marked left) (.marked left) :=
        ⟨strict, ih, fun kind i body m _ _ => rfl, Runner.marked_within left⟩
      have alike : Alike S .shared i i S.result (fun r => Evaluation.node r e i) _ := .node allowed
      intro m ready
      have node := (alike.sound kept runner).deeper m ready
      exact ⟨rfl, node.keeps, node.ready, node.ends⟩

/-! ## Comparing in both directions -/

/-- Two evaluations of a program without effects are compared. -/
abbrev Setting.effectless : Setting := .basic true true true

namespace Setting.Related

variable {α : Type} {act : Translation → α → α} {a a' : α}

/-- With all handlers in place, related means the same. -/
theorem eq (identity : ∀ a, act .identity a = a)
    (related : Setting.effectless.Related act a a') : a' = a := by
  rw [related.image, Setting.image_identity rfl rfl, identity]

theorem symm (identity : ∀ a, act .identity a = a)
    (related : Setting.effectless.Related act a a') : Setting.effectless.Related act a' a := by
  cases related.eq identity
  exact related

end Setting.Related

namespace Alike

variable {μ : Mode} {i i' : Nat} {α : Type} {R : α → α → Prop} {x x' : Runner → Eval α}

theorem flipped (symmetric : ∀ {a a'}, R a a' → R a' a) (alike : Alike S μ i i' R x x') :
    Alike S μ i i' (fun a a' => R a' a) x x' := by
  have same : (fun a a' => R a' a) = R :=
    funext fun a => funext fun a' => propext ⟨symmetric, symmetric⟩
  rw [same]
  exact alike

/-- **Without effects, the rules work in both directions.** -/
theorem symm (alike : Alike .effectless μ i i' R x x') :
    Alike .effectless μ i' i (fun a a' => R a' a) x' x := by
  have bare : ∀ b : Binding, b.trim true = b := Binding.trim_true
  have strict : Setting.effectless.Strict := .basic ..
  induction alike with
  | pure related => exact .pure related
  | throw related => exact .throw (related.symm Signal.translate_identity)
  | bind first next ihFirst ihNext =>
      exact .bind ihFirst fun a a' related => ihNext a' a related
  | catching first returned signalled passed passedToo ihFirst ihReturned ihSignalled =>
      exact .catching ihFirst (fun a a' related => ihReturned a' a related)
        (fun s s' related => ihSignalled s' s (related.symm Signal.translate_identity))
        nofun nofun
  | @run μ i i' e allowed =>
      have back : Alike .effectless μ i' i _ (fun r => r e i') _ := .run allowed
      rw [Expr.trim_true] at back ⊢
      exact back.flipped fun related => related.symm Evaluated.translate_identity
  | current => exact current.flipped fun related => related.symm Evaluated.translate_identity
  | cursor =>
      exact cursor.flipped fun related => related.symm Address.map_translate_identity
  | isHandled => exact isHandled.flipped Eq.symm
  | setCursor related => exact (setCursor (related.symm Address.translate_identity)).flipped Eq.symm
  | setValue name related =>
      exact (setValue name (related.symm Evaluated.translate_identity)).flipped Eq.symm
  | setHandled flag => exact (setHandled flag).flipped Eq.symm
  | within kind handlers body ih => exact .within kind handlers fun j j' => ih j' j
  | @letting μ i i' α R x x' kind handlers bindings allowed body ih =>
      have same : bindings.map (Binding.trim true) = bindings := by
        rw [← Binding.trimList_eq, Binding.trimList_true]
      have back : Alike .effectless μ i' i (fun a a' => R a' a) _ _ :=
        .letting kind handlers allowed fun j j' => ih j' j
      rw [same] at back ⊢
      exact back
  | unguarded h dropped => cases dropped
  | @prefetch i i' bindings b member allowed compute ih =>
      have back : Alike .effectless (.letting bindings) i' i _
        (fun r => Evaluation.prefetch r i' b) _ := .prefetch member allowed compute
      rw [bare] at back ⊢
      exact back.flipped Eq.symm
  | named allowed compute ih =>
      exact (named allowed compute).flipped fun related => related.symm Evaluated.translate_identity
  | once function => cases strict.effects_of_lambda function
  | makeLambda d allowed => cases strict.effects_of allowed id
  | drain source => cases strict.effects_of_stream source
  | deliver allowed => cases strict.effects_of allowed id
  | withStore allowed => cases strict.effects_of allowed fun free => free.1 rfl
  | markHandled allowed => cases strict.effects_of allowed fun free => free.2.2 rfl

end Alike

end TreeQuery
