import Mathlib.Logic.Basic
import TreeQuery.Evaluate

/-!
# Watching a run

What happens inside a run does not show in its outcome. `watched` is evaluation with a watch on
every evaluation that is started and every frame that is opened: where a condition fails, something
else takes over. A run meets the conditions throughout if it does not matter what that is
(`Throughout`): for whatever took over could have left a mark on the machine.
-/

set_option autoImplicit false

namespace TreeQuery

/-- Conditions on what happens in a run. -/
structure Watch where
  /-- On an evaluation that is started: the depth that is left, the expression, the frame and the
  machine. -/
  starts : Nat → Expr → Nat → Machine → Prop
  /-- On a frame that is opened: its kind, the frame it is nested in and the machine before. -/
  opens : FrameKind → Nat → Machine → Prop

namespace Watch

open Classical in
/-- Opens a frame, or hands over to `other` where the condition fails. -/
noncomputable def within (ok : Watch) (other : Runner) {α : Type} (kind : FrameKind) (parent : Nat)
    (body : Nat → Eval α) : Eval α := fun m =>
  if ok.opens kind parent m then Eval.within kind parent body m else other.within kind parent body m

open Classical in
/-- Evaluation that hands over to `other` where a condition fails. -/
noncomputable def eval (ok : Watch) (other : Runner) : Nat → Expr → Nat → Eval Evaluated
  | 0, e, i => fun m => if ok.starts 0 e i m then TreeQuery.eval 0 e i m else other e i m
  | left + 1, e, i => fun m =>
    if ok.starts (left + 1) e i m then
      Eval.deeper (Evaluation.node ⟨eval ok other left, within ok other⟩ e i) m
    else other e i m

end Watch

noncomputable def watched (ok : Watch) (other : Runner) (left : Nat) : Runner :=
  ⟨ok.eval other left, ok.within other⟩

/-- Every evaluation that is started and every frame that is opened in a run meets the conditions.
-/
def Throughout (ok : Watch) (left : Nat) {α : Type} (run : Runner → α) : Prop :=
  ∀ other, run (watched ok other left) = run (.ofDepth left)

variable {ok : Watch} {other : Runner} {left : Nat} {e : Expr} {i : Nat} {m : Machine}

theorem watched_zero (met : ok.starts 0 e i m) :
    (watched ok other 0).eval e i m = eval 0 e i m :=
  if_pos met

theorem watched_succ (met : ok.starts (left + 1) e i m) :
    (watched ok other (left + 1)).eval e i m =
      Eval.deeper (Evaluation.node (watched ok other left) e i) m :=
  if_pos met

theorem watched_failed (failed : ¬ ok.starts left e i m) :
    (watched ok other left).eval e i m = other e i m := by
  cases left <;> exact if_neg failed

theorem watched_within {α : Type} {kind : FrameKind} {body : Nat → Eval α}
    (met : ok.opens kind i m) :
    (watched ok other left).within kind i body m = Eval.within kind i body m :=
  if_pos met

/-- The watch that has no conditions. -/
def Watch.anything : Watch where
  starts _ _ _ _ := True
  opens _ _ _ := True

theorem watched_anything (other : Runner) (left : Nat) :
    watched .anything other left = .ofDepth left := by
  have opens : @Watch.within .anything other = @Eval.within := by
    funext α kind parent body m
    exact if_pos trivial
  have starts : Watch.anything.eval other left = TreeQuery.eval left := by
    induction left with
    | zero =>
        funext e i m
        exact watched_zero trivial
    | succ left ih =>
        funext e i m
        have here : Watch.anything.eval other (left + 1) e i m = _ := watched_succ trivial
        rw [here, watched, opens, ih]
        rfl
  rw [watched, Runner.ofDepth, opens, starts]

end TreeQuery
