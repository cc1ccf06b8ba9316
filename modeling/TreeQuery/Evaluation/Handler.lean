import TreeQuery.Machine.Basic

/-!
# Handlers

The rules for the constructs of a program are given with the evaluation of their parts, and the
opening of frames, as a parameter, a `Runner`. The first of them is what a handler does to the
outcome of what it guards.
-/

set_option autoImplicit false

namespace TreeQuery

/-- How the parts of a construct are run. -/
structure Runner where
  /-- The evaluation of an expression in a frame. -/
  eval : Expr → Nat → Eval Evaluated
  /-- A computation in a new frame, which is nested in a given one. -/
  within : {α : Type} → FrameKind → Nat → (Nat → Eval α) → Eval α

instance : CoeFun Runner fun _ => Expr → Nat → Eval Evaluated :=
  ⟨Runner.eval⟩

namespace Evaluation

variable (run : Runner)

/-- Runs the body of a handler in its own frame and gives its outcome, with the handled flag. -/
def handle (frame : Nat) (h : Handler) (caught : Fault) :
    Eval (Except Signal Evaluated × Bool) :=
  run.within .handler frame fun i => do
    let error := Evaluated.plain (.fault caught)
    Eval.onChain fun c => c.setCurrent i error
    Eval.onChain fun c => c.setValue i Chain.errorName error
    Eval.onChain fun c => c.setHandled i h.handled
    let outcome ← Eval.attempt (run h.body i)
    let handled ← Eval.ofChain fun c => c.isHandled i
    return (outcome, handled)

/-- Runs a computation under a handler. Only errors reach it. A handler that fails in turn replaces
the error and keeps it as the cause; one that does not count it as handled lets it pass. -/
def guarded (frame : Nat) (handler : Option Handler) (body : Eval Evaluated) : Eval Evaluated :=
  match handler with
  | none => body
  | some h => do
    match ← Eval.attempt body with
    | .ok v => return v
    | .error (.fault caught) =>
      match ← handle run frame h caught with
      | (.ok recovered, handled) => if handled then return recovered else Eval.fail caught
      | (.error (.fault secondary), _) => Eval.fail (secondary.wrapping caught)
      | (.error control, _) => throw control
    | .error control => throw control

end Evaluation

end TreeQuery
