import TreeQuery.Evaluation.Invocation

/-!
# Loops

A loop goes through the values of its source, one round each. A round may end early with a signal to
go on or to leave the loop; any other signal leaves the loop altogether.
-/

set_option autoImplicit false

namespace TreeQuery.Evaluation

variable (run : Runner)

/-- The source of a loop and the values it goes through: the elements of an array, what is left in a
stream, nothing for empty, and any other value once. -/
def loopItems (source : Expr) (frame : Nat) : Eval (Value × List Value) := do
  let v := (← unbox run (← run source frame) frame).value
  match v with
  | .empty => return (v, [])
  | .array items => return (v, items)
  | .stream id => return (v, ← Eval.drain id)
  | other => return (v, [other])

/-- One round of a loop. Over an array the cursor goes to the element. -/
def round (body : Expr) (frame : Nat) (source : Value) (accumulator : Option Evaluated)
    (index : Nat) (item : Value) : Eval Evaluated :=
  run.within .loop frame fun i => do
    if source.isArray then
      Eval.onChain fun c => c.setCursor i ((Address.linkedTo [] source).child (.index index))
    Eval.onChain fun c => c.setCurrent i (.plain item)
    match accumulator with
    | some acc => Eval.onChain fun c => c.setValue i Chain.accumulatorName acc
    | none => pure ()
    run body i

/-- Collects the results of the rounds that are not empty. -/
def mapRounds (once : Nat → Value → Eval Evaluated) : Nat → List Value → Eval (List Value)
  | _, [] => return []
  | index, item :: rest => do
    match ← Eval.attempt (once index item) with
    | .ok v =>
      let vs ← mapRounds once (index + 1) rest
      return if v.value.isEmpty then vs else v.value :: vs
    | .error .continueLoop => mapRounds once (index + 1) rest
    | .error .breakLoop => return []
    | .error signal => throw signal

def mapExpr (source body : Expr) (frame : Nat) : Eval Evaluated := do
  let (v, items) ← loopItems run source frame
  return .plain (.array (← mapRounds (round run body frame v none) 0 items))

/-- Passes the result of each round on to the next. -/
def foldRounds (once : Evaluated → Nat → Value → Eval Evaluated) :
    Evaluated → Nat → List Value → Eval Evaluated
  | acc, _, [] => return acc
  | acc, index, item :: rest => do
    match ← Eval.attempt (once acc index item) with
    | .ok v => foldRounds once v (index + 1) rest
    | .error .continueLoop => foldRounds once acc (index + 1) rest
    | .error .breakLoop => return acc
    | .error signal => throw signal

def aggregateExpr (source initial body : Expr) (frame : Nat) : Eval Evaluated := do
  let (v, items) ← loopItems run source frame
  let acc ← run initial frame
  foldRounds (fun acc => round run body frame v (some acc)) acc 0 items

end TreeQuery.Evaluation
