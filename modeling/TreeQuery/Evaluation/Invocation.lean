import TreeQuery.Evaluation.Handler

/-!
# Invoking functions

A function is made with all named values in sight, and runs in a frame nested in that of its caller.
One that is to be invoked on access is invoked when its value is first needed, and its result is
kept.
-/

set_option autoImplicit false

namespace TreeQuery.Evaluation

variable (run : Runner)

def setCaptured (i : Nat) : List (String × Evaluated) → Eval Unit
  | [] => return
  | (name, v) :: rest => do
    Eval.onChain fun c => c.setValue i name v
    setCaptured i rest

/-- Gives each parameter its argument. An empty argument counts as missing where there is a
fallback. -/
def setParams (i : Nat) : List Param → List Evaluated → Eval Unit
  | [], _ => return
  | p :: params, args => do
    let supplied := args.head?.filter fun arg => !(arg.value.isEmpty && p.fallback.isSome)
    let v ← match supplied, p.fallback with
      | some v, _ => pure v
      | none, some fallback => run fallback i
      | none, none => Eval.fail (Fault.of .function ("missing argument '" ++ p.name ++ "'"))
    Eval.onChain fun c => c.setValue i p.name v
    setParams i params args.tail

/-- Invokes a function in a frame nested in that of the caller. -/
def invoke (l : Lambda) (args : List Evaluated) (caller : Nat) : Eval Evaluated :=
  let d := l.definition
  if d.params.length < args.length then
    Eval.fail (Fault.of .function
      ("lambda takes " ++ toString d.params.length ++ " arguments, got " ++ toString args.length))
  else
    run.within .function caller fun i => do
      setCaptured i l.captured
      setParams run i d.params args
      guarded run i d.handler (run d.body i)

/-- Invokes a function that is to be invoked on access, once, and leaves all else as it is. -/
def unbox (v : Evaluated) (frame : Nat) : Eval Evaluated :=
  match v.value with
  | .lambda l =>
    if l.definition.invokesOnAccess then do
      let result ← Eval.once l.id (invoke run l [] frame)
      return if result.overrides.isEmpty then { result with overrides := v.overrides } else result
    else return v
  | _ => return v

def makeLambda (d : Definition) (frame : Nat) : Eval Evaluated := do
  let captured ← Eval.ofChain fun c => c.visible frame
  let id ← Eval.freshId
  return .plain (.lambda ⟨id, d, captured⟩)

/-- Evaluates in a frame of its own with the given current value. -/
def forked (e : Expr) (frame : Nat) (current : Evaluated) : Eval Evaluated :=
  run.within .scope frame fun i => do
    Eval.onChain fun c => c.setCurrent i current
    run e i

def invokeArgs (frame : Nat) (current : Evaluated) : List Expr → Eval (List Evaluated)
  | [] => return []
  | e :: rest => do
    let v ← forked run e frame current
    let vs ← invokeArgs frame current rest
    return v :: vs

def invokeExpr (target : Expr) (args : List Expr) (frame : Nat) : Eval Evaluated := do
  let callee ← run target frame
  match callee.value with
  | .lambda l =>
    let current ← Eval.ofChain fun c => c.current frame
    let values ← invokeArgs run frame current args
    invoke run l values frame
  | other => Eval.fail (Fault.evaluation ("cannot invoke a value of type " ++ other.typeName))

end TreeQuery.Evaluation
