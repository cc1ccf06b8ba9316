import TreeQuery.Evaluation.Invocation
import TreeQuery.Library.Apply

/-!
# Calls of library functions

The number of arguments is checked before they are evaluated and their types after. Functions on the
state of the machine are decided here, all others by `Function.result?`.
-/

set_option autoImplicit false

namespace TreeQuery.Evaluation

variable (run : Runner)

/-- The arguments of a library function, each seeing the same current value. -/
def callArgs (frame : Nat) (current : Evaluated) : List Expr → Eval (List Evaluated)
  | [] => return []
  | e :: rest => do
    let v ← unbox run (← forked run e frame current) frame
    let vs ← callArgs frame current rest
    return v :: vs

/-- Runs an operation of the store. -/
def withStore {α : Type} (operation : Nat → Store.Backend → Except StoreError α × Store.Backend)
    (library name : String) : Eval α := do
  let m ← get
  match m.store with
  | none =>
    Eval.fail ((Fault.of .component "no state store configured").withCode "NO_STATE_STORE")
  | some s =>
    let (result, backend) := operation s.attempts s.backend
    set { m with store := some { s with backend } }
    match result with
    | .ok a => return a
    | .error e => Eval.fail ((Library.CallError.store e).toFault library name)

/-- Sets the handled flag of the nearest handler. -/
def markHandled (frame : Nat) (handled : Bool) : Eval Value := do
  match ← Eval.ofChain fun c => c.nearest? frame .handler with
  | none =>
    Eval.fail ((Fault.of .function "called outside of an exception handler").inFunction
      "error" "handled")
  | some i =>
    Eval.onChain fun c => c.setHandled i handled
    return .bool handled

/-- The result of a library function on arguments that were checked. -/
def dispatch (f : Function) (args : List Evaluated) (frame : Nat) : Eval Evaluated := do
  let (library, name) := f.fullName
  match f, args with
  | .coreCopy, [v] => return v
  | .pathCurrent, [] =>
    return .plain (((← Eval.ofChain fun c => c.cursor? frame).map .address).getD .empty)
  | .errorHandled, [⟨.bool flag, _⟩] => return .plain (← markHandled frame flag)
  | .stateGet, [⟨.text key, _⟩] =>
    return .plain (← withStore (fun n b => b.get n key none) library name)
  | .stateGet, [⟨.text key, _⟩, default] =>
    return .plain (← withStore (fun n b => b.get n key (some default.value)) library name)
  | .stateSet, [⟨.text key, _⟩, v] => do
    withStore (fun n b => b.set n key v.value) library name
    return .plain v.value
  | .streamCollect, [⟨.stream id, _⟩] => return .plain (Library.collected (← Eval.drain id))
  | f, args =>
    match f.result? (args.map Evaluated.value) with
    | some (.ok v) => return .plain v
    | some (.error e) => Eval.fail (e.toFault library name)
    | none =>
      Eval.fail ((Library.CallError.doNotFit args.length library name).toFault library name)

def callExpr (library name : String) (args : List Expr) (frame : Nat) : Eval Evaluated := do
  let refuse := fun (e : Library.SignatureError) =>
    (Library.CallError.signature e).toFault library name
  let f ← Eval.ofExcept ((Function.lookup library name).mapError refuse)
  Eval.ofExcept ((f.signature.checkCount args.length).mapError refuse)
  let current ← Eval.ofChain fun c => c.current frame
  let values ← callArgs run frame current args
  Eval.ofExcept ((f.signature.checkTypes (values.map Evaluated.value)).mapError refuse)
  dispatch f values frame

end TreeQuery.Evaluation
