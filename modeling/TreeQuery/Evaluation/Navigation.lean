import TreeQuery.Evaluation.Invocation
import TreeQuery.Pattern

/-!
# Navigation from the current value

Chains of steps, which move the current value and the cursor along, and patterns over the current
value.
-/

set_option autoImplicit false

namespace TreeQuery.Evaluation

variable (run : Runner)

/-- The current value, with functions that are invoked on access resolved. -/
def currentUnboxed (frame : Nat) : Eval Evaluated := do
  unbox run (← Eval.ofChain fun c => c.current frame) frame

/-- The cursor after a step of a chain. A member of an object and an element of an array are one
step deeper; anything else is the root of a tree of its own. -/
def cursorAfter (step : Expr) (cursor : Option Address) (before result : Value) : Address :=
  match step, cursor with
  | .member key, some a => if before.isObject then a.child (.key key) else .linkedTo [] result
  | .element i, some a => if before.isArray then a.child (.index i) else .linkedTo [] result
  | _, _ => .linkedTo [] result

/-- Runs each step against the result of the one before. -/
def chainSteps (i : Nat) (result : Evaluated) : List Expr → Eval Evaluated
  | [] => return result
  | step :: rest => do
    let cursor ← Eval.ofChain fun c => c.cursor? i
    let before ← Eval.ofChain fun c => (c.current i).value
    let result ← run step i
    Eval.onChain fun c => c.setCursor i (cursorAfter step cursor before result.value)
    Eval.onChain fun c => c.setCurrent i result
    chainSteps i result rest

def chainExpr (steps : List Expr) (frame : Nat) : Eval Evaluated :=
  run.within .scope frame fun i => do
    chainSteps run i (← Eval.ofChain fun c => c.current i) steps

/-- Decides the parts of a pattern by evaluating them with the position as current value. -/
def probe (frame : Nat) : Pattern.Probe Eval where
  key e position := do
    match (← forked run e frame (.plain position)).value with
    | .text s => return s
    | .number n => return n.display
    | other => Eval.fail (Fault.evaluation
        ("dynamic path key must be a String or Number, got " ++ other.typeName))
  selects predicates element index := anySelects predicates element index
where
  /-- Whether one of the predicates gives the index of the element or something true. -/
  anySelects : List Expr → Value → Nat → Eval Bool
    | [], _, _ => return false
    | e :: rest, element, index => do
      let selected := match (← forked run e frame (.plain element)).value with
        | .number n => n.toInt? == some (index : Int)
        | other => other.truthy
      if selected then return true else anySelects rest element index

def patternExpr (parts : List PatternPart) (frame : Nat) : Eval Evaluated := do
  let root := (← currentUnboxed run frame).value
  let found ← Pattern.find (probe run frame) parts root
  return .plain (.array (found.map .address))

end TreeQuery.Evaluation
