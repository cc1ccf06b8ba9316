import TreeQuery.Evaluation.Binding
import TreeQuery.Evaluation.Call
import TreeQuery.Evaluation.Loop
import TreeQuery.Evaluation.Navigation
import TreeQuery.Evaluation.Operator

/-!
# Evaluation

`eval` computes an expression in a frame. Its first argument is the depth that is left; every
re-entry, be it for a let-binding, a handler, a fallback or a predicate, costs one and is counted on
the machine while it lasts. `Evaluation.node` gives the rule for each kind of expression, and `eval`
ties the knot.

`Machine.evaluate` runs a program on an input. It starts and ends with the same frames, whatever the
outcome.
-/

set_option autoImplicit false

namespace TreeQuery

namespace Evaluation

variable (run : Runner)

/-- The values of the expressions that are not empty. -/
def items (frame : Nat) : List Expr → Eval (List Value)
  | [] => return []
  | e :: rest => do
    let v := (← run e frame).value
    let vs ← items frame rest
    return if v.isEmpty then vs else v :: vs

/-- Adds the members that are not empty to those so far. -/
def members (frame : Nat) (sofar : List (String × Value)) :
    List (String × Expr) → Eval (List (String × Value))
  | [] => return sofar
  | (key, e) :: rest => do
    let v := (← run e frame).value
    members frame (if v.isEmpty then sofar else Assoc.insert sofar key v) rest

def conditionalExpr (condition yes : Expr) (no : Option Expr) (frame : Nat) : Eval Evaluated := do
  let verdict ← unbox run (← run condition frame) frame
  if verdict.value.truthy then run yes frame
  else match no with
    | some e => run e frame
    | none => return .plain .empty

/-- Raises an error; its location is the cursor. -/
def raiseExpr (kind : String) (code : Option String) (message : Expr) (payload : Option Expr)
    (frame : Nat) : Eval Evaluated := do
  let message := match (← run message frame).value with
    | .text s => s
    | other => other.display
  let payload ← match payload with
    | some e => do pure (← run e frame).value
    | none => pure .empty
  let cursor ← Eval.ofChain fun c => c.cursor? frame
  let raised := Fault.raised kind message payload
  Eval.fail { raised with code := code, location := cursor.map Address.text }

def sinkExpr (input : Expr) (component : String) (frame : Nat) : Eval Evaluated := do
  let v ← unbox run (← run input frame) frame
  return { v with value := ← Eval.deliver component v.value }

/-- The rule for each kind of expression. -/
def node : Expr → Nat → Eval Evaluated
  | .empty, _ => return .plain .empty
  | .null, _ => return .plain .null
  | .bool b, _ => return .plain (.bool b)
  | .number n, _ => return .plain (.number n)
  | .text s, _ => return .plain (.text s)
  | .bytes b, _ => return .plain (.bytes b)
  | .array es, frame => return .plain (.array (← items run frame es))
  | .object es, frame => return .plain (.object (← members run frame [] es))
  | .current, frame => Eval.ofChain fun c => c.current frame
  | .named name, frame => nameRef run name frame
  | .member key, frame => return .plain ((← currentUnboxed run frame).value.memberOf key)
  | .element i, frame => return .plain (((← currentUnboxed run frame).value.element? i).getD .empty)
  | .chain steps, frame => chainExpr run steps frame
  | .binary op l r, frame => binaryExpr run op l r frame
  | .unary op e, frame => unaryExpr run op e frame
  | .call library name args, frame => callExpr run library name args frame
  | .function d, frame => makeLambda d frame
  | .invoke target args, frame => invokeExpr run target args frame
  | .scope body handler, frame =>
    run.within .scope frame fun i => guarded run i handler (run body i)
  | .letIn bindings body handler, frame => letScope run .letIn bindings body handler frame
  | .select bindings body handler, frame => letScope run .select bindings body handler frame
  | .conditional c yes no, frame => conditionalExpr run c yes no frame
  | .map source body, frame => mapExpr run source body frame
  | .aggregate source initial body, frame => aggregateExpr run source initial body frame
  | .breakLoop, _ => throw .breakLoop
  | .continueLoop, _ => throw .continueLoop
  | .stop reason e, frame => do throw (.stop reason (← run e frame).value)
  | .raise kind code message payload, frame => raiseExpr run kind code message payload frame
  | .address steps, frame =>
    return .plain (.address (.linkedTo steps (← Eval.ofChain fun c => c.current frame).value))
  | .pattern parts, frame => patternExpr run parts frame
  | .sink input component, frame => sinkExpr run input component frame

end Evaluation

/-- The error when no depth is left. -/
def depthExceeded (maxDepth : Nat) : Fault :=
  Fault.evaluation ("maximum evaluation depth (" ++ toString maxDepth ++ ") exceeded")

/-- Evaluates an expression in a frame, with the depth that is left. -/
def eval : Nat → Expr → Nat → Eval Evaluated
  | 0, _, _ => do Eval.fail (depthExceeded (← get).settings.maxDepth)
  | left + 1, e, frame => Eval.deeper (Evaluation.node ⟨eval left, Eval.within⟩ e frame)

/-- How the parts of a construct are run, with the depth that is left. -/
def Runner.ofDepth (left : Nat) : Runner :=
  ⟨TreeQuery.eval left, Eval.within⟩

namespace Machine

/-- The outcome of a whole evaluation. A stop that no select receives is a result; any other signal
that nothing receives is an error. -/
def outcomeOf : Except Signal Evaluated → Except Fault Value
  | .ok v => .ok v.value
  | .error (.fault f) => .error f
  | .error (.stop _ v) => .ok v
  | .error signal => .error (Fault.evaluation signal.message)

/-- The frame in which a program starts: the input is its current value and the root of its
cursor. -/
def enter (m : Machine) (input : Value) : Machine :=
  let root := m.chain.size
  m.onChain fun c =>
    ((c.push .query none).setCursor root (.linkedTo [] input)).setCurrent root (.plain input)

/-- Runs the root of a program, under its handler, in a frame of its own. -/
def runRoot (m : Machine) (run : Runner) (p : Program) (input : Value) :
    Except Signal Evaluated × Machine :=
  let root := m.chain.size
  Evaluation.guarded run root p.handler (run p.root root) (m.enter input)

/-- Runs a program, with the evaluation of its expressions as a parameter. -/
def evaluateWith (m : Machine) (run : Runner) (p : Program) (input : Value) :
    Except Fault Value × Machine :=
  match m.runRoot run p input with
  | (outcome, after) =>
    (outcomeOf outcome, { after.onChain (·.truncate m.chain.size) with perQuery := [] })

/-- How many evaluations can still be nested. -/
def depthLeft (m : Machine) : Nat :=
  m.settings.maxDepth - m.depth

/-- Runs a program on an input. -/
def evaluate (m : Machine) (p : Program) (input : Value) : Except Fault Value × Machine :=
  m.evaluateWith (.ofDepth m.depthLeft) p input

/-- Runs a program; an error comes back as a value. -/
def evaluateToValue (m : Machine) (p : Program) (input : Value) : Value × Machine :=
  match m.evaluate p input with
  | (.ok v, after) => (v, after)
  | (.error f, after) => (.fault f, after)

end Machine

end TreeQuery
