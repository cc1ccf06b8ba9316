import TreeQuery.Evaluation.Invocation
import TreeQuery.Operation

/-!
# Operators and overrides

An operator is decided by an override that one of its operands carries, or else by the built-in
rules.
-/

set_option autoImplicit false

namespace TreeQuery.Evaluation

variable (run : Runner)

/-- The override that decides an operator, with the overrides it comes from. The left operand goes
first. -/
def winner? (symbol : String) (left : Evaluated) (right : Option Evaluated) :
    Option (Override × Overrides) :=
  match left.overrides.find? symbol with
  | some o => some (o, left.overrides)
  | none => match right with
    | none => none
    | some r => (r.overrides.find? symbol).map (·, r.overrides)

/-- Hands the operator to an override, if an operand has one. The operands go in with their
overrides put to rest; a cascading override passes all overrides on to the result. -/
def delegate (symbol : String) (left : Evaluated) (right : Option Evaluated) (frame : Nat) :
    Eval (Option Evaluated) :=
  match winner? symbol left right with
  | none => return none
  | some (o, overrides) => do
    let rest := fun (v : Evaluated) => { v with overrides := v.overrides.deactivated }
    let result ← invoke run o.function (rest left :: (right.map rest).toList) frame
    return some ⟨result.value, if o.cascade then overrides.activated else Overrides.none⟩

def binaryExpr (op : BinaryOp) (left right : Expr) (frame : Nat) : Eval Evaluated := do
  let current ← Eval.ofChain fun c => c.current frame
  let l ← forked run left frame current
  let r ← forked run right frame current
  let l ← unbox run l frame
  let r ← unbox run r frame
  match ← delegate run op.symbol l (some r) frame with
  | some result => return result
  | none => return .plain (← Eval.ofExcept (Operation.binary op l.value r.value))

def unaryExpr (op : UnaryOp) (operand : Expr) (frame : Nat) : Eval Evaluated := do
  let v ← unbox run (← run operand frame) frame
  match ← delegate run op.overrideSymbol v none frame with
  | some result => return result
  | none => return .plain (← Eval.ofExcept (Operation.unary op v.value))

end TreeQuery.Evaluation
