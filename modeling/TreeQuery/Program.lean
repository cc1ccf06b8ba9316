import TreeQuery.Bytes.Hex
import TreeQuery.Numeral
import TreeQuery.Operator
import TreeQuery.Step

/-!
# Programs

A program is a tree of expressions with an optional handler for the errors that reach its top.
Let-bindings carry an identity, because what is remembered about a binding belongs to that one
binding and not to another with the same text.
-/

set_option autoImplicit false

namespace TreeQuery

/-- Why a select is asked to stop. -/
inductive StopReason where
  | stop
  | aggregate
  deriving DecidableEq, Repr

def StopReason.name : StopReason → String
  | .stop => "fromStop"
  | .aggregate => "fromAggregate"

mutual

inductive Expr where
  | empty
  | null
  | bool (b : Bool)
  | number (n : Numeral)
  | text (s : String)
  | bytes (b : Bytes)
  /-- An array; elements that come out empty are left out. -/
  | array (items : List Expr)
  /-- An object; members that come out empty are left out. -/
  | object (members : List (String × Expr))
  /-- The current value. -/
  | current
  /-- A named value or let-binding. -/
  | named (name : String)
  /-- A member of the current value. -/
  | member (key : String)
  /-- An element of the current value. -/
  | element (position : Nat)
  /-- Steps that each run against the result of the one before. -/
  | chain (steps : List Expr)
  | binary (op : BinaryOp) (left right : Expr)
  | unary (op : UnaryOp) (operand : Expr)
  /-- A call of a library function. -/
  | call (library name : String) (args : List Expr)
  | function (definition : Definition)
  | invoke (target : Expr) (args : List Expr)
  | scope (body : Expr) (handler : Option Handler)
  | letIn (bindings : List Binding) (body : Expr) (handler : Option Handler)
  /-- A let scope that `stop` leaves with a value. -/
  | select (bindings : List Binding) (body : Expr) (handler : Option Handler)
  | conditional (condition yes : Expr) (no : Option Expr)
  /-- Collects the results of the body that are not empty. -/
  | map (source body : Expr)
  /-- Folds the body over the source, with the result so far under a name. -/
  | aggregate (source initial body : Expr)
  | breakLoop
  | continueLoop
  | stop (reason : StopReason) (value : Expr)
  | raise (kind : String) (code : Option String) (message : Expr) (payload : Option Expr)
  /-- An address linked to the current value. -/
  | address (steps : List Step)
  /-- The addresses of the current value that a pattern selects. -/
  | pattern (parts : List PatternPart)
  /-- Hands a value to a component. -/
  | sink (input : Expr) (component : String)

/-- A parameter without a fallback is required. -/
structure Param where
  name : String
  fallback : Option Expr

structure Definition where
  params : List Param
  body : Expr
  /-- Invoke when the value is needed instead of passing the function on. -/
  onAccess : Bool
  handler : Option Handler

/-- Runs when the guarded statement fails with an error. The flag says whether the error counts as
handled unless the body decides otherwise. -/
structure Handler where
  body : Expr
  handled : Bool

structure Binding where
  id : Nat
  name : String
  expr : Expr
  config : Option Expr
  handler : Option Handler

inductive PatternPart where
  | key (name : String)
  /-- A key that is computed at the position reached. -/
  | computed (expr : Expr)
  /-- One level. -/
  | any
  /-- One level or more. -/
  | anyBelow
  /-- Any number of levels. -/
  | anyDepth
  /-- The array elements that one of the predicates selects. -/
  | filter (predicates : List Expr)

end

structure Program where
  root : Expr
  handler : Option Handler

namespace Expr

/-- A number in its written form; null when it is not one. -/
def decimal (s : String) : Expr :=
  match Numeral.parse? s with
  | some n => .number n
  | none => .null

/-- The configuration that names only the two policies. -/
def policies (reset : ResetPolicy) (timing : Timing) : Expr :=
  .object [("reset", .text reset.name), ("evaluate", .text timing.name)]

end Expr

def Definition.required (d : Definition) : Nat :=
  (d.params.filter fun p => p.fallback.isNone).length

/-- Whether every parameter has a fallback and the function is to be invoked on access. -/
def Definition.invokesOnAccess (d : Definition) : Bool :=
  d.onAccess && d.params.all fun p => p.fallback.isSome

namespace PatternPart

def display : PatternPart → String
  | .key name => (Step.key name).text
  | .computed _ => ".(expr)"
  | .any => ".?"
  | .anyBelow => ".?+"
  | .anyDepth => ".?*"
  | .filter predicates => "[" ++ toString predicates.length ++ " predicates]"

end PatternPart

def patternText (parts : List PatternPart) : String :=
  "~" ++ String.join (parts.map PatternPart.display)

end TreeQuery
