import TreeQuery.Value.Basic

/-!
# Errors and signals

How structured errors are put together, and the ways in which an evaluation ends without a value.
Handlers see errors only; the control signals pass them.
-/

set_option autoImplicit false

namespace TreeQuery

namespace Fault

def of (kind : FaultKind) (message : String) : Fault :=
  ⟨kind, none, message, .empty, none, none, none, none⟩

def withPayload (f : Fault) (payload : Value) : Fault :=
  { f with payload }

def withCode (f : Fault) (code : String) : Fault :=
  { f with code := some code }

/-- Tags the error with a library function; an empty library name is not recorded. -/
def inFunction (f : Fault) (library function : String) : Fault :=
  { f with
    library := if library.isEmpty then f.library else some library
    function := some function }

def withLocation (f : Fault) (location : String) : Fault :=
  { f with location := some location }

/-- The error that replaced `cause` while it was being handled. -/
def wrapping (f cause : Fault) : Fault :=
  { f with cause := some cause }

/-- No rule for an operator on operands of these types. -/
def operator (symbol left right : String) : Fault :=
  (of .operator
    ("operator '" ++ symbol ++ "' is not defined for " ++ left ++ " and " ++ right)).withPayload
    (.object [("operator", .text symbol), ("lhsType", .text left), ("rhsType", .text right)])

/-- No rule for an operator on an operand of this type. -/
def unaryOperator (symbol operand : String) : Fault :=
  (of .operator ("unary operator '" ++ symbol ++ "' is not defined for " ++ operand)).withPayload
    (.object [("operator", .text symbol), ("valueType", .text operand)])

def evaluation (message : String) : Fault :=
  of .evaluation message

/-- An error that the program raises under a name. -/
def raised (kind message : String) (payload : Value) : Fault :=
  (of (.ofName kind) message).withPayload payload

/-- The chain of errors from this one to the first. -/
def chain : Fault → List Fault
  | ⟨kind, code, message, payload, library, function, location, none⟩ =>
    [⟨kind, code, message, payload, library, function, location, none⟩]
  | ⟨kind, code, message, payload, library, function, location, some cause⟩ =>
    ⟨kind, code, message, payload, library, function, location, some cause⟩ :: chain cause

end Fault

/-- How an evaluation ends without a value. -/
inductive Signal where
  | fault (f : Fault)
  | breakLoop
  | continueLoop
  | stop (reason : StopReason) (value : Value)

namespace Signal

/-- Whether the signal passes handlers. -/
def isControl : Signal → Bool
  | .fault _ => false
  | _ => true

/-- What is said of a signal that nothing receives. -/
def message : Signal → String
  | .fault f => f.kind.name ++ ": " ++ f.message
  | .breakLoop => "break outside of a loop"
  | .continueLoop => "continue outside of a loop"
  | .stop reason _ => "select stopped (" ++ reason.name ++ ")"

end Signal

end TreeQuery
