/-!
# Operators and policies

The operators of the language with their symbols, and the two policies of a let-binding: when its
memo is cleared and when it is first computed.
-/

set_option autoImplicit false

namespace TreeQuery

inductive BinaryOp where
  | add | subtract | multiply | divide | modulo | power
  | equal | notEqual | less | lessEqual | greater | greaterEqual
  | and | or
  deriving DecidableEq, Repr

namespace BinaryOp

def all : List BinaryOp :=
  [add, subtract, multiply, divide, modulo, power, equal, notEqual, less, lessEqual, greater,
    greaterEqual, and, or]

/-- The symbol that error payloads and overrides use. -/
def symbol : BinaryOp → String
  | add => "+"
  | subtract => "-"
  | multiply => "*"
  | divide => "/"
  | modulo => "%"
  | power => "^"
  | equal => "="
  | notEqual => "!="
  | less => "<"
  | lessEqual => "<="
  | greater => ">"
  | greaterEqual => ">="
  | and => "and"
  | or => "or"

def ofSymbol? (s : String) : Option BinaryOp :=
  all.find? fun op => op.symbol == s

end BinaryOp

inductive UnaryOp where
  | negate | not
  deriving DecidableEq, Repr

namespace UnaryOp

def all : List UnaryOp :=
  [negate, not]

/-- The symbol that error payloads use. -/
def symbol : UnaryOp → String
  | negate => "-"
  | not => "not"

/-- The name that overrides use; the minus sign alone means subtraction there. -/
def overrideSymbol : UnaryOp → String
  | negate => "neg"
  | not => "not"

def ofOverrideSymbol? (s : String) : Option UnaryOp :=
  all.find? fun op => op.overrideSymbol == s

end UnaryOp

/-- Whether an override may be given for a symbol. -/
def isOverridable (s : String) : Bool :=
  (BinaryOp.ofSymbol? s).isSome || (UnaryOp.ofOverrideSymbol? s).isSome

/-- When the memo of a let-binding is cleared. -/
inductive ResetPolicy where
  | never
  | afterScope
  | afterQuery
  | always
  deriving DecidableEq, Repr

namespace ResetPolicy

def all : List ResetPolicy :=
  [never, afterScope, afterQuery, always]

def name : ResetPolicy → String
  | never => "NEVER"
  | afterScope => "AFTER_SCOPE"
  | afterQuery => "AFTER_QUERY"
  | always => "ALWAYS"

def ofName? (s : String) : Option ResetPolicy :=
  all.find? fun p => p.name == s

end ResetPolicy

/-- When a let-binding is first computed: at its first use or on entry to its scope. -/
inductive Timing where
  | lazy
  | eager
  deriving DecidableEq, Repr

namespace Timing

def all : List Timing :=
  [.lazy, .eager]

def name : Timing → String
  | .lazy => "LAZY"
  | .eager => "EAGER"

def ofName? (s : String) : Option Timing :=
  all.find? fun p => p.name == s

end Timing

end TreeQuery
