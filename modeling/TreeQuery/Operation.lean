import TreeQuery.Bytes.Base64
import TreeQuery.Fault
import TreeQuery.Value.Same
import TreeQuery.Value.Selection

/-!
# What operators compute

The rules of the built-in operators, by the types of their operands. A pair without a rule fails
with an error that names the operator and both types. `comparison?` says whether two values are
equal, or that they cannot be compared; inside containers, what cannot be compared is not equal.
-/

set_option autoImplicit false

namespace TreeQuery.Operation

/-- The error for operands without a rule. -/
def mismatch (op : BinaryOp) (a b : Value) : Fault :=
  Fault.operator op.symbol a.typeName b.typeName

def zeroDivisor (op : BinaryOp) : Fault :=
  ((Fault.operator op.symbol "Number" "Number").withCode "ZERO_DIVISOR").withLocation
    ("operator '" ++ op.symbol ++ "'")

/-! ## Equality and order -/

mutual

/-- Whether two values are equal; none for values of different kinds, of which neither is empty nor
null. -/
def comparison? : Value → Value → Option Bool
  | .empty, b => some b.isEmpty
  | .null, b => some b.isNull
  | _, .empty => some false
  | _, .null => some false
  | .bool a, .bool b => some (a == b)
  | .number a, .number b => some (a.eq b)
  | .text a, .text b => some (a == b)
  | .bytes a, .bytes b => some (a == b)
  | .array a, .array b => some (a.length == b.length && itemsEqual a b)
  | .object a, .object b => some (a.length == b.length && fieldsEqual a b)
  | .fault a, .fault b => some (a.same b)
  | .address a, .address b => some (a.steps == b.steps)
  | .stream a, .stream b => some (a == b)
  | .lambda a, .lambda b => some (a.id == b.id)
  | _, _ => none
termination_by structural a => a

/-- Whether the elements are equal as far as both lists go. -/
def itemsEqual : List Value → List Value → Bool
  | v :: rest, w :: others => (comparison? v w).getD false && itemsEqual rest others
  | _, _ => true
termination_by structural items => items

/-- Whether every member has an equal one under its key. -/
def fieldsEqual : List (String × Value) → List (String × Value) → Bool
  | [], _ => true
  | (key, v) :: rest, others =>
    (match Assoc.get? others key with
      | some w => (comparison? v w).getD false
      | none => false) && fieldsEqual rest others
termination_by structural fields => fields

end

/-- Equality where values that cannot be compared are not equal. -/
def looseEq (a b : Value) : Bool :=
  (comparison? a b).getD false

/-- Equality that fails on values that cannot be compared. -/
def equals (a b : Value) : Except Fault Bool :=
  match comparison? a b with
  | some verdict => .ok verdict
  | none => .error (mismatch .equal a b)

def compareText (a b : String) : Ordering :=
  if a < b then .lt else if a = b then .eq else .gt

def compare (op : BinaryOp) (a b : Value) (test : Ordering → Bool) : Except Fault Value :=
  match a, b with
  | .number x, .number y => .ok (.bool ((x.compare? y).map test |>.getD false))
  | .text x, .text y => .ok (.bool (test (compareText x y)))
  | _, _ => .error (mismatch op a b)

/-! ## Addition -/

/-- The encoded text of a scalar, for joining it with bytes. -/
def scalarBytes? : Value → Option Bytes
  | .text s => some (Bytes.ofText s)
  | .number n => some (Bytes.ofText n.display)
  | .bool b => some (Bytes.ofText (if b then "true" else "false"))
  | .null => some (Bytes.ofText "null")
  | _ => none

/-- Empty is neutral. Texts and bytes are joined, numbers added, objects overlaid; anything can be
appended to an array. -/
def add : Value → Value → Except Fault Value
  | .empty, b => .ok b
  | a, .empty => .ok a
  | .text a, .text b => .ok (.text (a ++ b))
  | .number a, .number b => .ok (.number (a.add b))
  | .array items, item => .ok (.array (items ++ [item]))
  | .object a, .object b => .ok (.object (Assoc.insertAll a b))
  | .bytes a, .bytes b => .ok (.bytes (a ++ b))
  | .bytes a, b => match scalarBytes? b with
    | some tail => .ok (.bytes (a ++ tail))
    | none => .error (mismatch .add (.bytes a) b)
  | a, .bytes b => match scalarBytes? a with
    | some head => .ok (.bytes (head ++ b))
    | none => .error (mismatch .add a (.bytes b))
  | a, b => .error (mismatch .add a b)

/-! ## Arrays as multisets -/

/-- Marks the first free element that is equal to `v`. -/
def claim? (v : Value) : List (Value × Bool) → Option (List (Value × Bool))
  | [] => none
  | (w, taken) :: rest =>
    if !taken && looseEq v w then some ((w, true) :: rest)
    else (claim? v rest).map ((w, taken) :: ·)

/-- Pairs each element on the left with the first free equal one on the right. Both sides come back
with a mark on the elements that are in a pair. -/
def pairUp : List Value → List (Value × Bool) → List (Value × Bool) × List (Value × Bool)
  | [], right => ([], right)
  | v :: rest, right =>
    let (hit, free) := match claim? v right with
      | some claimed => (true, claimed)
      | none => (false, right)
    let (left, right) := pairUp rest free
    ((v, hit) :: left, right)

def paired (a b : List Value) : List (Value × Bool) × List (Value × Bool) :=
  pairUp a (b.map (·, false))

/-- The elements with, or without, a mark. -/
def marked (mark : Bool) (elements : List (Value × Bool)) : List Value :=
  (elements.filter fun e => e.2 == mark).map Prod.fst

def intersection (a b : List Value) : List Value :=
  marked true (paired a b).1

def symmetricDifference (a b : List Value) : List Value :=
  marked false (paired a b).1 ++ marked false (paired a b).2

/-! ## Division and remainder -/

def addresses? : List Value → Option (List Address)
  | [] => some []
  | .address a :: rest => (addresses? rest).map (a :: ·)
  | _ :: _ => none

/-- An address, or an array of nothing but addresses. -/
def addressList? : Value → Option (List Address)
  | .address a => some [a]
  | .array items => addresses? items
  | _ => none

def ways (addresses : List Address) : List (List Step) :=
  addresses.map Address.steps

def isMember (v : Value) (items : List Value) : Bool :=
  items.any fun w => looseEq v w

/-- The quotient of numbers; the common elements of arrays; the part of an object that addresses
reach; the elements equal to a scalar; whether a scalar is an element. -/
def divide (a b : Value) : Except Fault Value :=
  match a, b with
  | .number x, .number y => match x.div? y with
    | some q => .ok (.number q)
    | none => .error (zeroDivisor .divide)
  | .array x, .array y => .ok (.array (intersection x y))
  | .object _, _ => match addressList? b with
    | some list => .ok (a.retain (ways list))
    | none => .error (mismatch .divide a b)
  | .array items, scalar =>
    if scalar.isScalar then .ok (.array (items.filter fun v => looseEq v scalar))
    else .error (mismatch .divide a b)
  | scalar, .array items =>
    if scalar.isScalar then .ok (.bool (isMember scalar items))
    else .error (mismatch .divide a b)
  | _, _ => .error (mismatch .divide a b)

/-- The counterpart of division: remainder, elements in one array only, the part that addresses do
not reach, the elements not equal to a scalar, whether a scalar is no element. -/
def modulo (a b : Value) : Except Fault Value :=
  match a, b with
  | .number x, .number y => match x.rem? y with
    | some r => .ok (.number r)
    | none => .error (zeroDivisor .modulo)
  | .array x, .array y => .ok (.array (symmetricDifference x y))
  | .object _, _ => match addressList? b with
    | some list => .ok (a.reclude (ways list))
    | none => .error (mismatch .modulo a b)
  | .array items, scalar =>
    if scalar.isScalar then .ok (.array (items.filter fun v => !looseEq v scalar))
    else .error (mismatch .modulo a b)
  | scalar, .array items =>
    if scalar.isScalar then .ok (.bool (!isMember scalar items))
    else .error (mismatch .modulo a b)
  | _, _ => .error (mismatch .modulo a b)

/-! ## All operators -/

def numeric (op : BinaryOp) (a b : Value) (f : Numeral → Numeral → Numeral) : Except Fault Value :=
  match a, b with
  | .number x, .number y => .ok (.number (f x y))
  | _, _ => .error (mismatch op a b)

def logical (op : BinaryOp) (a b : Value) (f : Bool → Bool → Bool) : Except Fault Value :=
  match a, b with
  | .bool x, .bool y => .ok (.bool (f x y))
  | _, _ => .error (mismatch op a b)

def binary (op : BinaryOp) (a b : Value) : Except Fault Value :=
  match op with
  | .add => add a b
  | .subtract => numeric op a b Numeral.sub
  | .multiply => numeric op a b Numeral.mul
  | .power => numeric op a b Numeral.pow
  | .divide => divide a b
  | .modulo => modulo a b
  | .equal => (equals a b).map .bool
  | .notEqual => match comparison? a b with
    | some verdict => .ok (.bool (!verdict))
    | none => .error (mismatch op a b)
  | .less => compare op a b (· == .lt)
  | .lessEqual => compare op a b (· != .gt)
  | .greater => compare op a b (· == .gt)
  | .greaterEqual => compare op a b (· != .lt)
  | .and => logical op a b (· && ·)
  | .or => logical op a b (· || ·)

def unary : UnaryOp → Value → Except Fault Value
  | .negate, .number n => .ok (.number n.neg)
  | .not, .bool b => .ok (.bool (!b))
  | op, v => .error (Fault.unaryOperator op.symbol v.typeName)

end TreeQuery.Operation
