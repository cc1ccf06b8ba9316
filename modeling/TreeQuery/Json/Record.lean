import TreeQuery.Assoc
import TreeQuery.Json.Basic

/-!
# Records in JSON

A record is an object with declared members. It may also be written as an array of its members in
the order of declaration, with members missing at the end. A repeated member, one too many and one
that is not declared are refused.
-/

set_option autoImplicit false

namespace TreeQuery.Json

/-- The members that are present, by name. -/
def record? (declared : List String) : Json → Option (Assoc String Json)
  | .object members =>
    let names := members.map Prod.fst
    if names.all declared.contains && names.eraseDups.length == names.length then some members
    else none
  | .array items => if declared.length < items.length then none else some (declared.zip items)
  | _ => none

/-- The member read with `read`, or the default when it is not present. -/
def field? {α : Type} (record : Assoc String Json) (name : String) (default : Option α)
    (read : Json → Option α) : Option α :=
  match Assoc.get? record name with
  | none => default
  | some j => read j

/-- A whole number below a bound. -/
def natBelow? (bound : Nat) : Json → Option Nat
  | .integer n => if 0 ≤ n ∧ n < bound then some n.toNat else none
  | _ => none

/-- Any number, as a double. -/
def float? : Json → Option Float
  | .integer n => some (Decimal.ofInt n)
  | .real x => some x
  | _ => none

def text? : Json → Option String
  | .text s => some s
  | _ => none

/-- A name on its own, or as the only member of an object, with nothing under it. -/
def name? : Json → Option String
  | .text s => some s
  | .object [(s, .null)] => some s
  | _ => none

/-- Null stands for absence. -/
def optional? {α : Type} (read : Json → Option α) : Json → Option (Option α)
  | .null => some none
  | j => (read j).map some

end TreeQuery.Json
