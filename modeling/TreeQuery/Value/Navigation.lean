import TreeQuery.Value.Basic

/-!
# Navigation

Walking a tree along steps, the children of a node, and the addresses of its leaves. A leaf is a
value below the root that is not empty and has no child that is not empty; empty slots of an array
are holes and hold no location.
-/

set_option autoImplicit false

namespace TreeQuery.Value

/-- The child that a step leads to. -/
def child? : Value → Step → Option Value
  | .object fields, .key name => Assoc.get? fields name
  | .array items, .index position => items[position]?
  | _, _ => none

/-- The value at an address, if the address leads anywhere. -/
def walk? : Value → List Step → Option Value
  | v, [] => some v
  | v, s :: rest => (child? v s).bind (walk? · rest)

/-- The value at an address; empty when it leads nowhere. -/
def resolve (v : Value) (steps : List Step) : Value :=
  (walk? v steps).getD .empty

/-- Members of objects and elements of arrays, with the step to each. -/
def children : Value → List (Step × Value)
  | .object fields => fields.map fun field => (.key field.1, field.2)
  | .array items => items.mapIdx fun i v => (.index i, v)
  | _ => []

mutual

/-- The ways down to the leaves; the empty way if the value is a leaf itself. -/
def leafSteps : Value → List (List Step)
  | .array items => match leafStepsItems 0 items with
    | [] => [[]]
    | below => below
  | .object fields => match leafStepsFields fields with
    | [] => [[]]
    | below => below
  | _ => [[]]

def leafStepsItems : Nat → List Value → List (List Step)
  | _, [] => []
  | i, v :: rest =>
    (if v.isEmpty then [] else (leafSteps v).map (.index i :: ·)) ++ leafStepsItems (i + 1) rest

def leafStepsFields : List (String × Value) → List (List Step)
  | [] => []
  | (key, v) :: rest =>
    (if v.isEmpty then [] else (leafSteps v).map (.key key :: ·)) ++ leafStepsFields rest

end

/-- The addresses of all leaves below the root, in document order. -/
def leaves (v : Value) : List Address :=
  ((leafSteps v).filter fun steps => !steps.isEmpty).map fun steps => .linkedTo steps v

mutual

/-- The member of an object. Over an array it is collected from the elements: empty results are
left out, and a result that is an array contributes its elements. -/
def memberOf (key : String) : Value → Value
  | .object fields => (Assoc.get? fields key).getD .empty
  | .array items => .array (membersOf key items)
  | _ => .empty

def membersOf (key : String) : List Value → List Value
  | [] => []
  | v :: rest =>
    (match memberOf key v with
      | .empty => []
      | .array inner => inner
      | other => [other]) ++ membersOf key rest

end

end TreeQuery.Value

namespace TreeQuery.Address

/-- The value in the linked tree; empty when there is none. -/
def value (a : Address) : Value :=
  match a.root? with
  | some root => root.resolve a.steps
  | none => .empty

/-- The address that an array of texts and whole numbers spells out. -/
def stepsOf? : List Value → Option (List Step)
  | [] => some []
  | .text key :: rest => (stepsOf? rest).map (.key key :: ·)
  | .number n :: rest =>
    match n.toInt? with
    | some i => if 0 ≤ i then (stepsOf? rest).map (.index i.toNat :: ·) else none
    | none => none
  | _ :: _ => none

def ofValue? : Value → Option Address
  | .array items => (stepsOf? items).map unlinked
  | _ => none

/-- The steps as an array of texts and numbers. -/
def toValue (a : Address) : Value :=
  .array (a.steps.map fun
    | .key name => .text name
    | .index position => .ofNat position)

end TreeQuery.Address
