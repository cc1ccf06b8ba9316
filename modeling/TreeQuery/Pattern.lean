import TreeQuery.Value.Navigation

/-!
# Matching address patterns

A pattern selects the addresses of a tree that its parts spell out. `matchAt` follows the parts one
after the other and lists the ways down in the order in which they are found, possibly more than
once; `find` keeps the first of each. Parts with expressions are decided by a probe, which may have
effects: they happen in the order of the search.
-/

set_option autoImplicit false

namespace TreeQuery.Pattern

/-- How the parts of a pattern that hold expressions are decided. -/
structure Probe (m : Type → Type) where
  /-- The key that an expression gives at a position. -/
  key : Expr → Value → m String
  /-- Whether predicates select an element at its index. -/
  selects : List Expr → Value → Nat → m Bool

variable {m : Type → Type} [Monad m]

/-- The ways below the step, if it leads anywhere. -/
def through (next : Value → m (List (List Step))) (v : Value) (s : Step) :
    m (List (List Step)) :=
  match v.child? s with
  | some child => return (← next child).map (s :: ·)
  | none => return []

/-- The ways below each of the given children. -/
def throughEach (next : Value → m (List (List Step))) :
    List (Step × Value) → m (List (List Step))
  | [] => return []
  | (s, v) :: rest => do
    let here ← next v
    let others ← throughEach next rest
    return here.map (s :: ·) ++ others

mutual

/-- The ways that go on one level or more below the value. -/
def throughBelow (next : Value → m (List (List Step))) : Value → m (List (List Step))
  | .array items => throughBelowItems next 0 items
  | .object fields => throughBelowFields next fields
  | _ => return []

def throughBelowItems (next : Value → m (List (List Step))) :
    Nat → List Value → m (List (List Step))
  | _, [] => return []
  | i, v :: rest => do
    let here ← next v
    let deeper ← throughBelow next v
    let others ← throughBelowItems next (i + 1) rest
    return (here ++ deeper).map (.index i :: ·) ++ others

def throughBelowFields (next : Value → m (List (List Step))) :
    List (String × Value) → m (List (List Step))
  | [] => return []
  | (key, v) :: rest => do
    let here ← next v
    let deeper ← throughBelow next v
    let others ← throughBelowFields next rest
    return (here ++ deeper).map (.key key :: ·) ++ others

end

mutual

/-- The ways that go on at the value or at any level below it. -/
def throughDepth (next : Value → m (List (List Step))) : Value → m (List (List Step))
  | .array items => do
    let here ← next (.array items)
    let deeper ← throughDepthItems next 0 items
    return here ++ deeper
  | .object fields => do
    let here ← next (.object fields)
    let deeper ← throughDepthFields next fields
    return here ++ deeper
  | v => next v

def throughDepthItems (next : Value → m (List (List Step))) :
    Nat → List Value → m (List (List Step))
  | _, [] => return []
  | i, v :: rest => do
    let here ← throughDepth next v
    let others ← throughDepthItems next (i + 1) rest
    return here.map (.index i :: ·) ++ others

def throughDepthFields (next : Value → m (List (List Step))) :
    List (String × Value) → m (List (List Step))
  | [] => return []
  | (key, v) :: rest => do
    let here ← throughDepth next v
    let others ← throughDepthFields next rest
    return here.map (.key key :: ·) ++ others

end

/-! ## Wildcards of several levels -/

section Children

variable {next : Value → m (List (List Step))}

theorem throughDepthItems_eq (items : List Value) (i : Nat) : throughDepthItems next i items =
    throughEach (throughDepth next) (items.mapIdx fun k v => (.index (i + k), v)) := by
  induction items generalizing i with
  | nil => rfl
  | cons v rest ih =>
    simp only [throughDepthItems, throughEach, List.mapIdx_cons, ih, Nat.add_zero, Nat.add_assoc,
      Nat.add_comm 1]

theorem throughDepthFields_eq (fields : List (String × Value)) : throughDepthFields next fields =
    throughEach (throughDepth next) (fields.map fun field => (.key field.1, field.2)) := by
  induction fields with
  | nil => rfl
  | cons field rest ih =>
    obtain ⟨key, v⟩ := field
    simp only [throughDepthFields, throughEach, List.map_cons, ih]

/-- At a value and below it, the search goes on there and then in the same way at each child. -/
theorem throughDepth_eq [LawfulMonad m] (v : Value) : throughDepth next v =
    (do return (← next v) ++ (← throughEach (throughDepth next) v.children)) := by
  cases v with
  | array items =>
    simp only [throughDepth, throughDepthItems_eq, Value.children, Nat.zero_add]
  | object fields => simp only [throughDepth, throughDepthFields_eq, Value.children]
  | _ => simp [throughDepth, Value.children, throughEach]

mutual

/-- What goes on one level below or more goes on at any depth below each child. -/
theorem throughBelow_eq_throughEach [LawfulMonad m] : ∀ v : Value,
    throughBelow next v = throughEach (throughDepth next) v.children
  | .array items => by
    simp only [throughBelow, throughBelowItems_eq, Value.children, Nat.zero_add]
  | .object fields => throughBelowFields_eq fields
  | .empty | .null | .bool _ | .number _ | .text _ | .bytes _ | .fault _ | .address _ | .stream _
  | .lambda _ => rfl

theorem throughBelowItems_eq [LawfulMonad m] : ∀ (items : List Value) (i : Nat),
    throughBelowItems next i items =
      throughEach (throughDepth next) (items.mapIdx fun k v => (.index (i + k), v))
  | [], _ => rfl
  | v :: rest, i => by
    have others := throughBelowItems_eq rest (i + 1)
    simp only [throughBelowItems, throughBelow_eq_throughEach v, others, List.mapIdx_cons,
      throughEach, throughDepth_eq v, bind_assoc, pure_bind, Nat.add_zero, Nat.add_assoc,
      Nat.add_comm 1]

theorem throughBelowFields_eq [LawfulMonad m] : ∀ fields : List (String × Value),
    throughBelowFields next fields =
      throughEach (throughDepth next) (fields.map fun field => (.key field.1, field.2))
  | [] => rfl
  | (key, v) :: rest => by
    have others := throughBelowFields_eq rest
    simp only [throughBelowFields, throughBelow_eq_throughEach v, others, List.map_cons,
      throughEach, throughDepth_eq v, bind_assoc, pure_bind]

end

end Children

/-- The ways below the elements that are selected. -/
def throughSelected (selects : Value → Nat → m Bool) (next : Value → m (List (List Step))) :
    Nat → List Value → m (List (List Step))
  | _, [] => return []
  | i, v :: rest => do
    let here ← if ← selects v i then next v else pure []
    let others ← throughSelected selects next (i + 1) rest
    return here.map (.index i :: ·) ++ others

/-- The ways that a pattern spells out from a value on, in the order of the search. -/
def matchAt (probe : Probe m) : List PatternPart → Value → m (List (List Step))
  | [], _ => return [[]]
  | .key name :: rest, v => through (matchAt probe rest) v (.key name)
  | .computed expr :: rest, v => do
    let name ← probe.key expr v
    through (matchAt probe rest) v (.key name)
  | .any :: rest, v => throughEach (matchAt probe rest) v.children
  | .anyBelow :: rest, v => throughBelow (matchAt probe rest) v
  | .anyDepth :: rest, v => throughDepth (matchAt probe rest) v
  | .filter predicates :: rest, v =>
    match v with
    | .array items => throughSelected (probe.selects predicates) (matchAt probe rest) 0 items
    | _ => return []

/-- The addresses that a pattern selects, each once and linked to the tree. -/
def find (probe : Probe m) (parts : List PatternPart) (root : Value) : m (List Address) := do
  let found ← matchAt probe parts root
  return found.eraseDups.map fun steps => .linkedTo steps root

end TreeQuery.Pattern
