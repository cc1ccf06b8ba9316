import TreeQuery.Value.Navigation

/-!
# Parts of a tree

`retain` keeps what a set of addresses reaches and `reclude` what it does not reach; `merge` lays
one part over the other. Array elements never move: what is taken out leaves an empty slot. A
container from which everything was taken goes with its content, except at the root.

The addresses are gathered in a prefix tree first, which is then followed along the value.
-/

set_option autoImplicit false

namespace TreeQuery

/-- A prefix tree over ways down: whether a way ends here, and how ways go on. -/
inductive Trie where
  | node (terminal : Bool) (children : List (Step × Trie))

namespace Trie

def empty : Trie :=
  .node false []

def terminal : Trie → Bool
  | .node terminal _ => terminal

def children : Trie → Assoc Step Trie
  | .node _ children => children

/-- How the ways go on after a step, if any of them starts with it. -/
def child? (t : Trie) (s : Step) : Option Trie :=
  Assoc.get? t.children s

def insert : Trie → List Step → Trie
  | .node _ children, [] => .node true children
  | .node terminal children, s :: rest =>
    .node terminal (Assoc.insert children s (((Assoc.get? children s).getD empty).insert rest))

def build (ways : List (List Step)) : Trie :=
  ways.foldl insert empty

end Trie

namespace Value

/-- An array with empty slots for what was dropped; none if everything was. -/
def holed (slots : List (Option Value)) : Option Value :=
  if slots.all Option.isNone then none else some (.array (slots.map (·.getD .empty)))

/-- An object; none if it has no members left. -/
def populated (fields : List (String × Value)) : Option Value :=
  if fields.isEmpty then none else some (.object fields)

def emptyLike : Value → Value
  | .array _ => .array []
  | .object _ => .object []
  | _ => .empty

mutual

/-- What a prefix tree reaches; none if that is nothing. -/
def retainAlong : Value → Trie → Option Value
  | .object fields, t =>
    if t.terminal then some (.object fields) else populated (retainFieldsAlong fields t)
  | .array items, t =>
    if t.terminal then some (.array items) else holed (retainItemsAlong 0 items t)
  | v, t => if t.terminal then some v else none

def retainItemsAlong : Nat → List Value → Trie → List (Option Value)
  | _, [], _ => []
  | i, v :: rest, t =>
    (match t.child? (.index i) with
      | some sub => retainAlong v sub
      | none => none) :: retainItemsAlong (i + 1) rest t

def retainFieldsAlong : List (String × Value) → Trie → List (String × Value)
  | [], _ => []
  | (key, v) :: rest, t =>
    match t.child? (.key key) with
    | some sub => match retainAlong v sub with
      | some kept => (key, kept) :: retainFieldsAlong rest t
      | none => retainFieldsAlong rest t
    | none => retainFieldsAlong rest t

end

mutual

/-- What a prefix tree does not reach; none if a way ends here or everything was taken out. -/
def recludeAlong : Value → Trie → Option Value
  | .object fields, t =>
    if t.terminal then none
    else if t.children.isEmpty then some (.object fields)
    else populated (recludeFieldsAlong fields t)
  | .array items, t =>
    if t.terminal then none
    else if t.children.isEmpty then some (.array items)
    else holed (recludeItemsAlong 0 items t)
  | v, t => if t.terminal then none else some v

def recludeItemsAlong : Nat → List Value → Trie → List (Option Value)
  | _, [], _ => []
  | i, v :: rest, t =>
    (match t.child? (.index i) with
      | some sub => recludeAlong v sub
      | none => some v) :: recludeItemsAlong (i + 1) rest t

def recludeFieldsAlong : List (String × Value) → Trie → List (String × Value)
  | [], _ => []
  | (key, v) :: rest, t =>
    match t.child? (.key key) with
    | some sub => match recludeAlong v sub with
      | some kept => (key, kept) :: recludeFieldsAlong rest t
      | none => recludeFieldsAlong rest t
    | none => (key, v) :: recludeFieldsAlong rest t

end

/-- What the ways reach, each at its place. -/
def retain (v : Value) (ways : List (List Step)) : Value :=
  (retainAlong v (.build ways)).getD (emptyLike v)

/-- What the ways do not reach, each at its place. -/
def reclude (v : Value) (ways : List (List Step)) : Value :=
  (recludeAlong v (.build ways)).getD (emptyLike v)

mutual

/-- Lays two parts of one tree over each other: members by key, elements by position, the other
side where one is empty. Where both hold something that is not a container, the first wins. -/
def merge : Value → Value → Value
  | .empty, other => other
  | .object fields, other => match other with
    | .object others =>
      .object (mergeFields fields others ++ others.filter fun o => !Assoc.contains fields o.1)
    | _ => .object fields
  | .array items, other => match other with
    | .array others => .array (mergeItems items others)
    | _ => .array items
  | v, _ => v
termination_by structural v => v

def mergeItems : List Value → List Value → List Value
  | [], others => others
  | items, [] => items
  | v :: rest, w :: others => merge v w :: mergeItems rest others
termination_by structural items => items

def mergeFields : List (String × Value) → List (String × Value) → List (String × Value)
  | [], _ => []
  | (key, v) :: rest, others =>
    (key, match Assoc.get? others key with
      | some w => merge v w
      | none => v) :: mergeFields rest others
termination_by structural fields => fields

end

end Value

end TreeQuery
