import Mathlib.Logic.Relation
import TreeQuery.Proofs.Tree

/-!
# Members over nested arrays

Asking an array for a member passes the question on to its elements, and through arrays in arrays.
What comes back is as if all arrays around the objects had been one: the elements that are not
arrays give what their member holds, one after the other (`membersOf_eq_flatMap`). A member that is
an array is itself opened once, and what stands in it is left as it is.

So brackets around elements do not matter. `Rebracketed` puts them in and takes them out anywhere,
and it relates exactly the lists with the same elements that are not arrays (`rebracketed_iff`).
-/

set_option autoImplicit false

namespace TreeQuery.Value

/-! ## Through the arrays -/

mutual

/-- What stands in a value through arrays in arrays; a value that is no array stands for itself. -/
def spread : Value → List Value
  | .array items => spreadItems items
  | v => [v]

/-- The elements that are not arrays, through arrays in arrays, from the first to the last. -/
def spreadItems : List Value → List Value
  | [] => []
  | v :: rest => spread v ++ spreadItems rest

end

/-- What an object holds under a key: the elements of an array, any other value by itself, and nothing
where there is no member or an empty one. Other values hold nothing. -/
def heldUnder (key : String) : Value → List Value
  | .object fields => match Assoc.get? fields key with
    | none | some .empty => []
    | some (.array items) => items
    | some v => [v]
  | _ => []

theorem spreadItems_append (items others : List Value) :
    spreadItems (items ++ others) = spreadItems items ++ spreadItems others := by
  induction items with
  | nil => rfl
  | cons v rest ih => rw [List.cons_append, spreadItems, spreadItems, ih, List.append_assoc]

theorem membersOf_append (key : String) (items others : List Value) :
    membersOf key (items ++ others) = membersOf key items ++ membersOf key others := by
  induction items with
  | nil => rfl
  | cons v rest ih => rw [List.cons_append, membersOf, membersOf, ih, List.append_assoc]

/-- What holds of each element by itself holds of all of them. -/
theorem membersOf_of_each {key : String} {items : List Value}
    (each : ∀ v ∈ items, membersOf key [v] = (spread v).flatMap (heldUnder key)) :
    membersOf key items = (spreadItems items).flatMap (heldUnder key) := by
  induction items with
  | nil => rfl
  | cons v rest ih =>
      have first := each v (List.mem_cons_self ..)
      have others := ih fun w among => each w (List.mem_cons_of_mem _ among)
      rw [spreadItems, List.flatMap_append, ← first, ← others, ← membersOf_append,
        List.singleton_append]

theorem membersOf_singleton (key : String) (v : Value) :
    membersOf key [v] = (spread v).flatMap (heldUnder key) := by
  induction v using treeInduction with
  | leaf v plain =>
      cases v with
      | array _ | object _ => cases plain
      | _ => rfl
  | object fields _ =>
      have itself : spread (.object fields) = [.object fields] := rfl
      rw [itself, List.flatMap_singleton]
      simp only [membersOf, memberOf, heldUnder, List.append_nil]
      rcases Assoc.get? fields key with _ | _ | _ <;> rfl
  | array items ih =>
      -- The answer of the array is an array again, and is opened to what it was made of.
      have opened : membersOf key [.array items] = membersOf key items := by
        rw [membersOf, memberOf, membersOf, List.append_nil]
      rw [opened, spread, membersOf_of_each ih]

/-- **The members are held by the elements that are not arrays**, one after the other. -/
theorem membersOf_eq_flatMap (key : String) (items : List Value) :
    membersOf key items = (spreadItems items).flatMap (heldUnder key) :=
  membersOf_of_each fun v _ => membersOf_singleton key v

/-! ## Brackets -/

/-- Brackets put around some elements that stand next to each other, also inside other brackets. -/
inductive Bracketed : List Value → List Value → Prop
  | around (before items after : List Value) :
      Bracketed (before ++ items ++ after) (before ++ .array items :: after)
  | inside {items others : List Value} (before after : List Value)
      (bracketed : Bracketed items others) :
      Bracketed (before ++ .array items :: after) (before ++ .array others :: after)

/-- Brackets put in and taken out. -/
def Rebracketed : List Value → List Value → Prop :=
  Relation.EqvGen Bracketed

theorem Bracketed.spreadItems_eq {items others : List Value} (bracketed : Bracketed items others) :
    spreadItems items = spreadItems others := by
  induction bracketed with
  | around before items after =>
      rw [spreadItems_append, spreadItems_append, spreadItems_append, spreadItems, spread,
        List.append_assoc]
  | inside before after _ ih =>
      rw [spreadItems_append, spreadItems_append, spreadItems, spreadItems, spread, spread, ih]

theorem Bracketed.between {items others : List Value} (bracketed : Bracketed items others)
    (before after : List Value) :
    Bracketed (before ++ items ++ after) (before ++ others ++ after) := by
  cases bracketed with
  | around first items last =>
      have step := Bracketed.around (before ++ first) items (last ++ after)
      simpa only [List.append_assoc, List.cons_append] using step
  | inside first last bracketed =>
      have step := Bracketed.inside (before ++ first) (last ++ after) bracketed
      simpa only [List.append_assoc, List.cons_append] using step

namespace Rebracketed

variable {items others : List Value}

theorem spreadItems_eq (rebracketed : Rebracketed items others) :
    spreadItems items = spreadItems others := by
  induction rebracketed with
  | rel _ _ bracketed => exact bracketed.spreadItems_eq
  | refl _ => rfl
  | symm _ _ _ ih => exact ih.symm
  | trans _ _ _ _ _ first second => exact first.trans second

theorem between (rebracketed : Rebracketed items others) (before after : List Value) :
    Rebracketed (before ++ items ++ after) (before ++ others ++ after) := by
  induction rebracketed with
  | rel _ _ bracketed => exact .rel _ _ (bracketed.between before after)
  | refl _ => exact .refl _
  | symm _ _ _ ih => exact .symm _ _ ih
  | trans _ _ _ _ _ first second => exact .trans _ _ _ first second

theorem append {items' others' : List Value} (first : Rebracketed items items')
    (second : Rebracketed others others') : Rebracketed (items ++ others) (items' ++ others') := by
  have left := first.between [] others
  have right := second.between items' []
  simp only [List.nil_append, List.append_nil] at left right
  exact .trans _ _ _ left right

theorem of_each {items : List Value} (each : ∀ v ∈ items, Rebracketed [v] v.spread) :
    Rebracketed items (spreadItems items) := by
  induction items with
  | nil => exact .refl _
  | cons v rest ih =>
      have first := each v (List.mem_cons_self ..)
      exact first.append (ih fun w among => each w (List.mem_cons_of_mem _ among))

/-- All brackets around an element can be taken off. -/
theorem spread (v : Value) : Rebracketed [v] v.spread := by
  induction v using treeInduction with
  | leaf v plain =>
      cases v with
      | array _ | object _ => cases plain
      | _ => exact .refl _
  | object fields _ => exact .refl _
  | array items ih =>
      have bracketed := Bracketed.around [] items []
      rw [List.nil_append, List.append_nil, List.nil_append] at bracketed
      rw [Value.spread]
      exact .trans _ _ _ (.symm _ _ (.rel _ _ bracketed)) (of_each ih)

theorem spreadItems (items : List Value) : Rebracketed items (spreadItems items) :=
  of_each fun v _ => spread v

end Rebracketed

/-- Lists differ by brackets if and only if the same elements that are not arrays stand in them. -/
theorem rebracketed_iff {items others : List Value} :
    Rebracketed items others ↔ spreadItems items = spreadItems others := by
  refine ⟨Rebracketed.spreadItems_eq, fun same => ?_⟩
  have taken := Rebracketed.spreadItems items
  rw [same] at taken
  exact .trans _ _ _ taken (.symm _ _ (Rebracketed.spreadItems others))

/-! ## Members -/

/-- **Nesting of arrays does not matter to their members.** An array answers with what its elements
that are not arrays hold, through arrays in arrays; arrays one after the other answer with their
answers one after the other; and brackets put in or taken out anywhere change nothing. -/
theorem memberOf_array (key : String) (items : List Value) :
    memberOf key (.array items) = .array ((spreadItems items).flatMap (heldUnder key)) ∧
      (∀ others, ∃ left right, memberOf key (.array items) = .array left ∧
        memberOf key (.array others) = .array right ∧
        memberOf key (.array (items ++ others)) = .array (left ++ right)) ∧
      ∀ others, Rebracketed items others →
        memberOf key (.array others) = memberOf key (.array items) := by
  have answer : ∀ items : List Value,
      memberOf key (.array items) = .array ((spreadItems items).flatMap (heldUnder key)) := by
    intro items
    rw [memberOf, membersOf_eq_flatMap]
  refine ⟨answer items, fun others => ?_, fun others rebracketed => ?_⟩
  · refine ⟨_, _, answer items, answer others, ?_⟩
    rw [answer, spreadItems_append, List.flatMap_append]
  · rw [answer, answer, rebracketed.spreadItems_eq]

/-- An array as a member is opened once; a missing member, an empty one and a text hold nothing. -/
theorem memberOf_array_nested :
    let holding : List (String × Value) → Value := .object
    let items : List Value := [.array [holding [("n", .array [.null, .array [.text "a"]])],
      .array [holding [("m", .null)], .text "n"]], holding [("n", .empty)], holding [("n", .text "b")]]
    let others : List Value := [holding [("n", .array [.null, .array [.text "a"]])],
      .array [holding [("m", .null)], .text "n"], .array [holding [("n", .empty)],
        .array [holding [("n", .text "b")]]], .array []]
    Rebracketed items others ∧
      memberOf "n" (.array others) = .array [.null, .array [.text "a"], .text "b"] := by
  intro holding items others
  have same : Rebracketed items others := rebracketed_iff.mpr rfl
  have members := memberOf_array "n" items
  exact ⟨same, (members.2.2 others same).trans members.1⟩

end TreeQuery.Value
