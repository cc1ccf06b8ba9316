import TreeQuery.Proofs.Frames.Balance
import TreeQuery.Proofs.Tree

/-!
# Cursors that address the current value

The cursor and the current value are found separately on the walk outwards, and a frame may set
either of them alone. Seen from a frame, they are in step if resolving the cursor in its tree gives
the current value (`Chain.Addressed`). The one thing that puts them out of step is a round of a loop
over something else than an array: it shows its item, and has no cursor (`Chain.Stray`). Chains in
such a round go on from the cursor that is seen there (`Chain.Astray`), until a step starts a tree of
its own.

A chain is level if the two are in step wherever the cursor does not come from such a round
(`Chain.Level`). A new frame on top leaves it level if it shows what is seen around it or has a
cursor of its own for what it shows, and whatever leaves frames the same leaves it level below them.
-/

set_option autoImplicit false

namespace TreeQuery

/-! ## Addresses one step deeper -/

namespace Value

theorem resolve_concat (v : Value) (steps : List Step) (s : Step) :
    v.resolve (steps ++ [s]) = ((v.resolve steps).child? s).getD .empty := by
  rw [resolve, walk?_append, resolve]
  cases v.walk? steps with
  | none => rfl
  | some u =>
      simp only [Option.bind_some, walk?, Option.getD_some]
      cases u.child? s <;> rfl

theorem memberOf_object {v : Value} (object : v.isObject = true) (key : String) :
    v.memberOf key = (v.child? (.key key)).getD .empty := by
  cases v with
  | object fields => rw [memberOf, child?]
  | _ => cases object

theorem element?_array {v : Value} (array : v.isArray = true) (position : Nat) :
    v.element? position = v.child? (.index position) := by
  cases v with
  | array items => rfl
  | _ => cases array

end Value

namespace Address

/-- Resolved in its tree, if it has one, the address gives the value. -/
def LeadsTo (a : Address) (v : Value) : Prop :=
  ∀ root, a.root? = some root → root.resolve a.steps = v

/-- The address is another one, or goes on from there in the same tree. -/
def GoesOnFrom (a b : Address) : Prop :=
  a.link = b.link ∧ b.steps <+: a.steps

theorem GoesOnFrom.refl (a : Address) : a.GoesOnFrom a :=
  ⟨rfl, List.prefix_rfl⟩

theorem GoesOnFrom.trans {a b c : Address} (first : a.GoesOnFrom b) (second : b.GoesOnFrom c) :
    a.GoesOnFrom c :=
  ⟨first.1.trans second.1, second.2.trans first.2⟩

theorem goesOnFrom_child (a : Address) (s : Step) : (a.child s).GoesOnFrom a :=
  ⟨rfl, List.prefix_append ..⟩

theorem root?_linkedTo {steps : List Step} {v root : Value}
    (linked : (Address.linkedTo steps v).root? = some root) : root = v := by
  simp only [Address.linkedTo, Address.root?] at linked
  split at linked
  · rename_i shape
    split at shape
    · cases shape
      cases linked
      rfl
    · cases shape
  · cases linked

/-- The root of a tree of its own. -/
theorem leadsTo_linkedTo (v : Value) : (Address.linkedTo [] v).LeadsTo v := by
  intro root linked
  cases root?_linkedTo linked
  rfl

theorem LeadsTo.child {a : Address} {v : Value} (leads : a.LeadsTo v) (s : Step) :
    (a.child s).LeadsTo ((v.child? s).getD .empty) := by
  intro root linked
  rw [Address.child, Value.resolve_concat, leads root linked]

end Address

/-- A step of a chain starts a tree of its own, or goes on from the cursor to a child. -/
theorem Evaluation.cursorAfter_eq {step : Expr} {cursor : Option Address} {before result : Value}
    (member : ∀ key, step = .member key → result = before.memberOf key)
    (element : ∀ position, step = .element position →
      result = (before.element? position).getD .empty) :
    cursorAfter step cursor before result = .linkedTo [] result ∨
      ∃ a s, cursor = some a ∧ cursorAfter step cursor before result = a.child s ∧
        result = (before.child? s).getD .empty := by
  unfold cursorAfter
  split
  · rename_i key a
    split
    · rename_i object
      exact .inr ⟨a, _, rfl, rfl, (member key rfl).trans (Value.memberOf_object object key)⟩
    · exact .inl rfl
  · rename_i position a
    split
    · rename_i array
      refine .inr ⟨a, _, rfl, rfl, ?_⟩
      rw [element position rfl, Value.element?_array array]
    · exact .inl rfl
  · exact .inl rfl

/-! ## Cursor and current value -/

namespace Chain

variable {c d : Chain} {i p n : Nat} {f : Frame}

/-- The cursor seen from a frame, resolved in its tree, gives the current value. -/
def Addressed (c : Chain) (i : Nat) : Prop :=
  ∀ a, c.cursor? i = some a → a.LeadsTo (c.current i).value

/-- A round without a cursor that shows something else than is seen around the loop. -/
def Stray (c : Chain) (j : Nat) : Prop :=
  ∃ f p, c.frame? j = some f ∧ f.kind = .loop ∧ f.cursor = none ∧ f.parent = some p ∧
    (c.current j).value ≠ (c.current p).value

/-- The cursor seen from a frame goes on from the one that is seen from a stray round around it. -/
def Astray (c : Chain) (i : Nat) : Prop :=
  ∃ j ∈ c.ancestors i, c.Stray j ∧ ∃ a b, c.cursor? i = some a ∧ c.cursor? j = some b ∧
    a.GoesOnFrom b

/-- Wherever the cursor does not come from a stray round, it addresses the current value. -/
def Level (c : Chain) : Prop :=
  ∀ i, i < c.size → ¬ c.Astray i → c.Addressed i

/-- A cursor of its own that leads to the value of the frame. -/
theorem Addressed.of_own (nested : c.Nested) (found : c.frame? i = some f) {a : Address}
    {v : Evaluated} (cursor : f.cursor = some a)
    (value : Assoc.get? f.values currentName = some v) (leads : a.LeadsTo v.value) :
    c.Addressed i := by
  intro b seen
  cases (cursor?_own nested found cursor).symm.trans seen
  rw [current_own nested found value]
  exact leads

/-- Without a cursor of its own, a frame that shows the value around it is as well off as the frame
around it. -/
theorem Addressed.inherited (nested : c.Nested) (found : c.frame? i = some f)
    (absent : f.cursor = none) (parent : f.parent = some p)
    (same : (c.current i).value = (c.current p).value) (around : c.Addressed p) :
    c.Addressed i := by
  intro a seen
  rw [cursor?_parent nested found absent parent] at seen
  rw [same]
  exact around a seen

theorem Astray.inherited (nested : c.Nested) (found : c.frame? i = some f)
    (absent : f.cursor = none) (parent : f.parent = some p) (astray : c.Astray p) :
    c.Astray i := by
  rw [Astray, cursor?_parent nested found absent parent]
  obtain ⟨j, member, stray⟩ := astray
  exact ⟨j, ancestors_parent nested found parent member, stray⟩

/-! ## Frames that show the same -/

/-- The frames below a position have the same kind, place, values and cursor in two chains. -/
structure SameBelow (n : Nat) (c d : Chain) : Prop where
  nested : c.Nested
  nestedToo : d.Nested
  frame : ∀ j, j < n → ∃ f g, c.frame? j = some f ∧ d.frame? j = some g ∧ g.kind = f.kind ∧
    g.parent = f.parent ∧ g.values = f.values ∧ g.cursor = f.cursor

namespace SameBelow

variable {j : Nat} (same : SameBelow n c d) (below : j < n)

include same below

theorem live : j < c.size ∧ j < d.size := by
  obtain ⟨f, g, found, foundToo, -⟩ := same.frame j below
  exact ⟨lt_size_of_frame? found, lt_size_of_frame? foundToo⟩

theorem ancestors : d.ancestors j = c.ancestors j := by
  obtain ⟨live, liveToo⟩ := same.live below
  refine ancestors_congr same.nestedToo same.nested liveToo live fun k le => ?_
  obtain ⟨f, g, found, foundToo, -, parent, -⟩ := same.frame k (by omega)
  rw [parent?_of_frame? found, parent?_of_frame? foundToo, parent]

theorem search {α : Type} {find : Nat → Frame → Option α}
    (reads : ∀ k f g, g.values = f.values → g.cursor = f.cursor → find k g = find k f) :
    d.search j find = c.search j find := by
  refine search_congr (same.ancestors below) fun k member => ?_
  have le := le_of_mem_ancestors same.nested member
  obtain ⟨f, g, found, foundToo, -, -, values, cursor⟩ := same.frame k (by omega)
  rw [found, foundToo]
  exact reads k f g values cursor

theorem current : d.current j = c.current j := by
  have lookup : d.lookup? j currentName = c.lookup? j currentName :=
    same.search below fun _ _ _ values _ => by rw [values]
  rw [Chain.current, lookup, Chain.current]

theorem cursor? : d.cursor? j = c.cursor? j :=
  same.search below fun _ _ _ _ cursor => cursor

theorem addressed (addressed : c.Addressed j) : d.Addressed j := by
  rw [Addressed, same.cursor? below, same.current below]
  exact addressed

theorem stray (stray : c.Stray j) : d.Stray j := by
  obtain ⟨f, p, found, kind, absent, parent, apart⟩ := stray
  have around : p < j := same.nested.parent_lt found parent
  obtain ⟨f', g, found', foundToo, kinds, parents, -, cursors⟩ := same.frame j below
  cases found.symm.trans found'
  refine ⟨g, p, foundToo, kinds.trans kind, cursors.trans absent, parents.trans parent, ?_⟩
  rw [same.current below, same.current (by omega)]
  exact apart

theorem astray (astray : c.Astray j) : d.Astray j := by
  obtain ⟨k, member, stray, onwards⟩ := astray
  have le := le_of_mem_ancestors same.nested member
  refine ⟨k, ?_, same.stray (by omega) stray, ?_⟩
  · rw [same.ancestors below]
    exact member
  · rw [same.cursor? below, same.cursor? (by omega)]
    exact onwards

end SameBelow

/-- A chain is level if it is so at the frames that do not show the same in a level chain. -/
theorem Level.of_below (level : c.Level) (same : SameBelow n c d)
    (above : ∀ j, n ≤ j → j < d.size → ¬ d.Astray j → d.Addressed j) : d.Level := by
  intro j live straight
  by_cases below : j < n
  · exact same.addressed below
      (level j (same.live below).1 fun astray => straight (same.astray below astray))
  · exact above j (Nat.le_of_not_lt below) live straight

/-- A frame on top, other than that of a round, may change its value together with its cursor, if
the cursor goes on from the one before or leads to the value anyway. -/
theorem Level.moved {g : Frame} (level : c.Level) (same : SameBelow i c d) (top : d.size = i + 1)
    (found : c.frame? i = some f) (foundToo : d.frame? i = some g) (parents : g.parent = f.parent)
    (kind : f.kind ≠ .loop) {a : Address} (cursor : d.cursor? i = some a)
    (addressed : c.Addressed i → d.Addressed i)
    (onwards : ∀ b, c.cursor? i = some b → d.Addressed i ∨ a.GoesOnFrom b) : d.Level := by
  refine level.of_below same fun j above inside straight => ?_
  obtain rfl : j = i := by omega
  by_cases astray : c.Astray j
  · obtain ⟨k, member, stray, b, start, here, there, descends⟩ := astray
    refine (onwards b here).resolve_right fun further => straight ?_
    -- The stray round is not this frame, so it is around it, where the chains are the same.
    rw [ancestors_cons same.nested found] at member
    rcases List.mem_cons.mp member with rfl | outer
    · obtain ⟨f', _, found', loop, -⟩ := stray
      cases found.symm.trans found'
      exact absurd loop kind
    · cases isParent : f.parent with
      | none =>
          rw [isParent] at outer
          cases outer
      | some p =>
          rw [isParent] at outer
          have around : p < j := same.nested.parent_lt found isParent
          have le := le_of_mem_ancestors same.nested outer
          refine ⟨k, ?_, same.stray (by omega) stray, a, start, cursor, ?_,
            further.trans descends⟩
          · refine ancestors_parent same.nestedToo foundToo (parents.trans isParent) ?_
            rw [same.ancestors around]
            exact outer
          · rw [same.cursor? (by omega)]
            exact there
  · exact addressed (level j (lt_size_of_frame? found) astray)

theorem SameBelow.of_eq (nested : c.Nested) (nestedToo : d.Nested) (live : n ≤ c.size)
    (eq : ∀ j, j < n → d.frame? j = c.frame? j) : SameBelow n c d := by
  refine ⟨nested, nestedToo, fun j below => ?_⟩
  obtain ⟨f, found⟩ := exists_frame? (show j < c.size by omega)
  exact ⟨f, f, found, (eq j below).trans found, rfl, rfl, rfl, rfl⟩

end Chain

/-! ## Machines -/

variable {i : Nat} {m m' : Machine}

theorem Balanced.sameBelow (balanced : Balanced i m m') (nested : m.chain.Nested) :
    Chain.SameBelow m.chain.size m.chain m'.chain := by
  refine ⟨nested, balanced.nested, fun j below => ?_⟩
  obtain ⟨f, found⟩ := Chain.exists_frame? below
  obtain ⟨g, foundToo, undisturbed⟩ := balanced.frame j f found
  exact ⟨f, g, found, foundToo, undisturbed.kind, undisturbed.parent, undisturbed.values,
    undisturbed.cursor⟩

/-- An evaluation leaves the chain level. -/
theorem Balanced.level (balanced : Balanced i m m') (nested : m.chain.Nested)
    (level : m.chain.Level) : m'.chain.Level := by
  refine level.of_below (balanced.sameBelow nested) fun j above inside => ?_
  rw [balanced.size] at inside
  omega

namespace Grown

variable {f : Frame} (grown : Grown i m m') (nested : m.chain.Nested) (live : i < m.chain.size)
  (before : m.chain.Level)

include grown nested live

theorem sameBelow : Chain.SameBelow m.chain.size m.chain m'.chain :=
  .of_eq nested (grown.nested nested live) (Nat.le_refl _) grown.below

include before

/-- A new frame leaves the chain level if it is in order itself. -/
theorem level (top : ¬ m'.chain.Astray m.chain.size → m'.chain.Addressed m.chain.size) :
    m'.chain.Level := by
  refine before.of_below (grown.sameBelow nested live) fun j above inside straight => ?_
  have size := grown.size
  obtain rfl : j = m.chain.size := by omega
  exact top straight

/-- A new frame without a cursor leaves the chain level if it shows what is seen around it, or
belongs to a round of a loop. -/
theorem level_inherited (found : m'.chain.frame? m.chain.size = some f) (absent : f.cursor = none)
    (shown : f.kind ≠ .loop →
      (m'.chain.current m.chain.size).value = (m.chain.current i).value) :
    m'.chain.Level := by
  have same := grown.sameBelow nested live
  have above := grown.nested nested live
  have parent : f.parent = some i := by
    rw [← Chain.parent?_of_frame? found]
    exact grown.parent
  refine grown.level nested live before fun straight => ?_
  have outside : ¬ m.chain.Astray i := fun astray =>
    straight (.inherited above found absent parent (same.astray live astray))
  have around : m'.chain.Addressed i := same.addressed live (before i live outside)
  by_cases apart : (m'.chain.current m.chain.size).value = (m'.chain.current i).value
  · exact .inherited above found absent parent apart around
  · -- A frame that shows something else belongs to a round, which is stray if it has a cursor.
    intro a seen
    have loop : f.kind = .loop := by
      by_contra other
      refine apart ?_
      rw [same.current live]
      exact shown other
    have top : m.chain.size < m'.chain.size := Chain.lt_size_of_frame? found
    exact absurd ⟨_, Chain.mem_ancestors_self top, ⟨f, i, found, loop, absent, parent, apart⟩, a, a,
      seen, seen, .refl a⟩ straight

end Grown

end TreeQuery
