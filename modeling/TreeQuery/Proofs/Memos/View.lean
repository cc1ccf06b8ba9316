import TreeQuery.Proofs.Frames.Kept
import TreeQuery.Proofs.Frames.Sound

/-!
# What is in view of a frame

A computation without effects finds out about the machine only what it sees from its frame: the
values, the cursor, the handled flag and the declared let-bindings of that frame and of those it is
nested in, but neither memos nor positions. `Chain.view` is this and no more. Names, the current
value and the cursor are determined by it (`Chain.current_of_view`, `Chain.cursor?_of_view`,
`Chain.resolve?_of_view`), and whatever only shares a frame leaves all views as they are
(`Keeps.view`).
-/

set_option autoImplicit false

namespace TreeQuery

/-- What a frame shows. -/
structure Outline where
  values : Assoc String Evaluated
  cursor : Option Address
  handled : Bool
  declared : Assoc String Binding

def Frame.outline (f : Frame) : Outline :=
  ⟨f.values, f.cursor, f.handled, f.declared⟩

namespace Frame

variable {f f' : Frame}

theorem outline_cursor (same : f.outline = f'.outline) (a : Address) :
    outline { f with cursor := some a } = outline { f' with cursor := some a } := by
  simp only [outline, declared, Outline.mk.injEq] at same ⊢
  exact ⟨same.1, trivial, same.2.2⟩

theorem outline_values (same : f.outline = f'.outline) (name : String) (v : Evaluated) :
    outline { f with values := Assoc.insert f.values name v } =
      outline { f' with values := Assoc.insert f'.values name v } := by
  simp only [outline, declared, Outline.mk.injEq] at same ⊢
  exact ⟨by rw [same.1], same.2⟩

theorem outline_handled (same : f.outline = f'.outline) (flag : Bool) :
    outline { f with handled := flag } = outline { f' with handled := flag } := by
  simp only [outline, declared, Outline.mk.injEq] at same ⊢
  exact ⟨same.1, same.2.1, trivial, same.2.2.2⟩

end Frame

namespace Chain

variable {c d : Chain}

/-- What is seen from a frame, from the inside out. -/
def view (c : Chain) (i : Nat) : List Outline :=
  (c.ancestors i).filterMap fun j => (c.frame? j).map Frame.outline

theorem view_cons (nested : c.Nested) {i : Nat} {f : Frame} (found : c.frame? i = some f) :
    c.view i = f.outline :: match f.parent with
      | some p => c.view p
      | none => [] := by
  rw [view, ancestors_cons nested found, List.filterMap_cons, found]
  cases f.parent <;> rfl

theorem view_ne_nil (nested : c.Nested) {i : Nat} (live : i < c.size) : c.view i ≠ [] := by
  obtain ⟨f, found⟩ := exists_frame? live
  rw [view_cons nested found]
  exact List.cons_ne_nil _ _

/-- Frames that show the same in the same place give the same view. -/
theorem view_congr (nested : c.Nested) (other : d.Nested) {j : Nat} (live : j < c.size)
    (same : ∀ k, k ≤ j → ∀ f, c.frame? k = some f →
      ∃ g, d.frame? k = some g ∧ g.outline = f.outline ∧ g.parent = f.parent) :
    d.view j = c.view j := by
  induction j using Nat.strongRecOn with
  | ind j ih =>
      obtain ⟨f, found⟩ := exists_frame? live
      obtain ⟨g, foundToo, outline, parent⟩ := same j (Nat.le_refl j) f found
      rw [view_cons nested found, view_cons other foundToo, outline, parent]
      cases isParent : f.parent with
      | none => rfl
      | some p =>
          have below : p < j := nested.parent_lt found isParent
          exact congrArg (f.outline :: ·)
            (ih p below (by omega) fun k le => same k (by omega))

theorem view_truncate (nested : c.Nested) {n j : Nat} (below : j < n) (live : j < c.size) :
    (c.truncate n).view j = c.view j := by
  refine view_congr nested (nested.truncate n) live fun k le f found => ⟨f, ?_, rfl, rfl⟩
  rw [frame?_truncate, if_pos (by omega), found]

/-- A change to a frame is seen from there inwards only. -/
theorem view_update_below (nested : c.Nested) {i j : Nat} (below : j < i) (live : j < c.size)
    {change : Frame → Frame} (still : ∀ f, (change f).parent = f.parent) :
    (c.update i change).view j = c.view j := by
  refine view_congr nested (nested.update i still) live fun k le f found => ⟨f, ?_, rfl, rfl⟩
  rw [frame?_update, if_neg (by omega), found]

/-- The view from a frame after a change to it: what the frame shows comes first. -/
theorem view_update_self (nested : c.Nested) {i : Nat} {f : Frame} (found : c.frame? i = some f)
    {change : Frame → Frame} (still : ∀ f, (change f).parent = f.parent) :
    (c.update i change).view i = (change f).outline :: (c.view i).tail := by
  have changed : (c.update i change).frame? i = some (change f) := by
    rw [frame?_update, if_pos rfl, found]
    rfl
  rw [view_cons (nested.update i still) changed, view_cons nested found, still]
  cases isParent : f.parent with
  | none => rfl
  | some p =>
      have below : p < i := nested.parent_lt found isParent
      have live := lt_size_of_frame? found
      exact congrArg ((change f).outline :: ·)
        (view_update_below nested below (by omega) still)

/-! ## Looking around -/

theorem search_of_view {α : Type} (g : Outline → Option α) (c : Chain) (i : Nat) :
    c.search i (fun _ f => g f.outline) = (c.view i).findSome? g := by
  simp only [search, view]
  induction c.ancestors i with
  | nil => rfl
  | cons j rest ih =>
      rw [List.findSome?_cons, List.filterMap_cons]
      cases c.frame? j with
      | none => exact ih
      | some f =>
          simp only [Option.bind_some, Option.map_some, List.findSome?_cons]
          cases g f.outline with
          | none => exact ih
          | some a => rfl

theorem current_of_view {i j : Nat} (same : c.view i = d.view j) : c.current i = d.current j := by
  have lookup : ∀ (c : Chain) (i : Nat), c.lookup? i currentName =
      (c.view i).findSome? fun o => Assoc.get? o.values currentName :=
    search_of_view fun o => Assoc.get? o.values currentName
  rw [current, current, lookup, lookup, same]

theorem cursor?_of_view {i j : Nat} (same : c.view i = d.view j) : c.cursor? i = d.cursor? j := by
  have lookup : ∀ (c : Chain) (i : Nat), c.cursor? i = (c.view i).findSome? Outline.cursor :=
    search_of_view Outline.cursor
  rw [lookup, lookup, same]

theorem isHandled_of_view (nested : c.Nested) (other : d.Nested) {i j : Nat} (live : i < c.size)
    (liveToo : j < d.size) (same : c.view i = d.view j) : c.isHandled i = d.isHandled j := by
  obtain ⟨f, found⟩ := exists_frame? live
  obtain ⟨g, foundToo⟩ := exists_frame? liveToo
  rw [view_cons nested found, view_cons other foundToo] at same
  rw [isHandled, isHandled, found, foundToo]
  exact congrArg Outline.handled (List.cons.inj same).1

/-- What a name stands for is found in the frame or further out. -/
theorem resolve?_cons (nested : c.Nested) {i : Nat} {f : Frame} (found : c.frame? i = some f)
    (name : String) : c.resolve? i name = match Assoc.get? f.values name with
      | some v => some (.value v)
      | none => match Assoc.get? f.declared name with
        | some b => some (.binding i b)
        | none => match f.parent with
          | some p => c.resolve? p name
          | none => none := by
  rw [resolve?, search, ancestors_cons nested found, List.findSome?_cons, found, Option.bind_some,
    Frame.declared, Assoc.get?_mapValues]
  cases Assoc.get? f.values name with
  | some v => rfl
  | none =>
      cases Assoc.get? f.lets name with
      | some slot => rfl
      | none => cases f.parent <;> rfl

/-- What a name stands for in two chains: the same value, or the same let-binding, declared by
frames that see the same. -/
inductive Alongside (c d : Chain) (i j : Nat) (name : String) :
    Option Resolved → Option Resolved → Prop
  | unknown : Alongside c d i j name none none
  | value (v : Evaluated) : Alongside c d i j name (some (.value v)) (some (.value v))
  | binding {o o' : Nat} {b : Binding} (member : o ∈ c.ancestors i) (memberToo : o' ∈ d.ancestors j)
      (declared : ∀ f, c.frame? o = some f → Assoc.get? f.declared name = some b)
      (same : c.view o = d.view o') :
      Alongside c d i j name (some (.binding o b)) (some (.binding o' b))

theorem Alongside.outward {i j p q : Nat} {name : String} {found foundToo : Option Resolved}
    (alongside : Alongside c d p q name found foundToo) (walk : c.ancestors p ⊆ c.ancestors i)
    (walkToo : d.ancestors q ⊆ d.ancestors j) : Alongside c d i j name found foundToo := by
  cases alongside with
  | unknown => exact .unknown
  | value v => exact .value v
  | binding member memberToo declared same =>
      exact .binding (walk member) (walkToo memberToo) declared same

theorem resolve?_of_view (nested : c.Nested) (other : d.Nested) {i j : Nat} (live : i < c.size)
    (liveToo : j < d.size) (same : c.view i = d.view j) (name : String) :
    Alongside c d i j name (c.resolve? i name) (d.resolve? j name) := by
  induction i using Nat.strongRecOn generalizing j with
  | ind i ih =>
      obtain ⟨f, found⟩ := exists_frame? live
      obtain ⟨g, foundToo⟩ := exists_frame? liveToo
      have views := same
      rw [view_cons nested found, view_cons other foundToo] at views
      obtain ⟨outline, further⟩ := List.cons.inj views
      have values : f.values = g.values := congrArg Outline.values outline
      have declared : f.declared = g.declared := congrArg Outline.declared outline
      rw [resolve?_cons nested found, resolve?_cons other foundToo, ← values, ← declared]
      cases Assoc.get? f.values name with
      | some v => exact .value v
      | none =>
          cases isDeclared : Assoc.get? f.declared name with
          | some b =>
              refine .binding (mem_ancestors_self live) (mem_ancestors_self liveToo)
                (fun f' found' => ?_) same
              cases found.symm.trans found'
              exact isDeclared
          | none =>
              cases isParent : f.parent with
              | none =>
                  cases isParentToo : g.parent with
                  | none => exact .unknown
                  | some q =>
                      have below := other.parent_lt foundToo isParentToo
                      rw [isParent, isParentToo] at further
                      exact absurd further.symm (view_ne_nil other (by omega))
              | some p =>
                  have below := nested.parent_lt found isParent
                  cases isParentToo : g.parent with
                  | none =>
                      rw [isParent, isParentToo] at further
                      exact absurd further (view_ne_nil nested (by omega))
                  | some q =>
                      have belowToo := other.parent_lt foundToo isParentToo
                      rw [isParent, isParentToo] at further
                      exact (ih p below (by omega) (by omega) further).outward
                        (ancestors_parent nested found isParent)
                        (ancestors_parent other foundToo isParentToo)

end Chain

/-! ## Machines -/

variable {S : Setting} {i j : Nat} {m m' : Machine}

/-- Without effects, what only shares a frame changes no view. -/
theorem Keeps.view (keeps : Keeps S .shared i m m') (plain : S.plain = true)
    (nested : m.chain.Nested) (live : j < m.chain.size) : m'.chain.view j = m.chain.view j := by
  refine Chain.view_congr nested (keeps.nested nested) live fun k _ f found => ?_
  obtain ⟨f', found', kept⟩ := keeps.frame k f found
  have shared : ¬ Mode.shared.Owns i k := fun owns => by cases owns.1
  refine ⟨f', found', ?_, kept.parent⟩
  simp only [Frame.outline, kept.values shared, kept.cursor shared, kept.declared,
    kept.handled shared (.inl plain)]

theorem Grown.view_below (grown : Grown i m m') (nested : m.chain.Nested) (live : i < m.chain.size)
    (below : j < m.chain.size) : m'.chain.view j = m.chain.view j := by
  refine Chain.view_congr nested (grown.nested nested live) below fun k le f found =>
    ⟨f, ?_, rfl, rfl⟩
  rw [grown.below k (by omega), found]

/-- A new frame adds what it shows to the view. -/
theorem Grown.view_top (grown : Grown i m m') (nested : m.chain.Nested) (live : i < m.chain.size)
    {f : Frame} (found : m'.chain.frame? m.chain.size = some f) :
    m'.chain.view m.chain.size = f.outline :: m.chain.view i := by
  have parent : f.parent = some i := by
    rw [← Chain.parent?_of_frame? found]
    exact grown.parent
  rw [Chain.view_cons (grown.nested nested live) found, parent]
  exact congrArg (f.outline :: ·) (grown.view_below nested live live)

end TreeQuery
