import TreeQuery.Proofs.Chain
import TreeQuery.Proofs.Frames.Kept
import TreeQuery.Proofs.Steps

/-!
# Frames hoisted out of the frame around them

A frame may be nested in one that has nothing to show besides what the frame has itself, but for its
cursor and for one name (`Tier`). Such a frame may as well stand where the one around it is nested, with
that cursor of its own: `Chain.hoist` puts it there. What is seen from any frame stays the same, but
for the name (`Chain.resolve?_hoist` and its neighbours), and what is done to the frames can be done
before or after.
-/

set_option autoImplicit false

namespace TreeQuery

/-- Where a frame stands and the one it is nested in, where that is nested in turn, its cursor and the
name that only it shows. -/
structure Tier where
  inner : Nat
  outer : Nat
  base : Nat
  cursor : Option Address
  name : String
  apart : Chain.currentName ≠ name

/-- The outer frame `g` shows nothing that the inner frame `f` does not, but for its cursor and a
name. -/
structure Tier.Holds (d : Tier) (f g : Frame) : Prop where
  nested : f.parent = some d.outer
  further : g.parent = some d.base
  kind : f.kind ≠ .handler
  kindToo : g.kind ≠ .handler
  absent : f.cursor = none
  cursor : g.cursor = d.cursor
  bare : g.declared = []
  shown : ∀ name, name ≠ d.name → Assoc.get? f.values name = none → Assoc.get? g.values name = none

def Tier.Stands (d : Tier) (c : Chain) : Prop :=
  ∃ f g, c.frame? d.inner = some f ∧ c.frame? d.outer = some g ∧ d.Holds f g

/-- The inner frame in the place of the outer one. -/
def Tier.hoisted (d : Tier) (f : Frame) : Frame :=
  { f with kind := .loop, parent := some d.base, cursor := d.cursor }

/-- The frames with the inner one hoisted, if there is one to be hoisted. -/
def Chain.hoist (tier : Option Tier) (c : Chain) : Chain :=
  match tier with
  | none => c
  | some d => c.update d.inner d.hoisted

def Machine.hoist (tier : Option Tier) (m : Machine) : Machine :=
  m.onChain (Chain.hoist tier)

@[simp] theorem Machine.chain_hoist (tier : Option Tier) (m : Machine) :
    (m.hoist tier).chain = m.chain.hoist tier := rfl

namespace Chain

variable {tier : Option Tier} {c : Chain}

/-! ## Frames -/

@[simp] theorem size_hoist (tier : Option Tier) (c : Chain) : (c.hoist tier).size = c.size := by
  cases tier with
  | none => rfl
  | some d => exact size_update c d.inner d.hoisted

theorem frame?_hoist_other {j : Nat} (other : ∀ d ∈ tier, j ≠ d.inner) :
    (c.hoist tier).frame? j = c.frame? j := by
  cases tier with
  | none => rfl
  | some d => rw [hoist, frame?_update, if_neg (other d rfl)]

theorem frame?_hoist_inner {d : Tier} {f : Frame} (found : c.frame? d.inner = some f) :
    (c.hoist (some d)).frame? d.inner = some (d.hoisted f) := by
  rw [hoist, frame?_update, if_pos rfl, found]
  rfl

/-- What hoisting a frame does not touch can be read off before or after. -/
theorem bind_hoist {α : Type} (i : Nat) {find : Frame → Option α}
    (blind : ∀ d f, find (Tier.hoisted d f) = find f) :
    ((c.hoist tier).frame? i).bind find = (c.frame? i).bind find := by
  cases tier with
  | none => rfl
  | some d =>
      rw [hoist, frame?_update]
      split
      · cases c.frame? i with
        | none => rfl
        | some f => exact blind d f
      · rfl

theorem memo?_hoist (i : Nat) (name : String) :
    (c.hoist tier).memo? i name = c.memo? i name :=
  bind_hoist i fun _ _ => rfl

theorem isHandled_hoist (i : Nat) : (c.hoist tier).isHandled i = c.isHandled i := by
  have read : ∀ c : Chain,
      c.isHandled i = ((c.frame? i).bind fun f => some f.handled).getD false := by
    intro c
    rw [isHandled]
    cases c.frame? i <;> rfl
  rw [read, read, bind_hoist i fun _ _ => rfl]

theorem Nested.hoist (nested : c.Nested) (stands : ∀ d ∈ tier, d.Stands c) :
    (c.hoist tier).Nested := by
  cases tier with
  | none => exact nested
  | some d =>
      obtain ⟨f, g, inner, outer, holds⟩ := stands d rfl
      have below : d.outer < d.inner := nested.parent_lt inner holds.nested
      have belowToo : d.base < d.outer := nested.parent_lt outer holds.further
      intro j p isParent
      by_cases here : j = d.inner
      · subst here
        rw [parent?_of_frame? (frame?_hoist_inner inner)] at isParent
        cases isParent
        omega
      · rw [parent?, frame?_hoist_other (by rintro _ ⟨⟩; exact here)] at isParent
        exact nested j p isParent

/-! ## Looking around -/

/-- What is looked for in the inner frame and then in the outer one is found in the hoisted frame. -/
theorem search_hoist (nested : c.Nested) (stands : ∀ d ∈ tier, d.Stands c) {α : Type}
    {find : Nat → Frame → Option α} (i : Nat)
    (meets : ∀ d ∈ tier, d.inner ∈ c.ancestors i → ∀ f g, d.Holds f g →
      find d.inner (d.hoisted f) = (find d.inner f).or (find d.outer g)) :
    (c.hoist tier).search i find = c.search i find := by
  have still := nested.hoist stands
  cases tier with
  | none => rfl
  | some d =>
      obtain ⟨f, g, inner, outer, holds⟩ := stands d rfl
      induction i using Nat.strongRecOn with
      | ind i ih =>
          cases found : c.frame? i with
          | none =>
              have dead : (c.hoist (some d)).frame? i = none := by
                rw [frame?_eq_none_iff, size_hoist, ← frame?_eq_none_iff]
                exact found
              simp [search, ancestors, found, dead]
          | some h =>
              by_cases here : i = d.inner
              · subst here
                cases inner.symm.trans found
                have below : d.outer < d.inner := nested.parent_lt inner holds.nested
                have belowToo : d.base < d.outer := nested.parent_lt outer holds.further
                have outside : d.inner ∉ c.ancestors d.base := by
                  intro member
                  have := le_of_mem_ancestors nested member
                  omega
                have further := ih d.base (by omega) fun _ same => by
                  cases same
                  exact fun member => absurd member outside
                have combined := meets d rfl
                  (mem_ancestors_self (lt_size_of_frame? inner)) f g holds
                rw [search_cons still (frame?_hoist_inner inner), search_cons nested inner,
                  holds.nested]
                change (find d.inner (d.hoisted f)).or ((c.hoist (some d)).search d.base find) =
                  (find d.inner f).or (c.search d.outer find)
                rw [search_cons nested outer, holds.further, further, combined, Option.or_assoc]
              · have same : (c.hoist (some d)).frame? i = some h := by
                  rw [frame?_hoist_other (by rintro _ ⟨⟩; exact here), found]
                rw [search_cons still same, search_cons nested found]
                cases isParent : h.parent with
                | none => rfl
                | some p =>
                    have further := ih p (nested.parent_lt found isParent) fun e same member =>
                      meets e same (ancestors_parent nested found isParent member)
                    exact congrArg ((find i h).or ·) further

variable (nested : c.Nested) (stands : ∀ d ∈ tier, d.Stands c)

include nested stands

theorem lookup?_hoist (i : Nat) {name : String}
    (clear : ∀ d ∈ tier, d.inner ∈ c.ancestors i → name ≠ d.name) :
    (c.hoist tier).lookup? i name = c.lookup? i name := by
  refine search_hoist nested stands i fun d there member f g holds => ?_
  change Assoc.get? f.values name = (Assoc.get? f.values name).or (Assoc.get? g.values name)
  cases shown : Assoc.get? f.values name with
  | some v => rfl
  | none => rw [holds.shown name (clear d there member) shown, Option.or_none]

theorem current_hoist (i : Nat) : (c.hoist tier).current i = c.current i := by
  rw [current, lookup?_hoist nested stands i fun d _ _ => d.apart, current]

theorem resolve?_hoist (i : Nat) {name : String}
    (clear : ∀ d ∈ tier, d.inner ∈ c.ancestors i → name ≠ d.name) :
    (c.hoist tier).resolve? i name = c.resolve? i name := by
  refine search_hoist nested stands i fun d there member f g holds => ?_
  have undeclared : Assoc.get? g.lets name = none := by
    have nothing : Assoc.get? g.declared name = none := by rw [holds.bare]; rfl
    rw [Frame.declared, Assoc.get?_mapValues] at nothing
    exact Option.map_eq_none_iff.mp nothing
  cases shown : Assoc.get? f.values name with
  | some v => simp [Tier.hoisted, shown]
  | none =>
      simp [Tier.hoisted, shown, holds.shown name (clear d there member) shown, undeclared]

theorem cursor?_hoist (i : Nat) : (c.hoist tier).cursor? i = c.cursor? i := by
  refine search_hoist nested stands i fun d there member f g holds => ?_
  rw [holds.absent, holds.cursor]
  rfl

theorem nearest?_hoist (i : Nat) :
    (c.hoist tier).nearest? i .handler = c.nearest? i .handler := by
  refine search_hoist nested stands i fun d there member f g holds => ?_
  simp [Tier.hoisted, holds.kind, holds.kindToo]

omit nested stands

/-! ## Changes -/

theorem push_hoist (live : ∀ d ∈ tier, d.inner < c.size) (kind : FrameKind) (parent : Option Nat) :
    (c.hoist tier).push kind parent = (c.push kind parent).hoist tier := by
  cases tier with
  | none => rfl
  | some d =>
      have below := live d rfl
      refine ext_frame? fun j => ?_
      simp only [hoist, frame?_push, frame?_update, size_update]
      by_cases top : j = c.size
      · simp [top, Nat.ne_of_gt below]
      · simp [top]

theorem truncate_hoist {n : Nat} (above : ∀ d ∈ tier, d.inner < n) :
    (c.hoist tier).truncate n = (c.truncate n).hoist tier := by
  cases tier with
  | none => rfl
  | some d =>
      have below := above d rfl
      refine ext_frame? fun j => ?_
      simp only [hoist, frame?_truncate, frame?_update]
      by_cases here : j = d.inner
      · simp [here, below]
      · simp [here]

/-- A change to another frame, or one that hoisting does not touch. -/
theorem update_hoist (i : Nat) {change : Frame → Frame}
    (apart : ∀ d ∈ tier, i = d.inner → ∀ f, change (d.hoisted f) = d.hoisted (change f)) :
    (c.hoist tier).update i change = (c.update i change).hoist tier := by
  cases tier with
  | none => rfl
  | some d =>
      refine ext_frame? fun j => ?_
      simp only [hoist, frame?_update]
      by_cases here : j = i
      · by_cases inner : j = d.inner
        · rw [if_pos here, if_pos inner, if_pos inner, if_pos here]
          cases c.frame? j with
          | none => rfl
          | some f => exact congrArg some (apart d rfl (here.symm.trans inner) f)
        · rw [if_pos here, if_neg inner, if_neg inner, if_pos here]
      · simp [here]

/-- A new frame on top that declares let-bindings. -/
theorem letFrame_hoist (live : ∀ d ∈ tier, d.inner < c.size) (kind : FrameKind)
    (parent : Option Nat) (bindings : List Binding) :
    ((c.hoist tier).push kind parent).update c.size
        (fun f => { f with lets := declareIn f.lets bindings }) =
      ((c.push kind parent).update c.size
        fun f => { f with lets := declareIn f.lets bindings }).hoist tier := by
  rw [push_hoist live]
  exact update_hoist c.size fun d there here => absurd here (Nat.ne_of_gt (live d there))

end Chain

end TreeQuery
