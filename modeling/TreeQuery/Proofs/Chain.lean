import Mathlib.Logic.Basic
import TreeQuery.Machine.Chain

/-!
# Chains whose frames are nested

In a nested chain every frame lies above the frame it is nested in. So the walk from a frame
outwards ends, visits live frames only, and does not depend on what lies above the frame
(`Chain.ancestors_cons`, `Chain.lt_of_mem_ancestors`, `Chain.ancestors_congr`). Adding a frame on
top, dropping frames from the top and changing a frame without moving it keep a chain nested.
-/

set_option autoImplicit false

namespace TreeQuery.Chain

variable {c d : Chain}

/-! ## Frames of changed chains -/

@[simp] theorem size_push (c : Chain) (kind : FrameKind) (parent : Option Nat) :
    (c.push kind parent).size = c.size + 1 := by
  simp [size, push]

@[simp] theorem size_update (c : Chain) (i : Nat) (f : Frame → Frame) :
    (c.update i f).size = c.size := by
  simp [size, update]

theorem size_truncate {n : Nat} (below : n ≤ c.size) : (c.truncate n).size = n := by
  simp only [size, truncate] at *
  simp [below]

theorem frame?_eq_none_iff {j : Nat} : c.frame? j = none ↔ c.size ≤ j := by
  simp [frame?, size]

theorem exists_frame? {j : Nat} (live : j < c.size) : ∃ f, c.frame? j = some f := by
  cases found : c.frame? j with
  | none => exact absurd (frame?_eq_none_iff.mp found) (by omega)
  | some f => exact ⟨f, rfl⟩

theorem lt_size_of_frame? {j : Nat} {f : Frame} (found : c.frame? j = some f) : j < c.size := by
  refine Nat.lt_of_not_le fun dead => ?_
  rw [frame?_eq_none_iff.mpr dead] at found
  cases found

theorem frame?_push (c : Chain) (kind : FrameKind) (parent : Option Nat) (j : Nat) :
    (c.push kind parent).frame? j =
      if j = c.size then some { kind, parent } else c.frame? j := by
  simp only [frame?, push, size, Array.getElem?_push]
  rfl

theorem frame?_truncate (c : Chain) (n j : Nat) :
    (c.truncate n).frame? j = if j < n then c.frame? j else none := by
  simp only [frame?, truncate, Array.take_eq_extract, Array.getElem?_extract]
  by_cases below : j < n
  · by_cases live : j < c.frames.size
    · have inside : j < min n c.frames.size := by omega
      simp [below, inside]
    · simp [below, live]
  · have outside : ¬ j < min n c.frames.size := by omega
    simp [below, outside]

theorem frame?_update (c : Chain) (i : Nat) (f : Frame → Frame) (j : Nat) :
    (c.update i f).frame? j = if j = i then (c.frame? j).map f else c.frame? j := by
  simp only [frame?, update, Array.getElem?_modify]
  by_cases here : i = j <;> simp [here, eq_comm]

/-! ## Nested chains -/

/-- Every frame lies above the one it is nested in. -/
def Nested (c : Chain) : Prop :=
  ∀ j p, c.parent? j = some p → p < j

theorem parent?_of_frame? {j : Nat} {f : Frame} (found : c.frame? j = some f) :
    c.parent? j = f.parent := by
  simp [parent?, found]

theorem Nested.parent_lt (nested : c.Nested) {i p : Nat} {f : Frame} (found : c.frame? i = some f)
    (isParent : f.parent = some p) : p < i :=
  nested i p ((parent?_of_frame? found).trans isParent)

theorem parent?_push (c : Chain) (kind : FrameKind) (parent : Option Nat) (j : Nat) :
    (c.push kind parent).parent? j = if j = c.size then parent else c.parent? j := by
  simp only [parent?, frame?_push]
  split <;> rfl

theorem parent?_truncate (c : Chain) (n j : Nat) :
    (c.truncate n).parent? j = if j < n then c.parent? j else none := by
  simp only [parent?, frame?_truncate]
  split <;> rfl

theorem parent?_update (c : Chain) (i : Nat) {f : Frame → Frame}
    (still : ∀ x, (f x).parent = x.parent) (j : Nat) :
    (c.update i f).parent? j = c.parent? j := by
  simp only [parent?, frame?_update]
  split
  · cases c.frame? j with
    | none => rfl
    | some x => exact still x
  · rfl

theorem Nested.of_size (empty : c.size = 0) : c.Nested := by
  intro j p isParent
  have dead : c.frame? j = none := frame?_eq_none_iff.mpr (by omega)
  simp [parent?, dead] at isParent

theorem Nested.push (nested : c.Nested) {parent : Option Nat} (live : ∀ p ∈ parent, p < c.size)
    (kind : FrameKind) : (c.push kind parent).Nested := by
  intro j p isParent
  rw [parent?_push] at isParent
  split at isParent
  · rename_i top
    subst top
    exact live p isParent
  · exact nested j p isParent

theorem Nested.truncate (nested : c.Nested) (n : Nat) : (c.truncate n).Nested := by
  intro j p isParent
  rw [parent?_truncate] at isParent
  split at isParent
  · exact nested j p isParent
  · cases isParent

theorem Nested.update (nested : c.Nested) (i : Nat) {f : Frame → Frame}
    (still : ∀ x, (f x).parent = x.parent) : (c.update i f).Nested := by
  intro j p isParent
  rw [parent?_update c i still] at isParent
  exact nested j p isParent

/-- The walk does not depend on its fuel once that exceeds the position. -/
theorem outward_fuel (nested : c.Nested) {fuel more i : Nat} (enough : i < fuel)
    (enoughToo : i < more) : c.outward fuel i = c.outward more i := by
  induction i using Nat.strongRecOn generalizing fuel more with
  | ind i ih =>
      obtain ⟨fuel, rfl⟩ := Nat.exists_eq_add_of_lt enough
      obtain ⟨more, rfl⟩ := Nat.exists_eq_add_of_lt enoughToo
      simp only [outward]
      cases isParent : c.parent? i with
      | none => rfl
      | some p =>
          have below := nested i p isParent
          exact congrArg (i :: ·) (ih p below (by omega) (by omega))

/-- A frame comes before those it is nested in. -/
theorem ancestors_cons (nested : c.Nested) {i : Nat} {f : Frame} (found : c.frame? i = some f) :
    c.ancestors i = i :: match f.parent with
      | some p => c.ancestors p
      | none => [] := by
  have live := lt_size_of_frame? found
  have walk : c.ancestors i = i :: match f.parent with
      | some p => c.outward c.size p
      | none => [] := by
    rw [← parent?_of_frame? found, ancestors, found]
    rfl
  rw [walk]
  cases isParent : f.parent with
  | none => rfl
  | some p =>
      have below : p < i := nested.parent_lt found isParent
      obtain ⟨g, foundParent⟩ := exists_frame? (show p < c.size by omega)
      have enough : c.outward c.size p = c.outward (c.size + 1) p :=
        outward_fuel nested (by omega) (by omega)
      simp only [enough, ancestors, foundParent]

/-- A property of all live frames, from the outermost ones inwards. -/
@[elab_as_elim]
theorem Nested.frameInduction (nested : c.Nested) {motive : ∀ i, i < c.size → Prop}
    (outermost : ∀ i f (found : c.frame? i = some f), f.parent = none →
      motive i (lt_size_of_frame? found))
    (inside : ∀ i f p (found : c.frame? i = some f), f.parent = some p → ∀ below : p < i,
      motive p (Nat.lt_trans below (lt_size_of_frame? found)) → motive i (lt_size_of_frame? found))
    (i : Nat) (live : i < c.size) : motive i live := by
  induction i using Nat.strongRecOn with
  | ind i ih =>
      obtain ⟨f, found⟩ := exists_frame? live
      cases isParent : f.parent with
      | none => exact outermost i f found isParent
      | some p =>
          have below : p < i := nested.parent_lt found isParent
          exact inside i f p found isParent below (ih p below (Nat.lt_trans below live))

/-- What is looked for is in the frame or further out. -/
theorem search_cons {α : Type} (nested : c.Nested) {i : Nat} {f : Frame}
    (found : c.frame? i = some f) (find : Nat → Frame → Option α) :
    c.search i find = (find i f).or
      (match f.parent with
        | some p => c.search p find
        | none => none) := by
  rw [search, ancestors_cons nested found, List.findSome?_cons, found, Option.bind_some]
  cases find i f with
  | some a => rfl
  | none => cases f.parent <;> rfl

theorem current_own (nested : c.Nested) {i : Nat} {f : Frame} (found : c.frame? i = some f)
    {v : Evaluated} (here : Assoc.get? f.values currentName = some v) : c.current i = v := by
  rw [current, lookup?, search_cons nested found, here]
  rfl

theorem current_parent (nested : c.Nested) {i : Nat} {f : Frame} (found : c.frame? i = some f)
    (absent : Assoc.get? f.values currentName = none) {p : Nat} (parent : f.parent = some p) :
    c.current i = c.current p := by
  rw [current, lookup?, search_cons nested found, absent, parent]
  rfl

theorem cursor?_own (nested : c.Nested) {i : Nat} {f : Frame} (found : c.frame? i = some f)
    {a : Address} (here : f.cursor = some a) : c.cursor? i = some a := by
  rw [cursor?, search_cons nested found, here]
  rfl

theorem cursor?_parent (nested : c.Nested) {i : Nat} {f : Frame} (found : c.frame? i = some f)
    (absent : f.cursor = none) {p : Nat} (parent : f.parent = some p) :
    c.cursor? i = c.cursor? p := by
  rw [cursor?, search_cons nested found, absent, parent]
  rfl

theorem mem_ancestors_self {i : Nat} (live : i < c.size) : i ∈ c.ancestors i := by
  obtain ⟨f, found⟩ := exists_frame? live
  simp [ancestors, found, outward]

theorem live_of_mem_ancestors {i j : Nat} (member : j ∈ c.ancestors i) : i < c.size := by
  cases found : c.frame? i with
  | none => simp [ancestors, found] at member
  | some f => exact lt_size_of_frame? found

/-- The frames above a frame play no part in its walk. -/
theorem le_of_mem_ancestors (nested : c.Nested) {i j : Nat} (member : j ∈ c.ancestors i) :
    j ≤ i := by
  have live := live_of_mem_ancestors member
  induction i, live using nested.frameInduction with
  | outermost i f found isParent =>
      rw [ancestors_cons nested found, isParent] at member
      exact Nat.le_of_eq (List.mem_singleton.mp member)
  | inside i f p found isParent below ih =>
      rw [ancestors_cons nested found, isParent] at member
      rcases List.mem_cons.mp member with rfl | further
      · exact Nat.le_refl j
      · exact Nat.le_trans (ih further) (Nat.le_of_lt below)

theorem lt_of_mem_ancestors (nested : c.Nested) {i j : Nat} (member : j ∈ c.ancestors i) :
    j < c.size :=
  Nat.lt_of_le_of_lt (le_of_mem_ancestors nested member) (live_of_mem_ancestors member)

/-- Walks through the same frames are the same. -/
theorem ancestors_congr (nested : c.Nested) (other : d.Nested) {i : Nat} (live : i < c.size)
    (liveToo : i < d.size) (same : ∀ j, j ≤ i → c.parent? j = d.parent? j) :
    c.ancestors i = d.ancestors i := by
  induction i using Nat.strongRecOn with
  | ind i ih =>
      obtain ⟨f, found⟩ := exists_frame? live
      obtain ⟨g, foundToo⟩ := exists_frame? liveToo
      have parents : f.parent = g.parent := by
        rw [← parent?_of_frame? found, ← parent?_of_frame? foundToo, same i (Nat.le_refl i)]
      rw [ancestors_cons nested found, ancestors_cons other foundToo, ← parents]
      cases isParent : f.parent with
      | none => rfl
      | some p =>
          have below : p < i := nested.parent_lt found isParent
          exact congrArg (i :: ·) (ih p below (by omega) (by omega) fun j le => same j (by omega))

/-- What is found alike in the frames of corresponding walks is found alike on the walks. -/
theorem search_map {α γ : Type} {find : Nat → Frame → Option α} {find' : Nat → Frame → Option γ}
    {ρ : Nat → Nat} {g : α → γ} {i i' : Nat} (walk : d.ancestors i' = (c.ancestors i).map ρ)
    (alike : ∀ j ∈ c.ancestors i,
      (d.frame? (ρ j)).bind (find' (ρ j)) = ((c.frame? j).bind (find j)).map g) :
    d.search i' find' = (c.search i find).map g := by
  rw [search, search, walk]
  generalize c.ancestors i = visited at alike ⊢
  induction visited with
  | nil => rfl
  | cons j rest ih =>
      have further := ih fun k member => alike k (List.mem_cons_of_mem j member)
      rw [List.map_cons, List.findSome?_cons, List.findSome?_cons, alike j (List.mem_cons_self ..)]
      cases (c.frame? j).bind (find j) with
      | none => exact further
      | some a => rfl

/-- What is found on a walk is found again where the frames on it show the same. -/
theorem search_congr {α : Type} {find : Nat → Frame → Option α} {i : Nat}
    (walk : d.ancestors i = c.ancestors i)
    (same : ∀ j ∈ c.ancestors i, (d.frame? j).bind (find j) = (c.frame? j).bind (find j)) :
    d.search i find = c.search i find := by
  have found : d.search i find = (c.search i find).map id := by
    refine search_map (ρ := id) (by rw [walk, List.map_id]) fun j member => ?_
    rw [Option.map_id]
    exact same j member
  rw [found, Option.map_id]
  rfl

/-- A walk goes on from each frame it visits as that frame's own walk does. -/
theorem ancestors_subset (nested : c.Nested) {i o : Nat} (member : o ∈ c.ancestors i) :
    c.ancestors o ⊆ c.ancestors i := by
  have live := live_of_mem_ancestors member
  induction i, live using nested.frameInduction with
  | outermost i f found isParent =>
      rw [ancestors_cons nested found, isParent] at member
      rw [List.mem_singleton.mp member]
      exact List.Subset.refl _
  | inside i f p found isParent below ih =>
      rw [ancestors_cons nested found, isParent] at member
      rcases List.mem_cons.mp member with rfl | further
      · exact List.Subset.refl _
      · rw [ancestors_cons nested found, isParent]
        exact List.subset_cons_of_subset i (ih further)

theorem ancestors_parent (nested : c.Nested) {i p : Nat} {f : Frame} (found : c.frame? i = some f)
    (isParent : f.parent = some p) : c.ancestors p ⊆ c.ancestors i := by
  rw [ancestors_cons nested found, isParent]
  exact List.subset_cons_self i _

/-- The walk from a new frame on top. -/
theorem ancestors_top (nested : c.Nested) (above : d.Nested) {i : Nat} (live : i < c.size)
    (size : d.size = c.size + 1) (below : ∀ j, j < c.size → d.parent? j = c.parent? j)
    (top : d.parent? c.size = some i) : d.ancestors c.size = c.size :: c.ancestors i := by
  obtain ⟨f, found⟩ := exists_frame? (show c.size < d.size by omega)
  have parent : f.parent = some i := by rw [← parent?_of_frame? found, top]
  rw [ancestors_cons above found, parent]
  refine congrArg (c.size :: ·) (ancestors_congr above nested (by omega) live fun j le => ?_)
  exact below j (by omega)

end TreeQuery.Chain
