import TreeQuery.Proofs.Frames.Sound

/-!
# Chains with one more frame

A frame that no other frame is nested in is out of sight of all the others. `Chain.Beside` relates a
chain to one that has such a frame in addition, at a given position, so that the frames from there
on stand one position further. What is seen from a frame is the same on both sides
(`Chain.Beside.search` and what follows from it), and what is done to a frame on one side can be done
on the other.
-/

set_option autoImplicit false

namespace TreeQuery

/-- Where a frame stands once another one was put in at position `s`. -/
def past (s j : Nat) : Nat :=
  if j < s then j else j + 1

theorem past_below {s j : Nat} (below : j < s) : past s j = j :=
  if_pos below

theorem past_above {s j : Nat} (above : s ≤ j) : past s j = j + 1 :=
  if_neg (Nat.not_lt_of_le above)

theorem past_injective {s j k : Nat} (same : past s j = past s k) : j = k := by
  unfold past at same
  split at same <;> split at same <;> omega

theorem past_lt_iff {s j n : Nat} (above : s ≤ n) : past s j < n + 1 ↔ j < n := by
  unfold past
  split <;> omega

/-- The frame, with the one that it is nested in where that stands now. -/
def Frame.past (s : Nat) (f : Frame) : Frame :=
  { f with parent := f.parent.map (TreeQuery.past s) }

def Resolved.past (s : Nat) : Resolved → Resolved
  | .value v => .value v
  | .binding owner b => .binding (TreeQuery.past s owner) b

/-- The second chain has one more frame, at position `s`, and nothing is nested in that. -/
structure Chain.Beside (s : Nat) (c c' : Chain) : Prop where
  inside : s ≤ c.size
  size : c'.size = c.size + 1
  frame : ∀ j, c'.frame? (past s j) = (c.frame? j).map (Frame.past s)

namespace Chain.Beside

variable {s : Nat} {c c' : Chain} (beside : c.Beside s c')

include beside

/-- New frames come at corresponding positions. -/
theorem next : c'.size = past s c.size :=
  beside.size.trans (past_above beside.inside).symm

theorem parent? (j : Nat) : c'.parent? (past s j) = (c.parent? j).map (past s) := by
  rw [Chain.parent?, beside.frame, Chain.parent?]
  cases c.frame? j <;> rfl

theorem outward (fuel j : Nat) :
    c'.outward fuel (past s j) = (c.outward fuel j).map (past s) := by
  induction fuel generalizing j with
  | zero => rfl
  | succ fuel ih =>
      simp only [Chain.outward, beside.parent?]
      cases c.parent? j with
      | none => rfl
      | some p => exact congrArg (past s j :: ·) (ih p)

/-! ## Looking around -/

theorem ancestors (nested : c.Nested) (i : Nat) :
    c'.ancestors (past s i) = (c.ancestors i).map (past s) := by
  rw [Chain.ancestors, beside.frame, Chain.ancestors]
  cases found : c.frame? i with
  | none => rfl
  | some f =>
      have live := lt_size_of_frame? found
      have enough : c.outward (c'.size + 1) i = c.outward (c.size + 1) i :=
        outward_fuel nested (by rw [beside.size]; omega) (by omega)
      change c'.outward (c'.size + 1) (past s i) = (c.outward (c.size + 1) i).map (past s)
      rw [beside.outward, enough]

/-- What is found in each frame alike is found on the whole walk alike. -/
theorem search (nested : c.Nested) {α γ : Type} {find : Nat → Frame → Option α}
    {find' : Nat → Frame → Option γ} {g : α → γ}
    (alike : ∀ j f, find' (past s j) (f.past s) = (find j f).map g) (i : Nat) :
    c'.search (past s i) find' = (c.search i find).map g := by
  refine search_map (beside.ancestors nested i) fun j _ => ?_
  rw [beside.frame]
  cases c.frame? j with
  | none => rfl
  | some f => exact alike j f

theorem lookup? (nested : c.Nested) (i : Nat) (name : String) :
    c'.lookup? (past s i) name = c.lookup? i name := by
  have found : c'.lookup? (past s i) name = (c.lookup? i name).map id :=
    beside.search nested (fun _ _ => by rw [Option.map_id]; rfl) i
  rw [found, Option.map_id]
  rfl

theorem current (nested : c.Nested) (i : Nat) : c'.current (past s i) = c.current i := by
  rw [Chain.current, beside.lookup? nested, Chain.current]

theorem cursor? (nested : c.Nested) (i : Nat) : c'.cursor? (past s i) = c.cursor? i := by
  have found : c'.cursor? (past s i) = (c.cursor? i).map id :=
    beside.search nested (fun _ _ => by rw [Option.map_id]; rfl) i
  rw [found, Option.map_id]
  rfl

theorem resolve? (nested : c.Nested) (i : Nat) (name : String) :
    c'.resolve? (past s i) name = (c.resolve? i name).map (Resolved.past s) := by
  refine beside.search nested (fun j f => ?_) i
  simp only [Frame.past]
  cases Assoc.get? f.values name with
  | some v => rfl
  | none => cases Assoc.get? f.lets name <;> rfl

theorem nearest? (nested : c.Nested) (i : Nat) (kind : FrameKind) :
    c'.nearest? (past s i) kind = (c.nearest? i kind).map (past s) := by
  refine beside.search nested (fun j f => ?_) i
  have same : (f.past s).kind = f.kind := rfl
  by_cases here : f.kind = kind
  · rw [if_pos here, if_pos (same.trans here)]
    rfl
  · rw [if_neg here, if_neg fun other => here (same.symm.trans other)]
    rfl

theorem isHandled (i : Nat) : c'.isHandled (past s i) = c.isHandled i := by
  rw [Chain.isHandled, beside.frame, Chain.isHandled]
  cases c.frame? i <;> rfl

theorem memo? (i : Nat) (name : String) : c'.memo? (past s i) name = c.memo? i name := by
  rw [Chain.memo?, beside.frame, Chain.memo?]
  cases c.frame? i <;> rfl

theorem visible (nested : c.Nested) (i : Nat) : c'.visible (past s i) = c.visible i := by
  rw [Chain.visible, beside.ancestors nested, List.foldl_map, Chain.visible]
  congr
  funext acc j
  rw [beside.frame]
  cases c.frame? j <;> rfl

/-! ## Changes -/

theorem push (kind : FrameKind) (i : Nat) :
    (c.push kind (some i)).Beside s (c'.push kind (some (past s i))) := by
  have inside := beside.inside
  refine ⟨by rw [size_push]; omega, by rw [size_push, size_push, beside.size], fun j => ?_⟩
  rw [frame?_push, frame?_push, beside.next]
  by_cases top : j = c.size
  · rw [if_pos top, if_pos (congrArg (TreeQuery.past s) top)]
    rfl
  · rw [if_neg top, if_neg fun same => top (past_injective same), beside.frame]

/-- The frame that was put in stays as long as what was there before it does. -/
theorem truncate {n : Nat} (above : s ≤ n) (below : n ≤ c.size) :
    (c.truncate n).Beside s (c'.truncate (n + 1)) := by
  refine ⟨by rw [size_truncate below]; exact above, ?_, fun j => ?_⟩
  · rw [size_truncate below, size_truncate (by rw [beside.size]; omega)]
  · rw [frame?_truncate, frame?_truncate, beside.frame]
    by_cases kept : j < n
    · rw [if_pos kept, if_pos ((past_lt_iff above).mpr kept)]
    · rw [if_neg kept, if_neg fun kept' => kept ((past_lt_iff above).mp kept')]
      rfl

/-- A change that does not look at where a frame is nested. -/
theorem update (i : Nat) {change : Frame → Frame}
    (blind : ∀ f, change (f.past s) = (change f).past s) :
    (c.update i change).Beside s (c'.update (past s i) change) := by
  refine ⟨by rw [size_update]; exact beside.inside, by rw [size_update, size_update, beside.size],
    fun j => ?_⟩
  rw [frame?_update, frame?_update, beside.frame]
  by_cases here : j = i
  · rw [if_pos here, if_pos (congrArg (TreeQuery.past s) here)]
    cases c.frame? j with
    | none => rfl
    | some f => exact congrArg some (blind f)
  · rw [if_neg here, if_neg fun same => here (past_injective same)]

end Chain.Beside

/-- A frame that is put on top is out of sight of those that are there. -/
theorem Chain.Nested.beside_push {c : Chain} (nested : c.Nested) (kind : FrameKind)
    (parent : Option Nat) : c.Beside c.size (c.push kind parent) := by
  refine ⟨Nat.le_refl _, size_push .., fun j => ?_⟩
  by_cases live : j < c.size
  · obtain ⟨f, found⟩ := exists_frame? live
    have still : f.past c.size = f := by
      have parents : f.parent.map (past c.size) = f.parent := by
        cases isParent : f.parent with
        | none => rfl
        | some p =>
            have below := nested.parent_lt found isParent
            exact congrArg some (past_below (by omega))
      rw [Frame.past, parents]
    rw [past_below live, frame?_push, if_neg (Nat.ne_of_lt live), found, Option.map_some, still]
  · rw [past_above (Nat.le_of_not_lt live), frame?_push, if_neg (by omega),
      frame?_eq_none_iff.mpr (Nat.le_of_not_lt live), frame?_eq_none_iff.mpr (by omega)]
    rfl

/-- It may change without being noticed. -/
theorem Chain.Beside.update_other {s : Nat} {c c' : Chain} (beside : c.Beside s c')
    (change : Frame → Frame) : c.Beside s (c'.update s change) := by
  refine ⟨beside.inside, by rw [size_update, beside.size], fun j => ?_⟩
  have apart : past s j ≠ s := by
    unfold past
    split <;> omega
  rw [frame?_update, if_neg apart, beside.frame]

end TreeQuery
