import TreeQuery.Proofs.Memos.Agreement

/-!
# Values that are certain

Whatever a let-binding is remembered by should be the value that a reference would compute if
nothing were remembered and nothing were computed ahead. `Converges` says what a computation comes
to from some depth on. A value is `Certain` for a let-binding in a view if each machine with this
view that remembers nothing and computes nothing ahead comes to it.

`Facing` relates a machine that remembers only values that are certain, whenever it computes them,
with such a machine. Both see the same from their frames. The relation outlives a frame that comes
and goes, a change to a frame of one's own, and what is done on either side alone, as long as only
memos change.
-/

set_option autoImplicit false

namespace TreeQuery

/-- From some depth on, a computation has this outcome and leaves this machine. -/
def Converges {α : Type} (x : Runner → Eval α) (m : Machine) (o : Except Signal α) (n : Machine) :
    Prop :=
  ∃ enough, ∀ left, enough ≤ left → x (.ofDepth left) m = (o, n)

variable {μ ν : Mode} {i i' : Nat} {m m' n n' k k' : Machine} {α β : Type} {R : α → α → Prop}
  {x : Runner → Eval α}

namespace Converges

/-- A computation that does not evaluate parts. -/
theorem of_run {o : Except Signal α} (run : ∀ r, x r m = (o, n)) : Converges x m o n :=
  ⟨0, fun _ _ => run _⟩

/-- A computation that goes on like another one. -/
theorem of_runs {y : Runner → Eval α} {o : Except Signal α} (run : ∀ r, x r m = y r n)
    (converges : Converges y n o k) : Converges x m o k := by
  obtain ⟨enough, same⟩ := converges
  exact ⟨enough, fun left above => (run _).trans (same left above)⟩

theorem catching {f : Except Signal α → Runner → Eval β} {o : Except Signal α}
    {o' : Except Signal β} (first : Converges x m o n) (next : Converges (f o) n o' k) :
    Converges (fun r => Eval.attempt (x r) >>= fun o => f o r) m o' k := by
  obtain ⟨enough, before⟩ := first
  obtain ⟨more, after⟩ := next
  refine ⟨max enough more, fun left above => ?_⟩
  simp only [Eval.attempt_bind, before left (by omega), after left (by omega)]

/-- A computation in a frame that goes afterwards. -/
theorem framed {y : Runner → Eval α} {o : Except Signal α} {size : Nat}
    (run : ∀ left, x (.ofDepth left) m = ((y (.ofDepth left) n).1,
      (y (.ofDepth left) n).2.onChain fun c => c.truncate size))
    (inside : Converges y n o k) : Converges x m o (k.onChain fun c => c.truncate size) := by
  obtain ⟨enough, same⟩ := inside
  refine ⟨enough, fun left above => ?_⟩
  rw [run, same left above]

/-- An expression costs one more than what it consists of. -/
theorem eval {e : Expr} {o : Except Signal Evaluated}
    (node : Converges (fun r => Evaluation.node r e i) { m with depth := m.depth + 1 } o n) :
    Converges (fun r => r e i) m o { n with depth := n.depth - 1 } := by
  obtain ⟨enough, same⟩ := node
  refine ⟨enough + 1, fun left above => ?_⟩
  obtain ⟨left, rfl⟩ : ∃ less, left = less + 1 := ⟨left - 1, by omega⟩
  have inside := same left (by omega)
  change Eval.deeper (Evaluation.node (.ofDepth left) e i) m = _
  simp only [Eval.deeper, inside]

theorem unique {o o' : Except Signal α} (first : Converges x m o n) (second : Converges x m o' n') :
    o = o' := by
  obtain ⟨enough, before⟩ := first
  obtain ⟨more, after⟩ := second
  have both := (before (max enough more) (by omega)).symm.trans (after (max enough more) (by omega))
  exact congrArg Prod.fst both

/-- What holds at every depth holds of what a computation comes to. -/
theorem sound (steady : ∀ left, Sound .effectless (.ofDepth left) (.ofDepth left) μ i R x)
    (ready : Ready .effectless μ i m) {o : Except Signal α} (converges : Converges x m o n) :
    Keeps .effectless μ i m n ∧ Ready .effectless μ i n := by
  obtain ⟨enough, same⟩ := converges
  obtain ⟨-, keeps, after, -⟩ := steady enough m ready
  rw [same enough (Nat.le_refl _)] at keeps after
  exact ⟨keeps, after⟩

end Converges

/-! ## What may be remembered -/

/-- The value of a let-binding in a view, if nothing is remembered or computed ahead. -/
def Certain (view : List Outline) (b : Binding) (v : Evaluated) : Prop :=
  ∀ i m, Ready .effectless .shared i m → m.settings.reset = .always → m.settings.timing = .lazy →
    m.chain.view i = view → ∃ n, Converges (fun r => Evaluation.compute r i b) m (.ok v) n

/-- All that a machine remembers is certain. -/
abbrev Vouched (m : Machine) : Prop :=
  m.MemosMeet Certain

/-! ## Machines that face each other -/

/-- The machine as if it remembered nothing and computed nothing ahead. -/
def Machine.lax (m : Machine) : Machine :=
  { m with settings := { m.settings with reset := .always, timing := .lazy }, configs := [] }

theorem Ready.lax (ready : Ready .effectless μ i m) : Ready .effectless μ i m.lax :=
  ⟨ready.nested, ready.live, fun plain =>
    ⟨(ready.tame plain).frame, (ready.tame plain).fits, nofun, .inr rfl⟩⟩

theorem Grown.lax (grown : Grown i m n) : Grown i m.lax n.lax :=
  ⟨grown.size, grown.below, grown.parent, by simp only [Machine.lax, grown.settings], grown.depth,
    rfl⟩

theorem Keeps.lax {S : Setting} (keeps : Keeps S μ i m n) : Keeps S μ i m.lax n.lax :=
  ⟨keeps.size, keeps.depth, rfl, rfl, keeps.maxDepth, keeps.unmarked, keeps.frame⟩

/-- The first machine remembers values to the end of their scope, all of which are certain; the
second remembers nothing and computes nothing ahead. Their frames see the same. -/
structure Facing (μ : Mode) (i : Nat) (m : Machine) (i' : Nat) (m' : Machine) : Prop where
  ready : Ready .effectless μ i m
  reset : m.settings.reset = .afterScope
  memos : Vouched m
  paired : Paired .always μ i m.lax i' m'

namespace Facing

variable {o o' : Nat}

theorem lazy (facing : Facing μ i m i' m') : m'.settings.timing = .lazy :=
  facing.paired.timing.symm

theorem view (facing : Facing μ i m i' m') : m.chain.view i = m'.chain.view i' :=
  facing.paired.view

/-- What leaves the frames alone leaves the machines facing. -/
theorem of_same (facing : Facing μ i m i' m') (chain : n.chain = m.chain)
    (settings : n.settings = m.settings) (chainToo : n'.chain = m'.chain)
    (settingsToo : n'.settings = m'.settings) (ready : Ready .effectless μ i n)
    (readyToo : Ready .effectless μ i' n') : Facing μ i n i' n' :=
  ⟨ready, by rw [settings, facing.reset], facing.memos.of_same chain,
    facing.paired.of_same chain (by simp only [Machine.lax, settings]) chainToo settingsToo
      ready.lax readyToo⟩

/-- Frames that see the same on both sides. -/
theorem shared (facing : Facing μ i m i' m') (live : o < m.chain.size)
    (readyToo : Ready .effectless .shared o' n) (always : n.settings.reset = .always)
    (lazy : n.settings.timing = .lazy) (view : m.chain.view o = n.chain.view o') :
    Facing .shared o m o' n :=
  have ready := facing.ready.shared live
  ⟨ready, facing.reset, facing.memos,
    ⟨ready.lax, readyToo, rfl, always, lazy.symm, view, nofun, nofun⟩⟩

/-- What is done in frames that others are nested in, on either side, changes memos only. -/
theorem inward (facing : Facing μ i m i' m') (member : o ∈ m.chain.ancestors i)
    (memberToo : o' ∈ m'.chain.ancestors i') (keeps : Keeps .effectless .shared o m n)
    (keepsToo : Keeps .effectless .shared o' m' n') (ready : Ready .effectless .shared o n)
    (readyToo : Ready .effectless .shared o' n') (memos : Vouched n) : Facing μ i n i' n' := by
  obtain ⟨before, beforeToo⟩ := And.intro facing.ready facing.paired.readyToo
  have after := before.inward member keeps ready
  refine ⟨after, by rw [keeps.reset, facing.reset], memos, after.lax,
    beforeToo.inward memberToo keepsToo readyToo, rfl, by rw [keepsToo.reset, facing.paired.always],
    by rw [keepsToo.timing, ← facing.paired.timing]; rfl, ?_, fun own => ?_, nofun⟩
  · change n.chain.view i = n'.chain.view i'
    rw [keeps.view rfl before.nested before.live, keepsToo.view rfl beforeToo.nested beforeToo.live,
      facing.view]
  · change n.chain.size = i + 1
    rw [keeps.size]
    exact facing.paired.top own

/-- A new frame on both sides. -/
theorem grown (facing : Facing μ i m i' m') (grown : Grown i m n) (grownToo : Grown i' m' n')
    (ready : Ready .effectless ν m.chain.size n) (readyToo : Ready .effectless ν m'.chain.size n')
    {f f' : Frame} (found : n.chain.frame? m.chain.size = some f)
    (foundToo : n'.chain.frame? m'.chain.size = some f') (outline : f.outline = f'.outline)
    (bare : ∀ name slot, Assoc.get? f.lets name = some slot → slot.memo = none) :
    Facing ν m.chain.size n m'.chain.size n' :=
  ⟨ready, by rw [grown.settings, facing.reset], facing.memos.grown facing.ready grown found bare,
    facing.paired.grown grown.lax grownToo ready.lax readyToo found foundToo outline bare⟩

/-- The new frame goes on both sides. -/
theorem shrunk (facing : Facing μ i m i' m') (grown : Grown i m n) (grownToo : Grown i' m' n')
    (keeps : Keeps .effectless ν m.chain.size n k) (keepsToo : Keeps .effectless ν m'.chain.size n' k')
    (after : Facing ν m.chain.size k m'.chain.size k') :
    Facing μ i (k.onChain fun c => c.truncate m.chain.size) i'
      (k'.onChain fun c => c.truncate m'.chain.size) :=
  ⟨facing.ready.truncate grown keeps after.ready, after.reset,
    after.memos.truncate after.ready.nested _,
    facing.paired.shrunk grown.lax grownToo keeps.lax keepsToo after.paired⟩

/-- A change to a frame of one's own, on both sides. -/
theorem update (facing : Facing .own i m i' m') {change change' : Frame → Frame}
    (still : ∀ f, (change f).parent = f.parent) (stillToo : ∀ f, (change' f).parent = f.parent)
    (lets : ∀ f, (change f).lets = f.lets)
    (alike : ∀ f f', f.outline = f'.outline → (change f).outline = (change' f').outline)
    (ready : Ready .effectless .own i (m.onChain fun c => c.update i change))
    (readyToo : Ready .effectless .own i' (m'.onChain fun c => c.update i' change')) :
    Facing .own i (m.onChain fun c => c.update i change) i'
      (m'.onChain fun c => c.update i' change') :=
  ⟨ready, facing.reset, facing.memos.update facing.ready (facing.paired.top rfl) still lets,
    facing.paired.update still stillToo lets alike ready.lax readyToo⟩

end Facing

end TreeQuery
