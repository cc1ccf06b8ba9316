import TreeQuery.Proofs.Memos.Marked

/-!
# Machines that may differ in what they remember

`Machine.MemosMeet` says of all values that a machine remembers that they meet a condition. It
outlives whatever leaves the frames that remember something alone.

`Paired` relates a machine that may remember the values of let-bindings, under either of two reset
policies, with a machine that computes them anew each time. Both see the same from their frames, and
whatever the first remembers is a value that some run without memos computes in the view of the
frame that remembers it (`Known`). The pair outlives a frame that comes and goes (`Paired.grown`,
`Paired.shrunk`) and a change to a frame of one's own (`Paired.update`): such a frame is on top, so
nobody who remembers anything sees it.
-/

set_option autoImplicit false

namespace TreeQuery

variable {μ ν : Mode} {i i' : Nat} {m m' n n' k k' : Machine}

/-! ## What is remembered -/

/-- Whatever a machine remembers meets a condition in the view of the frame that remembers it. -/
def Machine.MemosMeet (P : List Outline → Binding → Evaluated → Prop) (m : Machine) : Prop :=
  ∀ j f name slot v, m.chain.frame? j = some f → Assoc.get? f.lets name = some slot →
    slot.memo = some v → P (m.chain.view j) slot.binding v

/-- A let-binding is declared by a frame, under its name. -/
def Declares (m : Machine) (o : Nat) (b : Binding) : Prop :=
  ∀ f, m.chain.frame? o = some f → Assoc.get? f.declared b.name = some b

/-- The memo of a declared let-binding. -/
theorem Declares.slot {o : Nat} {b : Binding} (declares : Declares m o b) {f : Frame}
    (found : m.chain.frame? o = some f) {slot : LetSlot}
    (there : Assoc.get? f.lets b.name = some slot) : slot.binding = b := by
  have declared := declares f found
  rw [Frame.declared, Assoc.get?_mapValues, there] at declared
  exact Option.some.inj declared

namespace Machine.MemosMeet

variable {P : List Outline → Binding → Evaluated → Prop}

/-- Each frame either remembers nothing or has stayed as it was, in the same view. -/
theorem transfer (meet : m.MemosMeet P) (frames : ∀ j f, n.chain.frame? j = some f →
      (∀ name slot, Assoc.get? f.lets name = some slot → slot.memo = none) ∨
      ∃ g, m.chain.frame? j = some g ∧ g.lets = f.lets ∧ n.chain.view j = m.chain.view j) :
    n.MemosMeet P := by
  intro j f name slot v found there memo
  rcases frames j f found with bare | ⟨g, foundBefore, lets, view⟩
  · rw [bare name slot there] at memo
    cases memo
  · rw [view]
    exact meet j g name slot v foundBefore (by rw [lets]; exact there) memo

theorem of_same (meet : m.MemosMeet P) (chain : n.chain = m.chain) : n.MemosMeet P := by
  refine meet.transfer fun j f found => .inr ⟨f, ?_, rfl, by rw [chain]⟩
  rw [← chain, found]

/-- A new frame on top that remembers nothing. -/
theorem grown (meet : m.MemosMeet P) (ready : Ready .effectless μ i m) (grown : Grown i m n)
    {f : Frame} (found : n.chain.frame? m.chain.size = some f)
    (bare : ∀ name slot, Assoc.get? f.lets name = some slot → slot.memo = none) :
    n.MemosMeet P := by
  refine meet.transfer fun j g there => ?_
  by_cases below : j < m.chain.size
  · refine .inr ⟨g, ?_, rfl, grown.view_below ready.nested ready.live below⟩
    rw [← grown.below j below, there]
  · have top : j = m.chain.size := by
      have := Chain.lt_size_of_frame? there
      have := grown.size
      omega
    subst top
    cases found.symm.trans there
    exact .inl bare

theorem truncate (meet : m.MemosMeet P) (nested : m.chain.Nested) (size : Nat) :
    (m.onChain fun c => c.truncate size).MemosMeet P := by
  refine meet.transfer fun j f found => ?_
  simp only [Machine.onChain, Chain.frame?_truncate] at found
  split at found
  · rename_i below
    exact .inr ⟨f, found, rfl, Chain.view_truncate nested below (Chain.lt_size_of_frame? found)⟩
  · cases found

/-- A change to the frame on top, which declares nothing and so has nothing to remember. -/
theorem update (meet : m.MemosMeet P) (ready : Ready .effectless .own i m)
    (top : m.chain.size = i + 1) {change : Frame → Frame} (still : ∀ f, (change f).parent = f.parent)
    (lets : ∀ f, (change f).lets = f.lets) :
    (m.onChain fun c => c.update i change).MemosMeet P := by
  refine meet.transfer fun j g there => ?_
  have live : j < m.chain.size := by
    have := Chain.lt_size_of_frame? there
    rwa [Machine.onChain, Chain.size_update] at this
  simp only [Machine.onChain, Chain.frame?_update] at there
  split at there
  · rename_i here
    subst here
    obtain ⟨f, found, rfl⟩ := Option.map_eq_some_iff.mp there
    have bare : f.declared = [] := (ready.tame rfl).fits f found
    refine .inl fun name slot inside => ?_
    rw [lets] at inside
    have declared : Assoc.get? f.declared name = some slot.binding := by
      rw [Frame.declared, Assoc.get?_mapValues, inside]
      rfl
    rw [bare] at declared
    cases declared
  · exact .inr ⟨g, there, rfl, Chain.view_update_below ready.nested (by omega) live still⟩

variable {o : Nat} {b : Binding} {v : Evaluated}

/-- A value that meets the condition is remembered. -/
theorem storeMemo (meet : m.MemosMeet P)
    (keeps : Keeps .effectless .shared o m (Evaluation.storeMemo .afterScope o b v m))
    (nested : m.chain.Nested) (declares : Declares m o b) (meets : P (m.chain.view o) b v) :
    (Evaluation.storeMemo .afterScope o b v m).MemosMeet P := by
  intro j f name slot u found there memo
  have live : j < m.chain.size := by
    rw [← keeps.size]
    exact Chain.lt_size_of_frame? found
  rw [keeps.view rfl nested live]
  simp only [Evaluation.storeMemo, Machine.onChain, Chain.storeMemo, Chain.frame?_update] at found
  split at found
  · rename_i here
    subst here
    obtain ⟨g, foundBefore, rfl⟩ := Option.map_eq_some_iff.mp found
    simp only [Assoc.get?_modify] at there
    split at there
    · obtain ⟨before, thereBefore, rfl⟩ := Option.map_eq_some_iff.mp there
      cases memo
      simp only [declares.slot foundBefore thereBefore]
      exact meets
    · exact meet j g name slot u foundBefore there memo
  · exact meet j f name slot u found there memo

/-- What is remembered of a declared let-binding. -/
theorem memo (meet : m.MemosMeet P) (declares : Declares m o b)
    (found : m.chain.memo? o b.name = some v) : P (m.chain.view o) b v := by
  obtain ⟨f, frame, memo⟩ := Option.bind_eq_some_iff.mp found
  obtain ⟨slot, there, kept⟩ := Option.bind_eq_some_iff.mp memo
  have meets := meet o f b.name slot v frame there kept
  rw [declares.slot frame there] at meets
  exact meets

end Machine.MemosMeet

/-! ## Pairs -/

/-- Some run with nothing remembered computes this value of a let-binding in this view. -/
def Known (timing : Timing) (view : List Outline) (b : Binding) (v : Evaluated) : Prop :=
  ∃ left i m, Ready .effectless .shared i m ∧ m.settings.reset = .always ∧
    m.settings.timing = timing ∧ m.chain.view i = view ∧
    Quiet (Evaluation.compute (.marked left) i b) m ∧
    (Evaluation.compute (.marked left) i b m).1 = .ok v

/-- All that a machine remembers is known. -/
def Remembers (m : Machine) : Prop :=
  ∀ j f name slot v, m.chain.frame? j = some f → Assoc.get? f.lets name = some slot →
    slot.memo = some v → Known m.settings.timing (m.chain.view j) slot.binding v

theorem Remembers.meet (known : Remembers m) : m.MemosMeet (Known m.settings.timing) :=
  known

/-- What is known stays so as long as the timing does. -/
theorem Machine.MemosMeet.remembers (meet : n.MemosMeet (Known m.settings.timing))
    (timing : n.settings.timing = m.settings.timing) : Remembers n := by
  intro j f name slot v found there memo
  rw [timing]
  exact meet j f name slot v found there memo

structure Paired (policy : ResetPolicy) (μ : Mode) (i : Nat) (m : Machine) (i' : Nat)
    (m' : Machine) : Prop where
  ready : Ready .effectless μ i m
  readyToo : Ready .effectless μ i' m'
  reset : m.settings.reset = policy
  always : m'.settings.reset = .always
  timing : m.settings.timing = m'.settings.timing
  view : m.chain.view i = m'.chain.view i'
  top : μ = .own → m.chain.size = i + 1
  memos : policy = .afterScope → Remembers m

variable {policy : ResetPolicy}

namespace Paired

/-- What leaves the frames alone leaves a pair. -/
theorem of_same (paired : Paired policy μ i m i' m') (chain : n.chain = m.chain)
    (settings : n.settings = m.settings) (chainToo : n'.chain = m'.chain)
    (settingsToo : n'.settings = m'.settings) (ready : Ready .effectless μ i n)
    (readyToo : Ready .effectless μ i' n') : Paired policy μ i n i' n' := by
  refine ⟨ready, readyToo, by rw [settings, paired.reset], by rw [settingsToo, paired.always],
    by rw [settings, settingsToo, paired.timing], by rw [chain, chainToo, paired.view],
    fun own => by rw [chain, paired.top own], fun remembering => ?_⟩
  exact ((paired.memos remembering).meet.of_same chain).remembers (by rw [settings])

/-- Frames that show the same in a pair. -/
theorem shared (paired : Paired policy μ i m i' m') {o o' : Nat} (live : o < m.chain.size)
    (liveToo : o' < m'.chain.size) (view : m.chain.view o = m'.chain.view o') :
    Paired policy .shared o m o' m' :=
  ⟨paired.ready.shared live, paired.readyToo.shared liveToo, paired.reset, paired.always,
    paired.timing, view, nofun, paired.memos⟩

/-- A new frame on both sides. -/
theorem grown (paired : Paired policy μ i m i' m') (grown : Grown i m n) (grownToo : Grown i' m' n')
    (ready : Ready .effectless ν m.chain.size n) (readyToo : Ready .effectless ν m'.chain.size n')
    {f f' : Frame} (found : n.chain.frame? m.chain.size = some f)
    (foundToo : n'.chain.frame? m'.chain.size = some f') (outline : f.outline = f'.outline)
    (bare : ∀ name slot, Assoc.get? f.lets name = some slot → slot.memo = none) :
    Paired policy ν m.chain.size n m'.chain.size n' := by
  refine ⟨ready, readyToo, by rw [grown.settings, paired.reset],
    by rw [grownToo.settings, paired.always],
    by rw [grown.settings, grownToo.settings, paired.timing], ?_, fun _ => grown.size,
    fun remembering => ?_⟩
  · rw [grown.view_top paired.ready.nested paired.ready.live found,
      grownToo.view_top paired.readyToo.nested paired.readyToo.live foundToo, outline, paired.view]
  · exact ((paired.memos remembering).meet.grown paired.ready grown found bare).remembers
      (by rw [grown.settings])

/-- The new frame goes on both sides. -/
theorem shrunk (paired : Paired policy μ i m i' m') (grown : Grown i m n)
    (grownToo : Grown i' m' n') (keeps : Keeps .effectless ν m.chain.size n k)
    (keepsToo : Keeps .effectless ν m'.chain.size n' k')
    (after : Paired policy ν m.chain.size k m'.chain.size k') :
    Paired policy μ i (k.onChain fun c => c.truncate m.chain.size) i'
      (k'.onChain fun c => c.truncate m'.chain.size) := by
  obtain ⟨ready, readyToo⟩ := And.intro paired.ready paired.readyToo
  have kept : Keeps .effectless .shared i m (k.onChain fun c => c.truncate m.chain.size) :=
    keeps.within ready.nested ready.live grown
  have keptToo : Keeps .effectless .shared i' m' (k'.onChain fun c => c.truncate m'.chain.size) :=
    keepsToo.within readyToo.nested readyToo.live grownToo
  refine ⟨ready.truncate grown keeps after.ready, readyToo.truncate grownToo keepsToo after.readyToo,
    by rw [kept.reset, paired.reset], by rw [keptToo.reset, paired.always],
    by rw [kept.timing, keptToo.timing, paired.timing], ?_, ?_, fun remembering => ?_⟩
  · rw [kept.view rfl ready.nested ready.live, keptToo.view rfl readyToo.nested readyToo.live,
      paired.view]
  · intro own
    rw [kept.size, paired.top own]
  · exact ((after.memos remembering).meet.truncate after.ready.nested _).remembers rfl

/-- A change to a frame of one's own, on both sides. -/
theorem update (paired : Paired policy .own i m i' m') {change change' : Frame → Frame}
    (still : ∀ f, (change f).parent = f.parent) (stillToo : ∀ f, (change' f).parent = f.parent)
    (lets : ∀ f, (change f).lets = f.lets)
    (alike : ∀ f f', f.outline = f'.outline → (change f).outline = (change' f').outline)
    (ready : Ready .effectless .own i (m.onChain fun c => c.update i change))
    (readyToo : Ready .effectless .own i' (m'.onChain fun c => c.update i' change')) :
    Paired policy .own i (m.onChain fun c => c.update i change) i'
      (m'.onChain fun c => c.update i' change') := by
  obtain ⟨f, found⟩ := Chain.exists_frame? paired.ready.live
  obtain ⟨f', foundToo⟩ := Chain.exists_frame? paired.readyToo.live
  have nested := paired.ready.nested
  have view := paired.view
  refine ⟨ready, readyToo, paired.reset, paired.always, paired.timing, ?_,
    fun own => (Chain.size_update m.chain i change).trans (paired.top own), fun remembering => ?_⟩
  · change (m.chain.update i change).view i = (m'.chain.update i' change').view i'
    rw [Chain.view_update_self nested found still,
      Chain.view_update_self paired.readyToo.nested foundToo stillToo, view]
    rw [Chain.view_cons nested found, Chain.view_cons paired.readyToo.nested foundToo] at view
    rw [alike f f' (List.cons.inj view).1]
  · exact ((paired.memos remembering).meet.update paired.ready (paired.top rfl) still
      lets).remembers rfl

end Paired

end TreeQuery
