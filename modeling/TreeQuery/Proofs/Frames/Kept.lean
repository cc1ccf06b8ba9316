import TreeQuery.Proofs.Chain
import TreeQuery.Proofs.Lockstep.Rules

/-!
# What a computation keeps of the frames

A computation that belongs to a frame leaves the frames that were there before it as they were, up
to a few things: memos and handled flags of the frame and of those it is nested in, and what it sets
in the frame itself if that is its own. `Keeps` says so for the machines before and after, and holds
of every step a computation can take: for a frame of its own it is enough to look at what happens
above (`Keeps.within`), and computing a binding counts as done by the frame that declares it
(`Keeps.inward`).

Where effects are ruled out, a computation also finds only values without functions and streams, and
leaves no others (`Tame`).
-/

set_option autoImplicit false

namespace TreeQuery

/-- The let-bindings that a frame declares, by name. -/
def Frame.declared (f : Frame) : Assoc String Binding :=
  Assoc.mapValues LetSlot.binding f.lets

/-! ## Memos -/

namespace Assoc

variable {κ α : Type} [DecidableEq κ]

theorem insert_of_get? {m : Assoc κ α} {key : κ} {v : α} (found : get? m key = some v) :
    insert m key v = m := by
  induction m with
  | nil => cases found
  | cons entry rest ih =>
      obtain ⟨k, u⟩ := entry
      rw [get?] at found
      split at found
      · rename_i here
        cases found
        rw [insert, if_pos here, here]
      · rename_i apart
        rw [insert, if_neg apart, ih found]

theorem get?_modify (m : Assoc κ α) (key other : κ) (f : α → α) :
    get? (modify m key f) other = if key = other then (get? m key).map f else get? m other := by
  unfold modify
  cases found : get? m key with
  | none =>
      by_cases same : key = other
      · subst same
        simp [found]
      · simp [same]
  | some v => simp [get?_insert]

theorem mapValues_modify {β : Type} {g : α → β} {f : α → α} (blind : ∀ v, g (f v) = g v)
    (m : Assoc κ α) (key : κ) : mapValues g (modify m key f) = mapValues g m := by
  unfold modify
  cases found : get? m key with
  | none => rfl
  | some v =>
      have there : get? (mapValues g m) key = some (g v) := by rw [get?_mapValues, found]; rfl
      simp only [← insert_mapValues, blind]
      exact insert_of_get? there

end Assoc

/-- Remembering a value does not change what a frame declares. -/
theorem Frame.declared_storeMemo (f : Frame) (name : String) (v : Evaluated) :
    Frame.declared { f with
      lets := Assoc.modify f.lets name fun slot => { slot with memo := some v } } = f.declared := by
  have blind : ∀ slot : LetSlot,
      LetSlot.binding { slot with memo := some v } = slot.binding := fun _ => rfl
  exact Assoc.mapValues_modify blind f.lets name

/-! ## Before and after -/

/-- Whether a computation may set what the frame at a position holds. -/
def Mode.Owns (μ : Mode) (i j : Nat) : Prop :=
  μ = .own ∧ j = i

/-- The frame at `j`, before and after a computation that belongs to the frame at `i`. -/
structure Frame.Kept (S : Setting) (μ : Mode) (c : Chain) (i j : Nat) (f f' : Frame) : Prop where
  kind : f'.kind = f.kind
  parent : f'.parent = f.parent
  declared : f'.declared = f.declared
  values : ¬ μ.Owns i j → f'.values = f.values
  cursor : ¬ μ.Owns i j → f'.cursor = f.cursor
  memos : j ∉ c.ancestors i → f'.lets = f.lets
  handled : ¬ μ.Owns i j → (S.plain = true ∨ j ∉ c.ancestors i ∨ f.kind ≠ .handler) →
    f'.handled = f.handled

/-- The machines before and after a computation that belongs to the frame at `i`. -/
structure Keeps (S : Setting) (μ : Mode) (i : Nat) (m m' : Machine) : Prop where
  size : m'.chain.size = m.chain.size
  depth : m'.depth = m.depth
  reset : m'.settings.reset = m.settings.reset
  timing : m'.settings.timing = m.settings.timing
  maxDepth : m.settings.maxDepth ≤ m'.settings.maxDepth
  unmarked : S.marks = false → m'.settings.maxDepth = m.settings.maxDepth
  frame : ∀ j f, m.chain.frame? j = some f →
    ∃ f', m'.chain.frame? j = some f' ∧ f.Kept S μ m.chain i j f'

variable {S : Setting} {μ : Mode} {i : Nat} {m m' m'' : Machine}

theorem Frame.Kept.refl (c : Chain) (j : Nat) (f : Frame) : f.Kept S μ c i j f :=
  ⟨rfl, rfl, rfl, fun _ => rfl, fun _ => rfl, fun _ => rfl, fun _ _ => rfl⟩

namespace Keeps

/-- What leaves the frames and the settings alone keeps them. -/
theorem of_same (chain : m'.chain = m.chain) (settings : m'.settings = m.settings)
    (depth : m'.depth = m.depth) : Keeps S μ i m m' := by
  refine ⟨by rw [chain], depth, by rw [settings], by rw [settings], Nat.le_of_eq (by rw [settings]),
    fun _ => by rw [settings], fun j f found => ⟨f, ?_, .refl m.chain j f⟩⟩
  rw [chain, found]

theorem refl (m : Machine) : Keeps S μ i m m :=
  of_same rfl rfl rfl

theorem parent? (keeps : Keeps S μ i m m') (j : Nat) : m'.chain.parent? j = m.chain.parent? j := by
  cases found : m.chain.frame? j with
  | none =>
      have dead := Chain.frame?_eq_none_iff.mp found
      have deadToo : m'.chain.frame? j = none :=
        Chain.frame?_eq_none_iff.mpr (by rw [keeps.size]; exact dead)
      simp [Chain.parent?, found, deadToo]
  | some f =>
      obtain ⟨f', foundToo, kept⟩ := keeps.frame j f found
      rw [Chain.parent?_of_frame? found, Chain.parent?_of_frame? foundToo, kept.parent]

theorem nested (keeps : Keeps S μ i m m') (before : m.chain.Nested) : m'.chain.Nested := by
  intro j p isParent
  rw [keeps.parent?] at isParent
  exact before j p isParent

theorem ancestors (keeps : Keeps S μ i m m') (before : m.chain.Nested) (j : Nat) :
    m'.chain.ancestors j = m.chain.ancestors j := by
  by_cases live : j < m.chain.size
  · exact Chain.ancestors_congr (keeps.nested before) before (by rw [keeps.size]; exact live) live
      fun k _ => keeps.parent? k
  · have dead := Chain.frame?_eq_none_iff.mpr (Nat.le_of_not_lt live)
    have deadToo : m'.chain.frame? j = none :=
      Chain.frame?_eq_none_iff.mpr (by rw [keeps.size]; exact Nat.le_of_not_lt live)
    simp [Chain.ancestors, dead, deadToo]

theorem trans (nested : m.chain.Nested) (first : Keeps S μ i m m') (second : Keeps S μ i m' m'') :
    Keeps S μ i m m'' := by
  refine ⟨second.size.trans first.size, second.depth.trans first.depth,
    second.reset.trans first.reset, second.timing.trans first.timing,
    Nat.le_trans first.maxDepth second.maxDepth,
    fun quiet => (second.unmarked quiet).trans (first.unmarked quiet), fun j f found => ?_⟩
  obtain ⟨f', found', before⟩ := first.frame j f found
  obtain ⟨f'', found'', after⟩ := second.frame j f' found'
  have same := first.ancestors nested i
  refine ⟨f'', found'', ⟨after.kind.trans before.kind, after.parent.trans before.parent,
    after.declared.trans before.declared, fun notOwn => ?_, fun notOwn => ?_, fun apart => ?_,
    fun notOwn cause => ?_⟩⟩
  · exact (after.values notOwn).trans (before.values notOwn)
  · exact (after.cursor notOwn).trans (before.cursor notOwn)
  · exact (after.memos (by rw [same]; exact apart)).trans (before.memos apart)
  · refine (after.handled notOwn ?_).trans (before.handled notOwn cause)
    rw [same, before.kind]
    exact cause

/-- A change to a frame that the computation may make. -/
theorem update {k : Nat} {change : Frame → Frame}
    (kept : ∀ f, m.chain.frame? k = some f → f.Kept S μ m.chain i k (change f)) :
    Keeps S μ i m (m.onChain fun c => c.update k change) := by
  refine ⟨by simp [Machine.onChain], rfl, rfl, rfl, Nat.le_refl _, fun _ => rfl,
    fun j f found => ?_⟩
  by_cases here : j = k
  · subst here
    refine ⟨change f, ?_, kept f found⟩
    simp [Machine.onChain, Chain.frame?_update, found]
  · refine ⟨f, ?_, .refl m.chain j f⟩
    simp [Machine.onChain, Chain.frame?_update, here, found]

/-- What a frame computes counts as done by the frames nested in it. -/
theorem inward {o : Nat} (nested : m.chain.Nested) (member : o ∈ m.chain.ancestors i)
    (keeps : Keeps S .shared o m m') : Keeps S μ i m m' := by
  refine ⟨keeps.size, keeps.depth, keeps.reset, keeps.timing, keeps.maxDepth, keeps.unmarked,
    fun j f found => ?_⟩
  obtain ⟨f', found', kept⟩ := keeps.frame j f found
  have inside := Chain.ancestors_subset nested member
  have shared : ¬ Mode.shared.Owns o j := fun owns => by cases owns.1
  refine ⟨f', found', ⟨kept.kind, kept.parent, kept.declared, fun _ => kept.values shared,
    fun _ => kept.cursor shared, fun apart => kept.memos fun there => apart (inside there),
    fun _ cause => kept.handled shared ?_⟩⟩
  exact cause.imp_right (Or.imp_left fun apart there => apart (inside there))

end Keeps

/-! ## A new frame on top -/

/-- A machine with one more frame on top, nested in the frame at `i`. -/
structure Grown (i : Nat) (m m' : Machine) : Prop where
  size : m'.chain.size = m.chain.size + 1
  below : ∀ j, j < m.chain.size → m'.chain.frame? j = m.chain.frame? j
  parent : m'.chain.parent? m.chain.size = some i
  settings : m'.settings = m.settings
  depth : m'.depth = m.depth
  configs : m'.configs = m.configs

namespace Grown

theorem push (m : Machine) (kind : FrameKind) (i : Nat) :
    Grown i m (m.onChain fun c => c.push kind (some i)) := by
  refine ⟨by simp [Machine.onChain], fun j below => ?_, ?_, rfl, rfl, rfl⟩
  · simp only [Machine.onChain, Chain.frame?_push, if_neg (Nat.ne_of_lt below)]
  · simp only [Machine.onChain, Chain.parent?_push, if_true]

/-- A change to the frame on top that does not move it. -/
theorem update (grown : Grown i m m') {change : Frame → Frame}
    (still : ∀ f, (change f).parent = f.parent) :
    Grown i m (m'.onChain fun c => c.update m.chain.size change) := by
  refine ⟨by simp [Machine.onChain, grown.size], fun j below => ?_, ?_, grown.settings, grown.depth,
    grown.configs⟩
  · simp only [Machine.onChain, Chain.frame?_update, if_neg (Nat.ne_of_lt below)]
    exact grown.below j below
  · simp only [Machine.onChain, Chain.parent?_update _ _ still]
    exact grown.parent

theorem nested (grown : Grown i m m') (before : m.chain.Nested) (live : i < m.chain.size) :
    m'.chain.Nested := by
  intro j p isParent
  by_cases below : j < m.chain.size
  · refine before j p ?_
    rw [Chain.parent?, ← grown.below j below]
    exact isParent
  · have inside : j < m'.chain.size := by
      refine Nat.lt_of_not_le fun dead => ?_
      simp [Chain.parent?, Chain.frame?_eq_none_iff.mpr dead] at isParent
    have top : j = m.chain.size := by
      have := grown.size
      omega
    subst top
    cases grown.parent.symm.trans isParent
    exact live

theorem ancestors (grown : Grown i m m') (before : m.chain.Nested) (live : i < m.chain.size) :
    m'.chain.ancestors m.chain.size = m.chain.size :: m.chain.ancestors i := by
  refine Chain.ancestors_top before (grown.nested before live) live grown.size (fun j below => ?_)
    grown.parent
  rw [Chain.parent?, grown.below j below, Chain.parent?]

end Grown

/-- Whatever is done in a frame on top is gone with it, but for what it keeps below. -/
theorem Keeps.within {ν : Mode} (nested : m.chain.Nested) (live : i < m.chain.size)
    (grown : Grown i m m') (keeps : Keeps S ν m.chain.size m' m'') :
    Keeps S μ i m (m''.onChain fun c => c.truncate m.chain.size) := by
  have size : m''.chain.size = m.chain.size + 1 := by rw [keeps.size, grown.size]
  refine ⟨Chain.size_truncate (by omega), keeps.depth.trans grown.depth, ?_, ?_, ?_, fun quiet => ?_,
    fun j f found => ?_⟩
  · exact keeps.reset.trans (by rw [grown.settings])
  · exact keeps.timing.trans (by rw [grown.settings])
  · rw [← grown.settings]
    exact keeps.maxDepth
  · rw [← grown.settings]
    exact keeps.unmarked quiet
  · have below := Chain.lt_size_of_frame? found
    obtain ⟨f', found', kept⟩ := keeps.frame j f (by rw [grown.below j below, found])
    have notOwn : ¬ ν.Owns m.chain.size j := fun owns => by
      have := owns.2
      omega
    have apart : j ∉ m.chain.ancestors i → j ∉ m'.chain.ancestors m.chain.size := by
      intro outside
      rw [grown.ancestors nested live]
      simp only [List.mem_cons, not_or]
      exact ⟨by omega, outside⟩
    refine ⟨f', ?_, ⟨kept.kind, kept.parent, kept.declared, fun _ => kept.values notOwn,
      fun _ => kept.cursor notOwn, fun outside => kept.memos (apart outside),
      fun _ cause => kept.handled notOwn (cause.imp_right (Or.imp_left apart))⟩⟩
    simp only [Machine.onChain, Chain.frame?_truncate, below, if_true]
    exact found'

/-! ## Machines that hold only what may occur -/

/-- A frame that holds only values, and declares only bindings, that may occur. -/
structure Frame.Tame (S : Setting) (f : Frame) : Prop where
  values : ∀ name v, Assoc.get? f.values name = some v → v.translate S.test = v
  cursor : ∀ a, f.cursor = some a → a.translate S.test = a
  named : ∀ name slot, Assoc.get? f.lets name = some slot → slot.binding.name = name
  allowed : ∀ name slot, Assoc.get? f.lets name = some slot → S.AllowsBinding slot.binding
  memos : ∀ name slot v, Assoc.get? f.lets name = some slot → slot.memo = some v →
    v.translate S.test = v

theorem Frame.Tame.of_declared {f : Frame} (tame : f.Tame S) {name : String} {b : Binding}
    (declared : Assoc.get? f.declared name = some b) : b.name = name ∧ S.AllowsBinding b := by
  rw [Frame.declared, Assoc.get?_mapValues] at declared
  obtain ⟨slot, there, rfl⟩ := Option.map_eq_some_iff.mp declared
  exact ⟨tame.named name slot there, tame.allowed name slot there⟩

/-- What a mode says of what the frame declares. -/
def Mode.Fits : Mode → Assoc String Binding → Prop
  | .shared, _ => True
  | .own, declared => declared = []
  | .letting bindings, declared => ∀ b ∈ bindings, Assoc.get? declared b.name = some b

structure Tame (S : Setting) (μ : Mode) (i : Nat) (m : Machine) : Prop where
  frame : ∀ j f, m.chain.frame? j = some f → f.Tame S
  fits : ∀ f, m.chain.frame? i = some f → μ.Fits f.declared
  configs : ∀ id config, Assoc.get? m.configs id = some config →
    config = ⟨m.settings.reset, m.settings.timing, Overrides.none⟩
  policy : m.settings.reset = .afterScope ∨ m.settings.reset = .always

/-- A machine in which a computation that belongs to a frame may start. -/
structure Ready (S : Setting) (μ : Mode) (i : Nat) (m : Machine) : Prop where
  nested : m.chain.Nested
  live : i < m.chain.size
  tame : S.plain = true → Tame S μ i m

namespace Ready

/-- A machine is ready after a computation if it was before, and holds nothing that may not
occur. -/
theorem of_keeps (ready : Ready S μ i m) (keeps : Keeps S μ i m m')
    (frames : S.plain = true → ∀ j f, m'.chain.frame? j = some f → f.Tame S)
    (configs : S.plain = true → ∀ id config, Assoc.get? m'.configs id = some config →
      config = ⟨m.settings.reset, m.settings.timing, Overrides.none⟩) : Ready S μ i m' := by
  refine ⟨keeps.nested ready.nested, by rw [keeps.size]; exact ready.live, fun plain => ?_⟩
  have tame := ready.tame plain
  refine ⟨frames plain, fun f' found' => ?_, fun id config found => ?_, ?_⟩
  · obtain ⟨f, found⟩ := Chain.exists_frame? ready.live
    obtain ⟨f'', found'', kept⟩ := keeps.frame i f found
    cases found'.symm.trans found''
    rw [kept.declared]
    exact tame.fits f found
  · rw [configs plain id config found, keeps.reset, keeps.timing]
  · rw [keeps.reset]
    exact tame.policy

/-- What leaves the frames alone leaves the machine ready. -/
theorem of_same (ready : Ready S μ i m) (chain : m'.chain = m.chain)
    (settings : m'.settings = m.settings) (depth : m'.depth = m.depth)
    (configs : m'.configs = m.configs) : Ready S μ i m' := by
  refine ready.of_keeps (.of_same chain settings depth) (fun plain j f found => ?_)
    fun plain id config found => ?_
  · rw [chain] at found
    exact (ready.tame plain).frame j f found
  · rw [configs] at found
    exact (ready.tame plain).configs id config found

/-- A frame may be looked at by everyone. -/
theorem shared {o : Nat} (ready : Ready S μ i m) (live : o < m.chain.size) :
    Ready S .shared o m :=
  ⟨ready.nested, live, fun plain =>
    ⟨(ready.tame plain).frame, fun _ _ => trivial, (ready.tame plain).configs,
      (ready.tame plain).policy⟩⟩

/-- A machine that is ready for a frame after a computation there is ready for the frames nested in
it. -/
theorem inward {o : Nat} (ready : Ready S μ i m) (member : o ∈ m.chain.ancestors i)
    (keeps : Keeps S .shared o m m') (after : Ready S .shared o m') : Ready S μ i m' := by
  refine ready.of_keeps (keeps.inward ready.nested member) (fun plain => (after.tame plain).frame)
    fun plain id config found => ?_
  rw [(after.tame plain).configs id config found, keeps.reset, keeps.timing]

/-- A change to a frame that leaves it tame. -/
theorem update (ready : Ready S μ i m) {k : Nat} {change : Frame → Frame}
    (kept : ∀ f, m.chain.frame? k = some f → f.Kept S μ m.chain i k (change f))
    (tame : S.plain = true → ∀ f, m.chain.frame? k = some f → f.Tame S → (change f).Tame S) :
    Ready S μ i (m.onChain fun c => c.update k change) := by
  refine ready.of_keeps (.update kept) (fun plain j f found => ?_)
    fun plain => (ready.tame plain).configs
  simp only [Machine.onChain, Chain.frame?_update] at found
  split at found
  · rename_i here
    subst here
    obtain ⟨before, foundBefore, rfl⟩ := Option.map_eq_some_iff.mp found
    exact tame plain before foundBefore ((ready.tame plain).frame j before foundBefore)
  · exact (ready.tame plain).frame j f found

/-- A new frame on top, which holds nothing. -/
theorem push (ready : Ready S μ i m) (kind : FrameKind) :
    Ready S .own m.chain.size (m.onChain fun c => c.push kind (some i)) := by
  refine ⟨ready.nested.push (by simpa using ready.live) kind, by simp [Machine.onChain],
    fun plain => ⟨fun j f found => ?_, fun f found => ?_, (ready.tame plain).configs,
      (ready.tame plain).policy⟩⟩
  · simp only [Machine.onChain, Chain.frame?_push] at found
    split at found
    · cases found
      exact ⟨by simp [Assoc.get?], by simp, by simp [Assoc.get?], by simp [Assoc.get?],
        by simp [Assoc.get?]⟩
    · exact (ready.tame plain).frame j f found
  · simp only [Machine.onChain, Chain.frame?_push, if_true] at found
    cases found
    rfl

/-- The machine after the frame on top is dropped. -/
theorem truncate {ν : Mode} (ready : Ready S μ i m) (grown : Grown i m m')
    (keeps : Keeps S ν m.chain.size m' m'') (after : Ready S ν m.chain.size m'') :
    Ready S μ i (m''.onChain fun c => c.truncate m.chain.size) := by
  refine ready.of_keeps (keeps.within ready.nested ready.live grown) (fun plain j f found => ?_)
    fun plain id config found => ?_
  · simp only [Machine.onChain, Chain.frame?_truncate] at found
    split at found
    · exact (after.tame plain).frame j f found
    · cases found
  · rw [(after.tame plain).configs id config found, keeps.reset, keeps.timing, grown.settings]

end Ready

end TreeQuery
