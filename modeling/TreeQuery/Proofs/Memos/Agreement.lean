import TreeQuery.Proofs.Memos.Pairs

/-!
# Computations that agree with and without memos

`Agree` compares two computations on a pair of machines, of which the first may remember the values
of let-bindings. First both compute everything anew: what a computation comes to is then determined
by what it sees (`determined`). Hence a value that is known for a let-binding is the one that
computing it anew gives, and a machine that remembers comes to the same as one that does not
(`AgreeAt.memoized`). Each rule of `Alike` keeps agreement (`Alike.agree`), and so does evaluation
(`AgreeRunner.of_determined`).
-/

set_option autoImplicit false

namespace TreeQuery

structure AgreeAt (policy : ResetPolicy) (left left' : Nat) (μ : Mode) (i i' : Nat) {α : Type}
    (R : α → α → Prop) (x x' : Runner → Eval α) (m m' : Machine) : Prop where
  outcome : Setting.effectless.Matches R (x (.marked left) m).1 (x' (.marked left') m').1
  paired : Paired policy μ i (x (.marked left) m).2 i' (x' (.marked left') m').2

/-- Two computations that come to the same on every pair of machines if neither is out of depth. -/
def Agree (policy : ResetPolicy) (left left' : Nat) (μ : Mode) (i i' : Nat) {α : Type}
    (R : α → α → Prop) (x x' : Runner → Eval α) : Prop :=
  ∀ m m', Paired policy μ i m i' m' → Quiet (x (.marked left)) m → Quiet (x' (.marked left')) m' →
    AgreeAt policy left left' μ i i' R x x' m m'

/-- What is sound without effects, with marks. -/
abbrev Steady (left : Nat) (μ : Mode) (i : Nat) {α : Type} (R : α → α → Prop)
    (x : Runner → Eval α) : Prop :=
  Sound .effectless (.marked left) (.marked left) μ i R x

variable {policy : ResetPolicy} {left left' : Nat} {μ : Mode} {i i' : Nat} {α β : Type}
  {R T : α → α → Prop} {Q U : β → β → Prop} {x x' : Runner → Eval α} {m m' : Machine}

theorem Alike.steady (alike : Alike .effectless μ i i' R x x') (left : Nat) :
    Steady left μ i R x :=
  alike.sound rfl (.marked rfl (.basic ..) rfl left)

theorem Alike.steadyToo (alike : Alike .effectless μ i i' R x x') (left : Nat) :
    Steady left μ i' (fun a a' => R a' a) x' :=
  alike.symm.sound rfl (.marked rfl (.basic ..) rfl left)

/-- A value that may occur is related to itself. -/
theorem Setting.Ends.self {act : Translation → α → α} (identity : ∀ a, act .identity a = a) {a : α}
    (ends : Setting.effectless.Ends (Setting.effectless.Related act) (.ok a)) :
    Setting.effectless.Related act a a := by
  obtain ⟨a', related⟩ := ends
  cases related.eq identity
  exact related

/-- A value on the first side is the value on the second. -/
theorem Setting.Matches.of_ok {act : Translation → α → α} (identity : ∀ a, act .identity a = a)
    {a : α} {o : Except Signal α}
    (outcome : Setting.effectless.Matches (Setting.effectless.Related act) (.ok a) o) :
    o = .ok a ∧ Setting.effectless.Related act a a := by
  cases outcome with
  | ok related =>
      cases related.eq identity
      exact ⟨rfl, related⟩

theorem Setting.Matches.eq {act : Translation → α → α} (identity : ∀ a, act .identity a = a)
    {o o' : Except Signal α}
    (outcome : Setting.effectless.Matches (Setting.effectless.Related act) o o') : o = o' :=
  (outcome.eq_of_verbatim (Setting.image_identity rfl rfl) identity).symm

/-- A run that goes on like another one, on both sides. -/
theorem AgreeAt.of_runs {y z : Runner → Eval α} {n n' : Machine}
    (run : x (.marked left) m = y (.marked left) n)
    (runToo : x' (.marked left') m' = z (.marked left') n')
    (agree : AgreeAt policy left left' μ i i' R y z n n') :
    AgreeAt policy left left' μ i i' R x x' m m' := by
  refine ⟨?_, ?_⟩
  · rw [run, runToo]
    exact agree.outcome
  · rw [run, runToo]
    exact agree.paired

namespace Agree

/-! ## Steps in sequence -/

/-- Marks are never taken back, so both parts of a quiet run are quiet. -/
theorem catching {f f' : Except Signal α → Runner → Eval β} (steady : Steady left μ i R x)
    (steadyToo : Steady left' μ i' T x')
    (onwards : ∀ o, Setting.effectless.Ends R o → Steady left μ i Q (f o))
    (onwardsToo : ∀ o, Setting.effectless.Ends T o → Steady left' μ i' U (f' o))
    (first : Agree policy left left' μ i i' R x x')
    (next : ∀ o o', Setting.effectless.Matches R o o' →
      Agree policy left left' μ i i' Q (f o) (f' o')) :
    Agree policy left left' μ i i' Q (fun r => Eval.attempt (x r) >>= fun o => f o r)
      (fun r => Eval.attempt (x' r) >>= fun o => f' o r) := by
  intro m m' paired quiet quietToo
  have here := steady m paired.ready
  have there := steadyToo m' paired.readyToo
  have later := (onwards _ here.ends _ here.ready).keeps.maxDepth
  have laterToo := (onwardsToo _ there.ends _ there.ready).keeps.maxDepth
  simp only [Quiet, Eval.attempt_bind] at quiet quietToo
  rw [quiet] at later
  rw [quietToo] at laterToo
  have still : Quiet (x (.marked left)) m := Nat.le_antisymm later here.keeps.maxDepth
  have stillToo : Quiet (x' (.marked left')) m' := Nat.le_antisymm laterToo there.keeps.maxDepth
  obtain ⟨outcome, between⟩ := first m m' paired still stillToo
  have rest := next _ _ outcome _ _ between (quiet.trans still.symm) (quietToo.trans stillToo.symm)
  exact ⟨rest.outcome, rest.paired⟩

theorem bind {f f' : α → Runner → Eval β} (steady : Steady left μ i R x)
    (steadyToo : Steady left' μ i' T x') (onwards : ∀ a a', R a a' → Steady left μ i Q (f a))
    (onwardsToo : ∀ a a', T a a' → Steady left' μ i' U (f' a))
    (first : Agree policy left left' μ i i' R x x')
    (next : ∀ a a', R a a' → Agree policy left left' μ i i' Q (f a) (f' a')) :
    Agree policy left left' μ i i' Q (fun r => x r >>= fun a => f a r)
      (fun r => x' r >>= fun a => f' a r) := by
  have passes : ∀ (left : Nat) (i : Nat) (Q : β → β → Prop) s s', Setting.effectless.signal s s' →
      Steady left μ i Q (fun _ => throw s) := by
    intro left i Q s s' related m ready
    exact .steps rfl rfl (.refl m) ready ⟨s', related⟩
  rw [Eval.bind_eq_attempt_open x f, Eval.bind_eq_attempt_open x' f']
  refine catching (U := U) steady steadyToo (fun o ends => ends.elim onwards (passes left i Q))
    (fun o ends => ends.elim onwardsToo (passes left' i' U)) first fun o o' outcome => ?_
  cases outcome with
  | ok related => exact next _ _ related
  | error related => exact fun m m' paired _ _ => ⟨.error related, paired⟩

end Agree

/-- What agrees in frames that others are nested in agrees for these. -/
theorem AgreeAt.inward {o o' : Nat} (paired : Paired policy μ i m i' m')
    (member : o ∈ m.chain.ancestors i) (memberToo : o' ∈ m'.chain.ancestors i')
    (steady : SoundAt .effectless (.marked left) (.marked left) .shared o R x m)
    (steadyToo : SoundAt .effectless (.marked left') (.marked left') .shared o' T x' m')
    (agree : AgreeAt policy left left' .shared o o' R x x' m m') :
    AgreeAt policy left left' μ i i' R x x' m m' := by
  have nested := paired.ready.nested
  have nestedToo := paired.readyToo.nested
  refine ⟨agree.outcome, (steady.inward paired.ready member).ready,
    (steadyToo.inward paired.readyToo memberToo).ready, agree.paired.reset, agree.paired.always,
    agree.paired.timing, ?_, fun own => ?_, agree.paired.memos⟩
  · rw [steady.keeps.view rfl nested paired.ready.live,
      steadyToo.keeps.view rfl nestedToo paired.readyToo.live, paired.view]
  · rw [steady.keeps.size, paired.top own]

namespace Agree

theorem ofShared (steady : Steady left .shared i R x) (steadyToo : Steady left' .shared i' T x')
    (agree : Agree policy left left' .shared i i' R x x') :
    Agree policy left left' μ i i' R x x' := by
  intro m m' paired quiet quietToo
  have live := paired.ready.live
  have liveToo := paired.readyToo.live
  exact .inward paired (Chain.mem_ancestors_self live) (Chain.mem_ancestors_self liveToo)
    (steady m (paired.ready.shared live)) (steadyToo m' (paired.readyToo.shared liveToo))
    (agree m m' (paired.shared live liveToo paired.view) quiet quietToo)

/-! ## The frames -/

theorem current : Agree policy left left' μ i i' Setting.effectless.result
    (fun _ => Eval.ofChain fun c => c.current i) (fun _ => Eval.ofChain fun c => c.current i') := by
  intro m m' paired _ _
  have ends := (Sound.current (w := .marked left) (r := .marked left) m paired.ready).ends
  have same : m'.chain.current i' = m.chain.current i := Chain.current_of_view paired.view.symm
  refine ⟨.ok ?_, paired⟩
  simp only [same]
  exact Setting.Ends.self Evaluated.translate_identity ends

theorem cursor : Agree policy left left' μ i i' Setting.effectless.cursor
    (fun _ => Eval.ofChain fun c => c.cursor? i) (fun _ => Eval.ofChain fun c => c.cursor? i') := by
  intro m m' paired _ _
  have ends := (Sound.cursor (w := .marked left) (r := .marked left) m paired.ready).ends
  have same : m'.chain.cursor? i' = m.chain.cursor? i := Chain.cursor?_of_view paired.view.symm
  refine ⟨.ok ?_, paired⟩
  simp only [same]
  exact Setting.Ends.self Address.map_translate_identity ends

theorem isHandled : Agree policy left left' μ i i' Eq
    (fun _ => Eval.ofChain fun c => c.isHandled i)
    (fun _ => Eval.ofChain fun c => c.isHandled i') := by
  intro m m' paired _ _
  exact ⟨.ok (Chain.isHandled_of_view paired.ready.nested paired.readyToo.nested paired.ready.live
    paired.readyToo.live paired.view), paired⟩

/-- A change to a frame of one's own that shows the same on both sides. -/
theorem changes {change change' : Frame → Frame}
    (steady : Steady left .own i Eq (fun _ => Eval.onChain fun c => c.update i change))
    (steadyToo : Steady left' .own i' Eq (fun _ => Eval.onChain fun c => c.update i' change'))
    (still : ∀ f, (change f).parent = f.parent) (stillToo : ∀ f, (change' f).parent = f.parent)
    (lets : ∀ f, (change f).lets = f.lets)
    (alike : ∀ f f', f.outline = f'.outline → (change f).outline = (change' f').outline) :
    Agree policy left left' .own i i' Eq (fun _ => Eval.onChain fun c => c.update i change)
      (fun _ => Eval.onChain fun c => c.update i' change') := by
  intro m m' paired _ _
  exact ⟨.ok rfl, paired.update still stillToo lets alike (steady m paired.ready).ready
    (steadyToo m' paired.readyToo).ready⟩

/-- What agrees in a new frame on both sides, which goes afterwards, agrees below. -/
theorem framed {ν : Mode} {n n' : Machine} {y y' : Runner → Eval α}
    (paired : Paired policy μ i m i' m') (grown : Grown i m n) (grownToo : Grown i' m' n')
    (keeps : Keeps .effectless ν m.chain.size n (y (.marked left) n).2)
    (keepsToo : Keeps .effectless ν m'.chain.size n' (y' (.marked left') n').2)
    (run : x (.marked left) m = ((y (.marked left) n).1,
      (y (.marked left) n).2.onChain fun c => c.truncate m.chain.size))
    (runToo : x' (.marked left') m' = ((y' (.marked left') n').1,
      (y' (.marked left') n').2.onChain fun c => c.truncate m'.chain.size))
    (agree : AgreeAt policy left left' ν m.chain.size m'.chain.size R y y' n n') :
    AgreeAt policy left left' μ i i' R x x' m m' := by
  refine ⟨?_, ?_⟩
  · rw [run, runToo]
    exact agree.outcome
  · rw [run, runToo]
    exact paired.shrunk grown grownToo keeps keepsToo agree.paired

theorem within {kind : FrameKind} {x x' : Nat → Runner → Eval α}
    (steady : ∀ j, Steady left .own j R (x j)) (steadyToo : ∀ j, Steady left' .own j T (x' j))
    (body : ∀ j j', Agree policy left left' .own j j' R (x j) (x' j')) :
    Agree policy left left' μ i i' R (fun r => r.within kind i fun j => x j r)
      (fun r => r.within kind i' fun j => x' j r) := by
  intro m m' paired quiet quietToo
  have grown : Grown i m (m.onChain fun c => c.push kind (some i)) := .push m kind i
  have grownToo : Grown i' m' (m'.onChain fun c => c.push kind (some i')) := .push m' kind i'
  have ready := paired.ready.push kind
  have readyToo := paired.readyToo.push kind
  have inside := paired.grown grown grownToo ready readyToo (m.frame?_push kind i)
    (m'.frame?_push kind i') rfl (by simp [Assoc.get?])
  simp only [Quiet, Runner.marked_within, Eval.within_apply] at quiet quietToo
  exact framed paired grown grownToo (steady _ _ ready).keeps (steadyToo _ _ readyToo).keeps
    (Eval.within_apply kind i (x · (.marked left)) m)
    (Eval.within_apply kind i' (x' · (.marked left')) m')
    (body m.chain.size m'.chain.size _ _ inside quiet quietToo)

theorem letting {kind : FrameKind} {bindings : List Binding}
    (allowed : Setting.effectless.AllowsLet bindings) {x x' : Nat → Runner → Eval α}
    (steady : ∀ j, Steady left (.letting bindings) j R (x j))
    (steadyToo : ∀ j, Steady left' (.letting bindings) j T (x' j))
    (body : ∀ j j', Agree policy left left' (.letting bindings) j j' R (x j) (x' j')) :
    Agree policy left left' μ i i' R
      (fun r => r.within kind i fun j => do
        Evaluation.declareAll j bindings
        x j r)
      (fun r => r.within kind i' fun j => do
        Evaluation.declareAll j bindings
        x' j r) := by
  intro m m' paired quiet quietToo
  have grown := Grown.letFrame m kind i bindings
  have grownToo := Grown.letFrame m' kind i' bindings
  have ready := paired.ready.letFrame (.basic ..) kind allowed
  have readyToo := paired.readyToo.letFrame (.basic ..) kind allowed
  have inside := paired.grown grown grownToo ready readyToo
    (m.frame?_letFrame_top kind i bindings) (m'.frame?_letFrame_top kind i' bindings) rfl
    memo_declareIn
  simp only [Quiet, Runner.marked_within, Eval.letFrame_apply] at quiet quietToo
  exact framed paired grown grownToo (steady _ _ ready).keeps (steadyToo _ _ readyToo).keeps
    (Eval.letFrame_apply kind i bindings (x · (.marked left)) m)
    (Eval.letFrame_apply kind i' bindings (x' · (.marked left')) m')
    (body m.chain.size m'.chain.size _ _ inside quiet quietToo)

end Agree

/-! ## Let-bindings -/

/-- Without effects, the configuration of a let-binding is the default. -/
theorem Ready.letConfig (ready : Ready .effectless μ i m) {b : Binding} (bare : b.config = none)
    (o : Nat) : ∃ n, (∀ r, Evaluation.letConfig r b o m =
        (.ok ⟨m.settings.reset, m.settings.timing, Overrides.none⟩, n)) ∧
      n.chain = m.chain ∧ n.settings = m.settings ∧ Ready .effectless μ i n := by
  cases known : Assoc.get? m.configs b.id with
  | some config =>
      refine ⟨m, fun r => ?_, rfl, rfl, ready⟩
      rw [Evaluation.letConfig_known known, (ready.tame rfl).configs b.id config known]
  | none =>
      exact ⟨_, fun r => Evaluation.letConfig_default known bare, rfl, rfl,
        ready.settled fun _ => rfl⟩

/-- What a let-binding comes to is determined by what is seen. -/
def Determined : Prop :=
  ∀ b, Setting.effectless.AllowsBinding b → ∀ left left' o o',
    Agree .always left left' .shared o o' Setting.effectless.result
      (fun r => Evaluation.compute r o b) (fun r => Evaluation.compute r o' b)

/-- A known value is the one that computing anew gives. -/
theorem Determined.of_known (determined : Determined) {b : Binding}
    (allowed : Setting.effectless.AllowsBinding b) {o : Nat} {v : Evaluated}
    (known : Known m.settings.timing (m.chain.view o) b v) (ready : Ready .effectless .shared o m)
    (always : m.settings.reset = .always)
    (quiet : Quiet (Evaluation.compute (.marked left) o b) m) :
    (Evaluation.compute (.marked left) o b m).1 = .ok v ∧ Setting.effectless.result v v := by
  obtain ⟨other, j, n, readyThere, alwaysThere, timing, view, quietThere, outcome⟩ := known
  have paired : Paired .always .shared j n o m :=
    ⟨readyThere, ready, alwaysThere, always, timing, view, nofun, nofun⟩
  have agree := (determined b allowed other left j o n m paired quietThere quiet).outcome
  rw [outcome] at agree
  exact agree.of_ok Evaluated.translate_identity

/-- The frame declares the let-binding for as long as it is there. -/
theorem Declares.of_keeps {o : Nat} {b : Binding} (declares : Declares m o b)
    (keeps : Keeps .effectless .shared o m m') : Declares m' o b := by
  intro f' found'
  have live : o < m.chain.size := by
    rw [← keeps.size]
    exact Chain.lt_size_of_frame? found'
  obtain ⟨f, found⟩ := Chain.exists_frame? live
  obtain ⟨f'', found'', kept⟩ := keeps.frame o f found
  cases found'.symm.trans found''
  rw [kept.declared]
  exact declares f found

namespace Paired

/-- Only the second machine goes on. -/
theorem rightward {o o' : Nat} {n' : Machine} (paired : Paired policy .shared o m o' m')
    (keeps : Keeps .effectless .shared o' m' n') (ready : Ready .effectless .shared o' n') :
    Paired policy .shared o m o' n' := by
  refine ⟨paired.ready, ready, paired.reset, by rw [keeps.reset, paired.always],
    by rw [keeps.timing, paired.timing], ?_, nofun, paired.memos⟩
  rw [keeps.view rfl paired.readyToo.nested paired.readyToo.live, paired.view]

/-- A value that was computed on both sides may be remembered on the first. -/
theorem remember {o o' : Nat} {b : Binding} {v : Evaluated}
    (paired : Paired .afterScope .shared o m o' m') (declares : Declares m o b)
    (inert : v.translate .shift = v)
    (known : Known m.settings.timing (m.chain.view o) b v) :
    Paired .afterScope .shared o (Evaluation.storeMemo .afterScope o b v m) o' m' := by
  obtain ⟨keeps, ready⟩ :=
    Sound.storeMemo (S := .effectless) paired.ready .afterScope b fun _ => inert
  have nested := paired.ready.nested
  refine ⟨ready, paired.readyToo, paired.reset, paired.always, paired.timing, ?_, nofun,
    fun _ => ?_⟩
  · rw [keeps.view rfl nested paired.ready.live, paired.view]
  · exact ((paired.memos rfl).meet.storeMemo keeps nested declares known).remembers rfl

end Paired

namespace AgreeAt

variable {o o' : Nat} {b : Binding} {timing : Timing}

/-- What is remembered is what the other machine computes. -/
theorem remembered (determined : Determined) (allowed : Setting.effectless.AllowsBinding b)
    {T : Evaluated → Evaluated → Prop}
    (steadyToo : Steady left' .shared o' T fun r => Evaluation.compute r o' b)
    (paired : Paired .afterScope .shared o m o' m') (declares : Declares m o b)
    (quietToo : Quiet (Evaluation.compute (.marked left') o' b) m') {v : Evaluated}
    (found : m.chain.memo? o b.name = some v) :
    AgreeAt .afterScope left left' .shared o o' Setting.effectless.result
      (fun r => Evaluation.memoized r o b ⟨.afterScope, timing, Overrides.none⟩)
      (fun r => Evaluation.compute r o' b) m m' := by
  have run : Evaluation.memoized (.marked left) o b ⟨.afterScope, timing, Overrides.none⟩ m =
      (.ok v, m) := Evaluation.memoized_found found
  have known := (paired.memos rfl).meet.memo declares found
  rw [paired.timing, paired.view] at known
  obtain ⟨outcome, related⟩ :=
    determined.of_known allowed known paired.readyToo paired.always quietToo
  have after := steadyToo m' paired.readyToo
  refine ⟨?_, ?_⟩
  · rw [run, outcome]
    exact .ok related
  · rw [run]
    exact paired.rightward after.keeps after.ready

/-- What is not remembered is computed on both machines, and then remembered on the first. -/
theorem missing {R : Evaluated → Evaluated → Prop}
    (steady : Steady left .shared o R fun r => Evaluation.compute r o b)
    (compute : Agree .afterScope left left' .shared o o' Setting.effectless.result
      (fun r => Evaluation.compute r o b) (fun r => Evaluation.compute r o' b))
    (paired : Paired .afterScope .shared o m o' m') (declares : Declares m o b)
    (quiet : Quiet (Evaluation.memoized (.marked left) o b ⟨.afterScope, timing, Overrides.none⟩) m)
    (quietToo : Quiet (Evaluation.compute (.marked left') o' b) m')
    (nothing : m.chain.memo? o b.name = none) :
    AgreeAt .afterScope left left' .shared o o' Setting.effectless.result
      (fun r => Evaluation.memoized r o b ⟨.afterScope, timing, Overrides.none⟩)
      (fun r => Evaluation.compute r o' b) m m' := by
  have run : Evaluation.memoized (.marked left) o b ⟨.afterScope, timing, Overrides.none⟩ m =
      (Evaluation.compute (.marked left) o b >>=
        Evaluation.memoized.remember o b ⟨.afterScope, timing, Overrides.none⟩) m :=
    Evaluation.memoized_missing nothing
  have kept := (steady m paired.ready).keeps
  have agree := compute m m' paired
  rcases computed : Evaluation.compute (.marked left) o b m with ⟨s | v, n⟩
  · have whole := run.trans (Eval.bind_error computed)
    exact .of_runs (whole.trans computed.symm) rfl
      (agree (quiet.of_run (whole.trans computed.symm) rfl) quietToo)
  · have whole : Evaluation.memoized (.marked left) o b ⟨.afterScope, timing, Overrides.none⟩ m =
        (.ok v, Evaluation.storeMemo .afterScope o b v n) := run.trans (Eval.bind_ok computed)
    have still : Quiet (Evaluation.compute (.marked left) o b) m := by
      rw [Quiet, whole] at quiet
      rw [Quiet, computed]
      exact quiet
    obtain ⟨outcome, after⟩ := agree still quietToo
    simp only [computed] at outcome after kept
    obtain ⟨anew, related⟩ := outcome.of_ok Evaluated.translate_identity
    -- The second machine has just computed the value in the same view.
    have known : Known n.settings.timing (n.chain.view o) b v := by
      refine ⟨left', o', m', paired.readyToo, paired.always, ?_, ?_, quietToo, anew⟩
      · rw [kept.timing, paired.timing]
      · rw [kept.view rfl paired.ready.nested paired.ready.live, paired.view]
    refine ⟨?_, ?_⟩
    · rw [whole]
      exact outcome
    · rw [whole]
      exact after.remember (declares.of_keeps kept) (related.inert rfl) known

/-- **A let-binding that may be remembered comes to the same as one that is computed anew.** -/
theorem memoized {R T : Evaluated → Evaluated → Prop}
    (allowed : Setting.effectless.AllowsBinding b) (determined : policy = .afterScope → Determined)
    (steady : Steady left .shared o R fun r => Evaluation.compute r o b)
    (steadyToo : Steady left' .shared o' T fun r => Evaluation.compute r o' b)
    (compute : Agree policy left left' .shared o o' Setting.effectless.result
      (fun r => Evaluation.compute r o b) (fun r => Evaluation.compute r o' b))
    (paired : Paired policy .shared o m o' m') (declares : Declares m o b)
    (quiet : Quiet (Evaluation.memoized (.marked left) o b ⟨policy, timing, Overrides.none⟩) m)
    (quietToo : Quiet (Evaluation.compute (.marked left') o' b) m') :
    AgreeAt policy left left' .shared o o' Setting.effectless.result
      (fun r => Evaluation.memoized r o b ⟨policy, timing, Overrides.none⟩)
      (fun r => Evaluation.compute r o' b) m m' := by
  have policies := (paired.ready.tame rfl).policy
  rw [paired.reset] at policies
  rcases policies with rfl | rfl
  · cases found : m.chain.memo? o b.name with
    | some v => exact remembered (determined rfl) allowed steadyToo paired declares quietToo found
    | none => exact missing steady compute paired declares quiet quietToo found
  · simp only [Evaluation.memoized_always] at quiet ⊢
    exact compute m m' paired quiet quietToo

end AgreeAt

theorem AgreeAt.force {o o' : Nat} {b : Binding} (allowed : Setting.effectless.AllowsBinding b)
    (determined : policy = .afterScope → Determined)
    (alike : ∀ o o', Alike .effectless .shared o o' Setting.effectless.result
      (fun r => Evaluation.compute r o b) (fun r => Evaluation.compute r o' b))
    (compute : Agree policy left left' .shared o o' Setting.effectless.result
      (fun r => Evaluation.compute r o b) (fun r => Evaluation.compute r o' b))
    (paired : Paired policy .shared o m o' m') (declares : Declares m o b)
    (quiet : Quiet (Evaluation.force (.marked left) o b) m)
    (quietToo : Quiet (Evaluation.force (.marked left') o' b) m') :
    AgreeAt policy left left' .shared o o' Setting.effectless.result
      (fun r => Evaluation.force r o b) (fun r => Evaluation.force r o' b) m m' := by
  have bare := allowed.config (.basic ..) rfl
  obtain ⟨n, config, chain, settings, ready⟩ := paired.ready.letConfig bare o
  obtain ⟨n', configToo, chainToo, settingsToo, readyToo⟩ := paired.readyToo.letConfig bare o'
  rw [paired.reset] at config
  rw [paired.always] at configToo
  have run : Evaluation.force (.marked left) o b m =
      Evaluation.memoized (.marked left) o b ⟨policy, m.settings.timing, Overrides.none⟩ n :=
    Evaluation.force_settled (config _)
  have runToo : Evaluation.force (.marked left') o' b m' =
      Evaluation.compute (.marked left') o' b n' := by
    rw [Evaluation.force_settled (configToo _), Evaluation.memoized_always]
  refine .of_runs run runToo (.memoized allowed determined ((alike o o').steady left)
    ((alike o o').steadyToo left') compute
    (paired.of_same chain settings chainToo settingsToo ready readyToo) ?_
    (quiet.of_run run settings) (quietToo.of_run runToo settingsToo))
  intro f found
  rw [chain] at found
  exact declares f found

theorem forceSteady {o : Nat} {b : Binding} (allowed : Setting.effectless.AllowsBinding b)
    (alike : ∀ o o', Alike .effectless .shared o o' Setting.effectless.result
      (fun r => Evaluation.compute r o b) (fun r => Evaluation.compute r o' b)) :
    Steady left .shared o Setting.effectless.result fun r => Evaluation.force r o b :=
  .force (.marked rfl (.basic ..) rfl left) allowed ((alike o o).steady left)

namespace Agree

variable {bindings : List Binding} {b : Binding}

/-- A let-binding of the frame itself. -/
theorem forceOwn (member : b ∈ bindings) (allowed : Setting.effectless.AllowsBinding b)
    (determined : policy = .afterScope → Determined)
    (alike : ∀ o o', Alike .effectless .shared o o' Setting.effectless.result
      (fun r => Evaluation.compute r o b) (fun r => Evaluation.compute r o' b))
    (compute : Agree policy left left' .shared i i' Setting.effectless.result
      (fun r => Evaluation.compute r i b) (fun r => Evaluation.compute r i' b)) :
    Agree policy left left' (.letting bindings) i i' Setting.effectless.result
      (fun r => Evaluation.force r i b) (fun r => Evaluation.force r i' b) := by
  intro m m' paired quiet quietToo
  have live := paired.ready.live
  have liveToo := paired.readyToo.live
  have declares : Declares m i b := fun f found => (paired.ready.tame rfl).fits f found b member
  exact .inward paired (Chain.mem_ancestors_self live) (Chain.mem_ancestors_self liveToo)
    (forceSteady allowed alike m (paired.ready.shared live))
    (forceSteady allowed alike m' (paired.readyToo.shared liveToo))
    (.force allowed determined alike compute (paired.shared live liveToo paired.view) declares
      quiet quietToo)

theorem prefetch (member : b ∈ bindings) (determined : policy = .afterScope → Determined)
    (alike : ∀ o o', Alike .effectless .shared o o' Setting.effectless.result
      (fun r => Evaluation.compute r o b) (fun r => Evaluation.compute r o' b))
    (compute : Agree policy left left' .shared i i' Setting.effectless.result
      (fun r => Evaluation.compute r i b) (fun r => Evaluation.compute r i' b)) :
    Agree policy left left' (.letting bindings) i i' Eq (fun r => Evaluation.prefetch r i b)
      (fun r => Evaluation.prefetch r i' b) := by
  intro m m' paired quiet quietToo
  obtain ⟨f, found⟩ := Chain.exists_frame? paired.ready.live
  have declared := (paired.ready.tame rfl).fits f found b member
  have allowed := (((paired.ready.tame rfl).frame i f found).of_declared declared).2
  have bare := allowed.config (.basic ..) rfl
  obtain ⟨n, config, chain, settings, ready⟩ := paired.ready.letConfig bare i
  obtain ⟨n', configToo, chainToo, settingsToo, readyToo⟩ := paired.readyToo.letConfig bare i'
  rw [← paired.timing] at configToo
  have between := paired.of_same chain settings chainToo settingsToo ready readyToo
  have there := Evaluation.prefetch_settled (config (.marked left))
  have thereToo := Evaluation.prefetch_settled (configToo (.marked left'))
  by_cases eager : m.settings.timing = .eager
  · rw [if_pos eager] at there thereToo
    have forced : Agree policy left left' (.letting bindings) i i' Eq
        (fun r => Evaluation.force r i b >>= fun _ => Pure.pure ())
        (fun r => Evaluation.force r i' b >>= fun _ => Pure.pure ()) := by
      have done : ∀ (left i : Nat), Steady left (.letting bindings) i Eq (fun _ => Pure.pure ()) :=
        fun left i m ready => .reads ready rfl rfl ⟨(), rfl⟩
      exact bind (.ofShared (forceSteady allowed alike)) (.ofShared (forceSteady allowed alike))
        (fun _ _ _ => done left i) (fun _ _ _ => done left' i')
        (forceOwn member allowed determined alike compute)
        fun _ _ _ m m' paired _ _ => ⟨.ok rfl, paired⟩
    exact .of_runs there thereToo (forced n n' between (quiet.of_run there settings)
      (quietToo.of_run thereToo settingsToo))
  · rw [if_neg eager] at there thereToo
    exact .of_runs (y := fun _ => Pure.pure ()) (z := fun _ => Pure.pure ()) there thereToo
      ⟨.ok rfl, between⟩

theorem named (name : String) (determined : policy = .afterScope → Determined)
    (steady : Steady left μ i Setting.effectless.result fun r => Evaluation.nameRef r name i)
    (alike : ∀ o o' b, Setting.effectless.AllowsBinding b →
      Alike .effectless .shared o o' Setting.effectless.result
        (fun r => Evaluation.compute r o b) (fun r => Evaluation.compute r o' b))
    (compute : ∀ o o' b, Setting.effectless.AllowsBinding b →
      Agree policy left left' .shared o o' Setting.effectless.result
        (fun r => Evaluation.compute r o b) (fun r => Evaluation.compute r o' b)) :
    Agree policy left left' μ i i' Setting.effectless.result (fun r => Evaluation.nameRef r name i)
      (fun r => Evaluation.nameRef r name i') := by
  intro m m' paired quiet quietToo
  have nested := paired.ready.nested
  have nestedToo := paired.readyToo.nested
  have alongside := Chain.resolve?_of_view nested nestedToo paired.ready.live paired.readyToo.live
    paired.view name
  have ends := (steady m paired.ready).ends
  have run := Evaluation.nameRef_apply (.marked left) name i m
  have runToo := Evaluation.nameRef_apply (.marked left') name i' m'
  generalize m.chain.resolve? i name = found at alongside run
  generalize m'.chain.resolve? i' name = foundToo at alongside runToo
  cases alongside with
  | unknown =>
      exact .of_runs (y := fun _ => Pure.pure (.plain .empty))
        (z := fun _ => Pure.pure (.plain .empty)) run runToo ⟨.ok (.const fun _ => rfl), paired⟩
  | value v =>
      simp only [run] at ends
      exact .of_runs (y := fun _ => Pure.pure v) (z := fun _ => Pure.pure v) run runToo
        ⟨.ok (Setting.Ends.self Evaluated.translate_identity ends), paired⟩
  | @binding o o' b member memberToo declared same =>
      have live := Chain.lt_of_mem_ancestors nested member
      have liveToo := Chain.lt_of_mem_ancestors nestedToo memberToo
      obtain ⟨f, frame⟩ := Chain.exists_frame? live
      obtain ⟨rfl, allowed⟩ :=
        ((paired.ready.tame rfl).frame o f frame).of_declared (declared f frame)
      have both := fun o o' => alike o o' b allowed
      refine .of_runs (y := fun r => Evaluation.force r o b) (z := fun r => Evaluation.force r o' b)
        run runToo ?_
      exact .inward paired member memberToo
        (forceSteady allowed both m (paired.ready.shared live))
        (forceSteady allowed both m' (paired.readyToo.shared liveToo))
        (.force allowed determined both (compute o o' b allowed)
          (paired.shared live liveToo same) declared (quiet.of_run run rfl)
          (quietToo.of_run runToo rfl))

end Agree

/-! ## Evaluation -/

/-- Evaluation agrees in frames that see the same. -/
def AgreeRunner (policy : ResetPolicy) (left left' : Nat) : Prop :=
  ∀ e, Setting.effectless.Allows e → ∀ i i',
    Agree policy left left' .shared i i' Setting.effectless.result (fun r => r e i)
      (fun r => r e i')

/-- **Whatever the rules allow agrees.** -/
theorem Alike.agree (determined : policy = .afterScope → Determined)
    (runner : AgreeRunner policy left left') (alike : Alike .effectless μ i i' R x x') :
    Agree policy left left' μ i i' R x x' := by
  have bare : ∀ b : Binding, b.trim true = b := Binding.trim_true
  have strict : Setting.effectless.Strict := .basic ..
  induction alike with
  | pure related => exact fun m m' paired _ _ => ⟨.ok related, paired⟩
  | throw related => exact fun m m' paired _ _ => ⟨.error related, paired⟩
  | bind first next ihFirst ihNext =>
      exact .bind (first.steady left) (first.steadyToo left')
        (fun a a' related => (next a a' related).steady left)
        (fun a' a related => (next a a' related).steadyToo left') ihFirst ihNext
  | @catching μ i i' α β R Q x x' f f' first returned signalled passed passedToo ihFirst
      ihReturned ihSignalled =>
      refine .catching (Q := Q) (U := fun a a' => Q a' a) (first.steady left)
        (first.steadyToo left') (fun o ends => ?_) (fun o ends => ?_) ihFirst fun o o' outcome => ?_
      · cases o with
        | ok a =>
            obtain ⟨a', related⟩ := ends
            exact (returned a a' related).steady left
        | error s =>
            obtain ⟨s', related⟩ := ends
            exact (signalled s s' related).steady left
      · cases o with
        | ok a' =>
            obtain ⟨a, related⟩ := ends
            exact (returned a a' related).steadyToo left'
        | error s' =>
            obtain ⟨s, related⟩ := ends
            exact (signalled s s' (related.symm Signal.translate_identity)).steadyToo left'
      · cases outcome with
        | ok related => exact ihReturned _ _ related
        | error related => exact ihSignalled _ _ related
  | @run μ i i' e allowed =>
      have one : Alike .effectless .shared i i' _ (fun r => r e i) _ := .run allowed
      rw [Expr.trim_true] at one ⊢
      exact .ofShared (one.steady left) (one.steadyToo left') (runner e allowed i i')
  | current => exact .current
  | cursor => exact .cursor
  | isHandled => exact .isHandled
  | setCursor related =>
      cases related.eq Address.translate_identity
      exact .changes (.setCursor related) (.setCursor related) (fun _ => rfl) (fun _ => rfl)
        (fun _ => rfl) fun _ _ same => Frame.outline_cursor same _
  | setValue name related =>
      cases related.eq Evaluated.translate_identity
      exact .changes (.setValue name related) (.setValue name related) (fun _ => rfl) (fun _ => rfl)
        (fun _ => rfl) fun _ _ same => Frame.outline_values same name _
  | setHandled flag =>
      exact .changes (.setHandled flag) (.setHandled flag) (fun _ => rfl) (fun _ => rfl)
        (fun _ => rfl) fun _ _ same => Frame.outline_handled same flag
  | within kind handlers body ih =>
      exact .within (fun j => (body j j).steady left) (fun j => (body j j).steadyToo left') ih
  | @letting μ i i' α R x x' kind handlers bindings allowed body ih =>
      have same : bindings.map (Binding.trim true) = bindings := by
        rw [← Binding.trimList_eq, Binding.trimList_true]
      rw [same]
      exact .letting allowed (fun j => (body j j).steady left)
        (fun j => (body j j).steadyToo left') ih
  | unguarded h dropped => cases dropped
  | @prefetch i i' bindings b member allowed compute ih =>
      rw [bare] at compute ih ⊢
      exact .prefetch member determined compute (ih i i')
  | @named μ i i' name allowed compute ih =>
      have whole : Alike .effectless μ i i' _ _ _ := .named allowed compute
      refine .named name determined (whole.steady left) (fun o o' b allowed => ?_)
        fun o o' b allowed => ?_
      · have one := compute o o' b allowed
        rw [bare] at one
        exact one
      · have one := ih o o' b allowed
        rw [bare] at one
        exact one
  | once function => cases strict.effects_of_lambda function
  | makeLambda d allowed => cases strict.effects_of allowed id
  | drain source => cases strict.effects_of_stream source
  | deliver allowed => cases strict.effects_of allowed id
  | withStore allowed => cases strict.effects_of allowed fun free => free.1 rfl
  | markHandled allowed => cases strict.effects_of allowed fun free => free.2.2 rfl

theorem Agree.deeper (agree : Agree policy left left' μ i i' R x x') :
    Agree policy left left' μ i i' R (fun r => Eval.deeper (x r))
      (fun r => Eval.deeper (x' r)) := by
  intro m m' paired quiet quietToo
  have entered : Paired policy μ i { m with depth := m.depth + 1 } i'
      { m' with depth := m'.depth + 1 } :=
    paired.of_same rfl rfl rfl rfl (paired.ready.atDepth _) (paired.readyToo.atDepth _)
  obtain ⟨outcome, after⟩ := agree _ _ entered quiet quietToo
  exact ⟨outcome, after.of_same rfl rfl rfl rfl (after.ready.atDepth _) (after.readyToo.atDepth _)⟩

theorem AgreeRunner.of_determined (determined : policy = .afterScope → Determined)
    (left left' : Nat) : AgreeRunner policy left left' := by
  have marks : ∀ e i m, ¬ Quiet ((Runner.marked 0).eval e i) m := by
    intro e i m quiet
    rw [Quiet, Runner.marked_zero] at quiet
    exact Nat.succ_ne_self _ quiet
  induction left generalizing left' with
  | zero => exact fun e allowed i i' m m' paired quiet _ => absurd quiet (marks e i m)
  | succ left ih =>
      intro e allowed i i' m m' paired quiet quietToo
      cases left' with
      | zero => exact absurd quietToo (marks e i' m')
      | succ left' =>
          have alike : Alike .effectless .shared i i' _ (fun r => Evaluation.node r e i) _ :=
            .node allowed
          rw [Expr.trim_true] at alike
          simp only [Runner.marked_succ] at quiet quietToo
          obtain ⟨outcome, after⟩ :=
            (alike.agree determined (ih left')).deeper m m' paired quiet quietToo
          refine ⟨?_, ?_⟩
          · simp only [Runner.marked_succ]
            exact outcome
          · simp only [Runner.marked_succ]
            exact after

/-- **Without memos, what is seen determines what a let-binding comes to.** -/
theorem determined : Determined := by
  intro b allowed left left' o o'
  have alike : Alike .effectless .shared o o' _ (fun r => Evaluation.compute r o b) _ :=
    .compute allowed
  rw [Binding.trim_true] at alike
  have anew : ResetPolicy.always = .afterScope → Determined := fun same => by cases same
  exact alike.agree anew (.of_determined anew left left')

end TreeQuery
