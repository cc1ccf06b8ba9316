import TreeQuery.Proofs.Capture.Beside

/-!
# Runs beside each other

A computation does the same on a machine that has one more frame in which nothing is nested. Both
runs end in the same value or signal, and leave machines that differ in that frame only
(`Alike.abreast`). The depth that is counted on the machines plays no part, so they may be at
different depths.
-/

set_option autoImplicit false

namespace TreeQuery

/-- The second machine has one more frame, at position `s`, and may be at another depth. -/
inductive Machine.Beside (s : Nat) (m : Machine) : Machine → Prop
  | intro {c : Chain} (depth : Nat) (chain : m.chain.Beside s c) :
      m.Beside s { m with chain := c, depth }

/-- Two runs with the same outcome, up to a relation of results, on machines beside each other. -/
structure AbreastAt (s : Nat) (r : Runner) {α : Type} (R : α → α → Prop) (x x' : Runner → Eval α)
    (m m' : Machine) : Prop where
  outcome : Setting.whole.Matches R (x r m).1 (x' r m').1
  after : (x r m).2.Beside s (x' r m').2

def Abreast (s : Nat) (r : Runner) (μ : Mode) (i : Nat) {α : Type} (R : α → α → Prop)
    (x x' : Runner → Eval α) : Prop :=
  ∀ m m', Ready .whole μ i m → m.Beside s m' → AbreastAt s r R x x' m m'

structure AbreastRunner (s : Nat) (r : Runner) : Prop where
  sound : SoundRunner .whole r r
  eval : ∀ e i, Abreast s r .shared i Setting.whole.result (fun r => r e i) (fun r => r e (past s i))

variable {s : Nat} {r : Runner} {μ : Mode} {i : Nat} {m m' n n' : Machine} {α β : Type}
  {R : α → α → Prop} {Q : β → β → Prop} {x x' : Runner → Eval α}

namespace Machine.Beside

theorem chain (beside : m.Beside s m') : m.chain.Beside s m'.chain := by
  cases beside with
  | intro depth chain => exact chain

theorem onChain (beside : m.Beside s m') {f f' : Chain → Chain}
    (changed : (f m.chain).Beside s (f' m'.chain)) :
    (m.onChain f).Beside s (m'.onChain f') := by
  cases beside with
  | intro depth chain => exact .intro depth changed

theorem push (beside : m.Beside s m') (kind : FrameKind) (i : Nat) :
    (m.onChain fun c => c.push kind (some i)).Beside s
      (m'.onChain fun c => c.push kind (some (past s i))) :=
  beside.onChain (f := fun c => c.push kind (some i)) (beside.chain.push kind i)

theorem update (beside : m.Beside s m') (i : Nat) {change : Frame → Frame}
    (blind : ∀ f, change (f.past s) = (change f).past s) :
    (m.onChain fun c => c.update i change).Beside s
      (m'.onChain fun c => c.update (past s i) change) :=
  beside.onChain (f := fun c => c.update i change) (beside.chain.update i blind)

theorem atDepth (beside : m.Beside s m') (depth depth' : Nat) :
    Machine.Beside s { m with depth } { m' with depth := depth' } := by
  cases beside with
  | intro depth chain => exact .intro depth' chain

theorem settled (beside : m.Beside s m') (b : Binding) (config : BindingConfig) :
    (Evaluation.settled b config m).Beside s (Evaluation.settled b config m') := by
  cases beside with
  | intro depth chain => exact .intro depth chain

theorem memo? (beside : m.Beside s m') (reset : ResetPolicy) (owner : Nat) (b : Binding) :
    Evaluation.memo? reset (past s owner) b m' = Evaluation.memo? reset owner b m := by
  cases beside with
  | intro depth chain =>
      cases reset with
      | afterScope => exact chain.memo? owner b.name
      | afterQuery | never | always => rfl

theorem storeMemo (beside : m.Beside s m') (reset : ResetPolicy) (owner : Nat) (b : Binding)
    (v : Evaluated) : (Evaluation.storeMemo reset owner b v m).Beside s
      (Evaluation.storeMemo reset (past s owner) b v m') := by
  cases reset with
  | afterScope => exact beside.update owner fun _ => rfl
  | afterQuery | never | always =>
      cases beside with
      | intro depth chain => exact .intro depth chain

theorem letFrame (beside : m.Beside s m') (kind : FrameKind) (i : Nat) (bindings : List Binding) :
    (m.letFrame kind i bindings).Beside s (m'.letFrame kind (past s i) bindings) := by
  have opened : (m.letFrame kind i bindings).Beside s
      ((m'.onChain fun c => c.push kind (some (past s i))).onChain fun c =>
        c.update (past s m.chain.size) fun f => { f with lets := declareIn f.lets bindings }) :=
    (beside.push kind i).update m.chain.size fun _ => rfl
  rw [← beside.chain.next] at opened
  exact opened

end Machine.Beside

/-! ## What is the same on both sides -/

namespace Setting

variable {act : Translation → α → α} {a a' : α}

theorem whole_refl (identity : ∀ a, act .identity a = a) (a : α) : Setting.whole.Related act a a := by
  refine ⟨?_, nofun⟩
  rw [Setting.image_identity rfl rfl, identity]

theorem whole_eq (identity : ∀ a, act .identity a = a) (related : Setting.whole.Related act a a') :
    a' = a := by
  rw [related.image, Setting.image_identity rfl rfl, identity]

theorem whole_result (v : Evaluated) : Setting.whole.result v v :=
  whole_refl Evaluated.translate_identity v

theorem whole_fault (f : Fault) : Setting.whole.signal (.fault f) (.fault f) :=
  whole_refl Signal.translate_identity _

theorem Matches.eq_whole {o o' : Except Signal Evaluated}
    (outcome : Setting.whole.Matches Setting.whole.result o o') : o' = o :=
  outcome.eq_of_verbatim (Setting.image_identity rfl rfl) Evaluated.translate_identity

end Setting

namespace AbreastAt

theorem of_runs {o o' : Except Signal α} (run : x r m = (o, n)) (runToo : x' r m' = (o', n'))
    (outcome : Setting.whole.Matches R o o') (after : n.Beside s n') :
    AbreastAt s r R x x' m m' := by
  refine ⟨?_, ?_⟩
  · rw [run, runToo]
    exact outcome
  · rw [run, runToo]
    exact after

/-- Runs that go on like others. -/
theorem of_abreast {y y' : Runner → Eval α} (run : x r m = y r n) (runToo : x' r m' = y' r n')
    (abreast : AbreastAt s r R y y' n n') : AbreastAt s r R x x' m m' := by
  refine ⟨?_, ?_⟩
  · rw [run, runToo]
    exact abreast.outcome
  · rw [run, runToo]
    exact abreast.after

theorem catching {f f' : Except Signal α → Runner → Eval β}
    (next : AbreastAt s r Q (f (x r m).1) (f' (x' r m').1) (x r m).2 (x' r m').2) :
    AbreastAt s r Q (fun r => Eval.attempt (x r) >>= fun o => f o r)
      (fun r => Eval.attempt (x' r) >>= fun o => f' o r) m m' :=
  of_abreast (Eval.attempt_bind _) (Eval.attempt_bind _) next

theorem bind {f g : α → Runner → Eval β} (first : AbreastAt s r R x x' m m')
    (next : ∀ a a', R a a' → ∀ n', (x r m).2.Beside s n' →
      AbreastAt s r Q (f a) (g a') (x r m).2 n') :
    AbreastAt s r Q (fun r => x r >>= fun a => f a r) (fun r => x' r >>= fun a => g a r) m m' := by
  rw [Eval.bind_eq_attempt_open x f, Eval.bind_eq_attempt_open x' g]
  obtain ⟨outcome, after⟩ := first
  refine catching ?_
  generalize (x r m).1 = o, (x' r m').1 = o' at outcome ⊢
  cases outcome with
  | ok related => exact next _ _ related _ after
  | error related => exact of_runs rfl rfl (.error related) after

/-- What happens in a new frame on top of both. -/
theorem framed {y y' : Runner → Eval α} (beside : m.Beside s m')
    (inside : AbreastAt s r R y y' n n') (size : (y r n).2.chain.size = m.chain.size + 1)
    (run : x r m = ((y r n).1, (y r n).2.onChain fun c => c.truncate m.chain.size))
    (runToo : x' r m' = ((y' r n').1, (y' r n').2.onChain fun c => c.truncate m'.chain.size)) :
    AbreastAt s r R x x' m m' := by
  refine of_runs run runToo inside.outcome (inside.after.onChain ?_)
  rw [beside.chain.size]
  exact inside.after.chain.truncate beside.chain.inside (by omega)

end AbreastAt

namespace Abreast

theorem ofShared (abreast : Abreast s r .shared i R x x') : Abreast s r μ i R x x' :=
  fun m m' ready beside => abreast m m' (ready.shared ready.live) beside

/-! ## The frames -/

/-- A computation that only looks. -/
theorem reads {f f' : Chain → α}
    (related : ∀ c c' : Chain, c.Nested → c.Beside s c' → R (f c) (f' c')) :
    Abreast s r μ i R (fun _ => Eval.ofChain f) (fun _ => Eval.ofChain f') :=
  fun m m' ready beside =>
    .of_runs rfl rfl (.ok (related m.chain m'.chain ready.nested beside.chain)) beside

/-- A change to the frames. -/
theorem changes {f f' : Chain → Chain}
    (changed : ∀ c c' : Chain, c.Beside s c' → (f c).Beside s (f' c')) :
    Abreast s r μ i Eq (fun _ => Eval.onChain f) (fun _ => Eval.onChain f') :=
  fun _ _ _ beside => .of_runs rfl rfl (.ok rfl) (beside.onChain (changed _ _ beside.chain))

theorem within (runner : AbreastRunner s r) {kind : FrameKind} {x x' : Nat → Runner → Eval α}
    (sound : ∀ j, Sound .whole r r .own j R (x j))
    (body : ∀ j, Abreast s r .own j R (x j) (x' (past s j))) :
    Abreast s r μ i R (fun r => r.within kind i fun j => x j r)
      (fun r => r.within kind (past s i) fun j => x' j r) := by
  intro m m' ready beside
  have inside := body m.chain.size _ _ (ready.push kind) (beside.push kind i)
  have size := (sound m.chain.size _ (ready.push kind)).keeps.size
  rw [← beside.chain.next] at inside
  refine .framed beside inside (size.trans (Chain.size_push ..)) ?_ ?_
  · rw [runner.sound.opens]
    exact Eval.within_apply kind i _ m
  · rw [runner.sound.opens]
    exact Eval.within_apply kind (past s i) _ m'

theorem letting (runner : AbreastRunner s r) {kind : FrameKind} {bindings : List Binding}
    {x x' : Nat → Runner → Eval α} (sound : ∀ j, Sound .whole r r (.letting bindings) j R (x j))
    (body : ∀ j, Abreast s r (.letting bindings) j R (x j) (x' (past s j))) :
    Abreast s r μ i R
      (fun r => r.within kind i fun j => do
        Evaluation.declareAll j bindings
        x j r)
      (fun r => r.within kind (past s i) fun j => do
        Evaluation.declareAll j bindings
        x' j r) := by
  intro m m' ready beside
  have readyInside : Ready .whole (.letting bindings) m.chain.size (m.letFrame kind i bindings) :=
    ready.letFrame (.basic ..) kind (nofun : Setting.whole.AllowsLet bindings)
  have inside := body m.chain.size _ _ readyInside (beside.letFrame kind i bindings)
  have size := (sound m.chain.size _ readyInside).keeps.size
  rw [← beside.chain.next] at inside
  refine .framed beside inside (size.trans (Grown.letFrame m kind i bindings).size) ?_ ?_
  · rw [runner.sound.opens]
    exact Eval.letFrame_apply kind i bindings (fun j => x j r) m
  · rw [runner.sound.opens]
    exact Eval.letFrame_apply kind (past s i) bindings (fun j => x' j r) m'

/-! ## Let-bindings -/

theorem settle (b : Binding) {v v' : Evaluated} (related : Setting.whole.result v v')
    (beside : n.Beside s n') :
    AbreastAt s r Eq (fun _ => Evaluation.settle b v) (fun _ => Evaluation.settle b v') n n' := by
  have settings : n'.settings = n.settings := by
    cases beside
    rfl
  have same := Setting.whole_eq Evaluated.translate_identity related
  cases settled : Evaluation.configOf n.settings v.value with
  | ok config =>
      have run : Evaluation.settle b v n = (.ok config, Evaluation.settled b config n) := by
        simp only [Evaluation.settle, settled]
      have runToo : Evaluation.settle b v' n' = (.ok config, Evaluation.settled b config n') := by
        simp only [Evaluation.settle, settings, same, settled]
      exact .of_runs run runToo (.ok rfl) (beside.settled b config)
  | error e =>
      have run : Evaluation.settle b v n = (.error (.fault e.toFault), n) := by
        simp only [Evaluation.settle, settled]
      have runToo : Evaluation.settle b v' n' = (.error (.fault e.toFault), n') := by
        simp only [Evaluation.settle, settings, same, settled]
      exact .of_runs run runToo (.error (Setting.whole_fault _)) beside

theorem letConfig (runner : AbreastRunner s r) (b : Binding) :
    Abreast s r .shared i Eq (fun r => Evaluation.letConfig r b i)
      (fun r => Evaluation.letConfig r b (past s i)) := by
  intro m m' ready beside
  have configs : m'.configs = m.configs := by
    cases beside
    rfl
  have settings : m'.settings = m.settings := by
    cases beside
    rfl
  cases known : Assoc.get? m.configs b.id with
  | some config =>
      have knownToo := known
      rw [← configs] at knownToo
      exact .of_runs (Evaluation.letConfig_known known) (Evaluation.letConfig_known knownToo) (.ok rfl)
        beside
  | none =>
      have knownToo := known
      rw [← configs] at knownToo
      cases given : b.config with
      | none =>
          have runToo := Evaluation.letConfig_default (r := r) (i := past s i) knownToo given
          rw [settings] at runToo
          exact .of_runs (Evaluation.letConfig_default known given) runToo (.ok rfl)
            (beside.settled b _)
      | some e =>
          exact .of_abreast (Evaluation.letConfig_computed known given)
            (Evaluation.letConfig_computed knownToo given)
            ((runner.eval e i m m' ready beside).bind (f := fun v _ => Evaluation.settle b v)
              (g := fun v _ => Evaluation.settle b v) fun v v' related n' after =>
                settle b related after)

theorem memoized {b : Binding} (compute : Abreast s r .shared i Setting.whole.result
      (fun r => Evaluation.compute r i b) (fun r => Evaluation.compute r (past s i) b))
    (config : BindingConfig) : Abreast s r .shared i Setting.whole.result
      (fun r => Evaluation.memoized r i b config)
      (fun r => Evaluation.memoized r (past s i) b config) := by
  intro m m' ready beside
  have lookup := beside.memo? config.reset i b
  cases found : Evaluation.memo? config.reset i b m with
  | some v =>
      rw [found] at lookup
      exact .of_runs (Evaluation.memoized_found found) (Evaluation.memoized_found lookup)
        (.ok (Setting.whole_result v)) beside
  | none =>
      rw [found] at lookup
      refine .of_abreast (Evaluation.memoized_missing found) (Evaluation.memoized_missing lookup)
        ((compute m m' ready beside).bind (f := fun v _ => Evaluation.memoized.remember i b config v)
          (g := fun v _ => Evaluation.memoized.remember (past s i) b config v)
          fun v v' related n' after => ?_)
      cases Setting.whole_eq Evaluated.translate_identity related
      exact .of_runs rfl rfl (.ok (Setting.whole_result _)) (after.storeMemo config.reset i b _)

theorem force (runner : AbreastRunner s r) {b : Binding}
    (compute : Abreast s r .shared i Setting.whole.result
      (fun r => Evaluation.compute r i b) (fun r => Evaluation.compute r (past s i) b)) :
    Abreast s r .shared i Setting.whole.result (fun r => Evaluation.force r i b)
      (fun r => Evaluation.force r (past s i) b) := by
  intro m m' ready beside
  simp only [Evaluation.force_eq]
  refine (letConfig runner b m m' ready beside).bind ?_
  rintro config _ rfl n' after
  refine memoized compute config _ n' ?_ after
  exact (Sound.letConfig runner.sound (nofun : Setting.whole.AllowsBinding b) m ready).ready

theorem prefetch (runner : AbreastRunner s r) {b : Binding}
    (compute : Abreast s r .shared i Setting.whole.result
      (fun r => Evaluation.compute r i b) (fun r => Evaluation.compute r (past s i) b)) :
    Abreast s r .shared i Eq (fun r => Evaluation.prefetch r i b)
      (fun r => Evaluation.prefetch r (past s i) b) := by
  intro m m' ready beside
  have readyNext :=
    (Sound.letConfig runner.sound (nofun : Setting.whole.AllowsBinding b) m ready).ready
  refine (letConfig runner b m m' ready beside).bind ?_
  rintro config _ rfl n' after
  by_cases eager : config.timing = .eager
  · simp only [eager, if_true]
    exact (force runner compute _ n' readyNext after).bind (f := fun _ _ => Pure.pure ())
      (g := fun _ _ => Pure.pure ()) fun _ _ _ _ after => .of_runs rfl rfl (.ok rfl) after
  · simp only [eager, if_false]
    exact .of_runs rfl rfl (.ok rfl) after

theorem named (runner : AbreastRunner s r) (name : String)
    (compute : ∀ o b, Abreast s r .shared o Setting.whole.result
      (fun r => Evaluation.compute r o b) (fun r => Evaluation.compute r (past s o) b)) :
    Abreast s r μ i Setting.whole.result (fun r => Evaluation.nameRef r name i)
      (fun r => Evaluation.nameRef r name (past s i)) := by
  intro m m' ready beside
  have run := Evaluation.nameRef_apply r name i m
  have runToo := Evaluation.nameRef_apply r name (past s i) m'
  rw [beside.chain.resolve? ready.nested] at runToo
  cases found : m.chain.resolve? i name with
  | none =>
      simp only [found, Option.map_none] at run runToo
      exact .of_runs run runToo (.ok (Setting.whole_result _)) beside
  | some resolved =>
      simp only [found, Option.map_some] at run runToo
      cases resolved with
      | value v => exact .of_runs run runToo (.ok (Setting.whole_result v)) beside
      | binding owner b =>
          obtain ⟨live, -⟩ := Chain.slot_of_resolve? ready.nested found
          exact .of_abreast run runToo
            (force runner (compute owner b) m m' (ready.shared live) beside)

/-! ## Effects -/

theorem once (id : Nat) {x x' : Runner → Eval Evaluated}
    (body : Abreast s r μ i Setting.whole.result x x') :
    Abreast s r μ i Setting.whole.result (fun r => Eval.once id (x r))
      (fun r => Eval.once id (x' r)) := by
  intro m m' ready beside
  have run := Eval.once_apply id (x r) m
  have runToo := Eval.once_apply id (x' r) m'
  have forced : m'.forced = m.forced := by
    cases beside
    rfl
  rw [forced] at runToo
  cases found : Assoc.get? m.forced id with
  | some done =>
      simp only [found] at run runToo
      exact .of_runs run runToo (.ok (Setting.whole_result done)) beside
  | none =>
      simp only [found] at run runToo
      refine .of_abreast run runToo ((body m m' ready beside).bind
        (f := fun v _ => Eval.keepForced id v) (g := fun v _ => Eval.keepForced id v)
        fun v v' related n' after => ?_)
      cases Setting.whole_eq Evaluated.translate_identity related
      cases after with
      | intro depth chain =>
          exact .of_runs rfl rfl (.ok (Setting.whole_result v)) (.intro depth chain)

theorem makeLambda (d : Definition) : Abreast s r μ i Setting.whole.result
    (fun _ => Evaluation.makeLambda d i) (fun _ => Evaluation.makeLambda d (past s i)) := by
  intro m m' ready beside
  have captured := beside.chain.visible ready.nested i
  cases beside with
  | @intro c depth chain =>
      have runToo : Evaluation.makeLambda d (past s i) { m with chain := c, depth } =
          (.ok (.plain (.lambda ⟨m.nextId, d, m.chain.visible i⟩)),
            { m with chain := c, depth, nextId := m.nextId + 1 }) := by
        rw [← captured]
        rfl
      exact .of_runs rfl runToo (.ok (Setting.whole_result _)) (.intro depth chain)

theorem drain (stream : Nat) : Abreast s r μ i Setting.whole.values (fun _ => Eval.drain stream)
    (fun _ => Eval.drain stream) := by
  intro m m' ready beside
  have identity : ∀ list : List Value, list.map (Value.translate .identity) = list := fun list => by
    rw [show Value.translate .identity = id from funext Value.translate_identity, List.map_id]
  cases beside with
  | intro depth chain =>
      exact .of_runs rfl rfl (.ok (Setting.whole_refl identity _)) (.intro depth chain)

theorem deliver (component : String) {v v' : Value} (related : Setting.whole.value v v') :
    Abreast s r μ i Setting.whole.value (fun _ => Eval.deliver component v)
      (fun _ => Eval.deliver component v') := by
  intro m m' ready beside
  cases Setting.whole_eq Value.translate_identity related
  have run := Eval.deliver_apply component v m
  have runToo := Eval.deliver_apply component v m'
  have outlets : m'.outlets = m.outlets := by
    cases beside
    rfl
  rw [outlets] at runToo
  cases found : Assoc.get? m.outlets component with
  | none =>
      simp only [found] at run runToo
      exact .of_runs run runToo (.error (Setting.whole_fault _)) beside
  | some outlet =>
      have buffer : m'.buffer outlet.buffer = m.buffer outlet.buffer := by
        cases beside
        rfl
      simp only [found, Machine.deliver, buffer] at run runToo
      refine .of_runs run runToo ?_ ?_
      · cases (outlet.component.produce (m.buffer outlet.buffer) v).1 with
        | error e => exact .error (Setting.whole_fault _)
        | ok answer => exact .ok (Setting.whole_refl Value.translate_identity answer)
      · cases beside with
        | intro depth chain => exact .intro depth chain

theorem withStore {act : Translation → α → α}
    {operation operation' : Nat → Store.Backend → Except StoreError α × Store.Backend}
    (library name : String) (related : ∀ n b, operation' n b =
      ((operation n b).1.map (act Setting.whole.image), (operation n b).2)) :
    Abreast s r μ i (Setting.whole.Related act)
      (fun _ => Evaluation.withStore operation library name)
      (fun _ => Evaluation.withStore operation' library name) := by
  intro m m' ready beside
  have run := Evaluation.withStore_apply operation library name m
  have runToo := Evaluation.withStore_apply operation' library name m'
  have stores : m'.store = m.store := by
    cases beside
    rfl
  rw [stores] at runToo
  cases found : m.store with
  | none =>
      simp only [found] at run runToo
      exact .of_runs run runToo (.error (Setting.whole_fault _)) beside
  | some store =>
      have after : ∀ backend, Machine.Beside s
          { m with store := some { store with backend } }
          { m' with store := some { store with backend } } := by
        cases beside with
        | intro depth chain => exact fun _ => .intro depth chain
      simp only [found, related] at run runToo
      rcases ran : operation store.attempts store.backend with ⟨_ | a, backend⟩
      · rw [ran] at run runToo
        exact .of_runs run runToo (.error (Setting.whole_fault _)) (after backend)
      · rw [ran] at run runToo
        exact .of_runs run runToo (.ok (.of_effects rfl a)) (after backend)

theorem markHandled (flag : Bool) : Abreast s r μ i Setting.whole.value
    (fun _ => Evaluation.markHandled i flag) (fun _ => Evaluation.markHandled (past s i) flag) := by
  intro m m' ready beside
  have run := Evaluation.markHandled_apply i flag m
  have runToo := Evaluation.markHandled_apply (past s i) flag m'
  rw [beside.chain.nearest? ready.nested] at runToo
  cases found : m.chain.nearest? i .handler with
  | none =>
      simp only [found, Option.map_none] at run runToo
      exact .of_runs run runToo (.error (Setting.whole_fault _)) beside
  | some j =>
      simp only [found, Option.map_some] at run runToo
      exact .of_runs run runToo (.ok (.const fun _ => rfl))
        (beside.update j fun _ => rfl)

end Abreast

/-- **Whatever the rules allow does the same on machines beside each other.** -/
theorem Alike.abreast (runner : AbreastRunner s r) {i' : Nat}
    (alike : Alike .whole μ i i' R x x') (place : i' = past s i) : Abreast s r μ i R x x' := by
  have bare : ∀ b : Binding, b.trim true = b := Binding.trim_true
  induction alike with
  | pure related => exact fun m m' _ beside => .of_runs rfl rfl (.ok related) beside
  | throw related => exact fun m m' _ beside => .of_runs rfl rfl (.error related) beside
  | bind first next ihFirst ihNext =>
      intro m m' ready beside
      obtain ⟨readyNext, -⟩ := first.next rfl runner.sound ready
      exact (ihFirst place m m' ready beside).bind fun a a' related n' after =>
        ihNext a a' related place _ n' readyNext after
  | @catching _ _ _ _ _ _ _ x x' f f' first returned signalled passed passedToo ihFirst ihReturned
      ihSignalled =>
      intro m m' ready beside
      obtain ⟨readyNext, -⟩ := first.next rfl runner.sound ready
      have ran := ihFirst place m m' ready beside
      refine .catching ?_
      have outcome := ran.outcome
      generalize (x r m).1 = o, (x' r m').1 = o' at outcome
      cases outcome with
      | ok related => exact ihReturned _ _ related place _ _ readyNext ran.after
      | error related => exact ihSignalled _ _ related place _ _ readyNext ran.after
  | @run μ i i' e allowed =>
      subst place
      rw [Expr.trim_true]
      exact .ofShared (runner.eval e i)
  | current =>
      subst place
      refine .reads fun c c' nested beside => ?_
      rw [beside.current nested]
      exact Setting.whole_result _
  | cursor =>
      subst place
      refine .reads fun c c' nested beside => ?_
      rw [beside.cursor? nested]
      exact Setting.whole_refl Address.map_translate_identity _
  | isHandled =>
      subst place
      exact .reads fun c c' _ beside => (beside.isHandled _).symm
  | setCursor related =>
      subst place
      cases Setting.whole_eq Address.translate_identity related
      exact .changes fun c c' beside => beside.update _ fun _ => rfl
  | setValue name related =>
      subst place
      cases Setting.whole_eq Evaluated.translate_identity related
      exact .changes fun c c' beside => beside.update _ fun _ => rfl
  | setHandled flag =>
      subst place
      exact .changes fun c c' beside => beside.update _ fun _ => rfl
  | within kind handlers body ih =>
      subst place
      exact .within runner (fun j => (body j 0).sound rfl runner.sound) fun j => ih j _ rfl
  | @letting _ _ _ _ _ _ _ kind handlers bindings allowed body ih =>
      subst place
      have same : bindings.map (Binding.trim true) = bindings := by
        rw [show Binding.trim true = id from funext bare, List.map_id]
      rw [same]
      exact .letting runner (fun j => (body j 0).sound rfl runner.sound) fun j => ih j _ rfl
  | unguarded h dropped => cases dropped
  | @prefetch i i' bindings b member allowed compute ih =>
      subst place
      have computed := ih i _ rfl
      rw [bare] at computed ⊢
      exact .ofShared (.prefetch runner computed)
  | named allowed compute ih =>
      subst place
      refine .named runner _ fun o b => ?_
      have computed := ih o _ b (nofun : Setting.whole.AllowsBinding b) rfl
      rw [bare] at computed
      exact computed
  | @once μ i i' x x' l l' function body ih =>
      cases Setting.whole_eq Value.translate_identity function
      exact .once l.id (ih place)
  | makeLambda d allowed =>
      subst place
      rw [Definition.trim_true]
      exact .makeLambda d
  | drain source => exact .drain _
  | deliver allowed related => exact .deliver _ related
  | withStore allowed related => exact .withStore _ _ fun n b => (related n b).image
  | markHandled allowed flag =>
      subst place
      exact .markHandled flag

/-! ## Evaluation -/

theorem AbreastRunner.ofDepth (s left : Nat) : AbreastRunner s (.ofDepth left) := by
  have sound := fun left => SoundRunner.ofDepth (S := .whole) rfl (.basic ..) left
  induction left with
  | zero =>
      refine ⟨sound 0, fun e i m m' ready beside => ?_⟩
      cases beside with
      | intro depth chain =>
          exact .of_runs rfl rfl (.error (Setting.whole_fault _)) (.intro depth chain)
  | succ left ih =>
      refine ⟨sound (left + 1), fun e i m m' ready beside => ?_⟩
      have alike : Alike .whole .shared i (past s i) _ (fun r => Evaluation.node r e i) _ :=
        .node (.of_effects rfl e)
      rw [Expr.trim_true] at alike
      have node := alike.abreast ih rfl _ _ (ready.atDepth (m.depth + 1))
        (beside.atDepth (m.depth + 1) (m'.depth + 1))
      exact ⟨node.outcome, node.after.atDepth _ _⟩

end TreeQuery
