import TreeQuery.Proofs.Frames.Kept
import TreeQuery.Proofs.Steps
import TreeQuery.Proofs.Watch

/-!
# Computations that keep the frames

`Sound` says of a computation that it keeps the frames (`Keeps`), leaves the machine ready for the
next one, ends in a value or a signal that may occur, and comes to the same with either of two
evaluations of its parts. It holds of each thing a computation can do, and so of whatever is put
together by the rules of `Alike` (`Alike.sound`). Two evaluations are compared because one of them
may be watched; where there is only one, both are the same.
-/

set_option autoImplicit false

namespace TreeQuery

/-- The outcome is a value or a signal that may occur. -/
def Setting.Ends (S : Setting) {α : Type} (R : α → α → Prop) : Except Signal α → Prop
  | .ok a => ∃ a', R a a'
  | .error s => ∃ s', S.signal s s'

/-- What holds of every value and of every signal that may occur holds of such an outcome. -/
@[elab_as_elim]
theorem Setting.Ends.elim {S : Setting} {α : Type} {R : α → α → Prop} {P : Except Signal α → Prop}
    {o : Except Signal α} (ends : S.Ends R o) (returned : ∀ a a', R a a' → P (.ok a))
    (signalled : ∀ s s', S.signal s s' → P (.error s)) : P o := by
  cases o with
  | ok a =>
      obtain ⟨a', related⟩ := ends
      exact returned a a' related
  | error s =>
      obtain ⟨s', related⟩ := ends
      exact signalled s s' related

structure SoundAt (S : Setting) (w r : Runner) (μ : Mode) (i : Nat) {α : Type} (R : α → α → Prop)
    (x : Runner → Eval α) (m : Machine) : Prop where
  agree : x w m = x r m
  keeps : Keeps S μ i m (x r m).2
  ready : Ready S μ i (x r m).2
  ends : S.Ends R (x r m).1

def Sound (S : Setting) (w r : Runner) (μ : Mode) (i : Nat) {α : Type} (R : α → α → Prop)
    (x : Runner → Eval α) : Prop :=
  ∀ m, Ready S μ i m → SoundAt S w r μ i R x m

/-- The evaluation of an expression in a frame is sound, and frames are opened as usual where there
is something to nest them in. -/
structure SoundRunner (S : Setting) (w r : Runner) : Prop where
  strict : S.Strict
  eval : ∀ e, S.Allows e → ∀ i, Sound S w r .shared i S.result fun r => r e i
  within : ∀ {α : Type} (kind : FrameKind) (i : Nat) (body : Nat → Eval α) (m : Machine),
    m.chain.Nested → i < m.chain.size → w.within kind i body m = Eval.within kind i body m
  opens : ∀ {α : Type} (kind : FrameKind) (i : Nat) (body : Nat → Eval α),
    r.within kind i body = Eval.within kind i body

variable {S : Setting} {w r : Runner} {μ : Mode} {i : Nat} {m : Machine}

theorem Setting.Related.ends {α : Type} {act : Translation → α → α} {a : α}
    (inert : S.plain = true → act S.test a = a) : S.Ends (S.Related act) (.ok a) :=
  ⟨_, rfl, inert⟩

namespace SoundAt

variable {α β : Type} {R : α → α → Prop} {Q : β → β → Prop} {x : Runner → Eval α}

/-- A computation that only looks. -/
theorem reads (ready : Ready S μ i m) {a : α} (w' : x w m = (.ok a, m)) (r' : x r m = (.ok a, m))
    (ends : S.Ends R (.ok a)) : SoundAt S w r μ i R x m := by
  refine ⟨w'.trans r'.symm, ?_, ?_, ?_⟩
  · rw [r']
    exact .refl m
  · rw [r']
    exact ready
  · rw [r']
    exact ends

/-- A computation that changes the machine and does not use the evaluation of parts. -/
theorem steps {m' : Machine} {o : Except Signal α} (w' : x w m = (o, m')) (r' : x r m = (o, m'))
    (keeps : Keeps S μ i m m') (ready : Ready S μ i m') (ends : S.Ends R o) :
    SoundAt S w r μ i R x m := by
  refine ⟨w'.trans r'.symm, ?_, ?_, ?_⟩
  · rw [r']
    exact keeps
  · rw [r']
    exact ready
  · rw [r']
    exact ends

/-- A computation that goes on like another one. -/
theorem of_runs {y : Runner → Eval α} (watched : x w m = y w m) (run : x r m = y r m)
    (sound : SoundAt S w r μ i R y m) : SoundAt S w r μ i R x m := by
  refine ⟨?_, ?_, ?_, ?_⟩
  · rw [watched, run]
    exact sound.agree
  · rw [run]
    exact sound.keeps
  · rw [run]
    exact sound.ready
  · rw [run]
    exact sound.ends

theorem catching {f : Except Signal α → Runner → Eval β} (ready : Ready S μ i m)
    (first : SoundAt S w r μ i R x m)
    (returned : ∀ a a', R a a' → Sound S w r μ i Q (f (.ok a)))
    (signalled : ∀ s s', S.signal s s' → Sound S w r μ i Q (f (.error s))) :
    SoundAt S w r μ i Q (fun r => Eval.attempt (x r) >>= fun o => f o r) m := by
  have next : SoundAt S w r μ i Q (f (x r m).1) (x r m).2 :=
    first.ends.elim (fun a a' related => returned a a' related _ first.ready)
      fun s s' related => signalled s s' related _ first.ready
  refine ⟨?_, first.keeps.trans ready.nested next.keeps, next.ready, next.ends⟩
  simp only [Eval.attempt_bind, first.agree]
  exact next.agree

/-- What comes next gets a value; a signal ends the sequence. -/
theorem bind {f : α → Runner → Eval β} (ready : Ready S μ i m) (first : SoundAt S w r μ i R x m)
    (next : ∀ a a', R a a' → Sound S w r μ i Q (f a)) :
    SoundAt S w r μ i Q (fun r => x r >>= fun a => f a r) m := by
  rw [Eval.bind_eq_attempt_open x f]
  exact catching ready first next fun s s' related n readyNext =>
    .steps rfl rfl (.refl n) readyNext ⟨s', related⟩

/-- What is sound for a frame is sound for the frames nested in it. -/
theorem inward {o : Nat} (ready : Ready S μ i m) (member : o ∈ m.chain.ancestors i)
    (sound : SoundAt S w r .shared o R x m) : SoundAt S w r μ i R x m :=
  ⟨sound.agree, sound.keeps.inward ready.nested member,
    ready.inward member sound.keeps sound.ready, sound.ends⟩

/-- What is sound in a new frame on top, which goes afterwards, is sound below. -/
theorem framed {ν : Mode} {n : Machine} {y : Runner → Eval α} (ready : Ready S μ i m)
    (grown : Grown i m n) (inside : SoundAt S w r ν m.chain.size R y n)
    (watched : x w m = x r m)
    (run : x r m = ((y r n).1, (y r n).2.onChain fun c => c.truncate m.chain.size)) :
    SoundAt S w r μ i R x m := by
  refine .steps (watched.trans run) run ?_ ?_ inside.ends
  · exact inside.keeps.within ready.nested ready.live grown
  · exact ready.truncate grown inside.keeps inside.ready

theorem within (runner : SoundRunner S w r) {kind : FrameKind} {x : Nat → Runner → Eval α}
    (ready : Ready S μ i m) (body : Sound S w r .own m.chain.size R (x m.chain.size)) :
    SoundAt S w r μ i R (fun r => r.within kind i fun j => x j r) m := by
  have inside := body _ (ready.push kind)
  refine framed ready (.push m kind i) inside ?_ ?_
  · rw [runner.within _ _ _ _ ready.nested ready.live, runner.opens]
    simp only [Eval.within_apply, inside.agree]
  · rw [runner.opens]
    exact Eval.within_apply kind i _ m

end SoundAt

/-! ## Setting values in a frame of one's own -/

namespace Frame.Kept

/-- In a frame of one's own, everything but its place and its bindings may change. -/
theorem of_own {c : Chain} {f f' : Frame} (kind : f'.kind = f.kind) (parent : f'.parent = f.parent)
    (lets : f'.lets = f.lets) : f.Kept S .own c i i f' := by
  have owns : Mode.own.Owns i i := ⟨rfl, rfl⟩
  have declared : f'.declared = f.declared := by rw [Frame.declared, lets, Frame.declared]
  exact ⟨kind, parent, declared, fun other => absurd owns other, fun other => absurd owns other,
    fun _ => lets, fun other => absurd owns other⟩

end Frame.Kept

namespace Sound

theorem setValue (name : String) {v v' : Evaluated} (related : S.result v v') :
    Sound S w r .own i Eq (fun _ => Eval.onChain fun c => c.setValue i name v) := by
  intro m ready
  refine .steps rfl rfl (.update fun f _ => .of_own rfl rfl rfl)
    (ready.update (fun f _ => .of_own rfl rfl rfl) fun plain f _ tame => ?_) ⟨_, rfl⟩
  refine ⟨fun other u found => ?_, tame.cursor, tame.named, tame.allowed, tame.memos⟩
  rw [Assoc.get?_insert] at found
  split at found
  · cases found
    exact related.inert plain
  · exact tame.values other u found

theorem setCursor {a a' : Address} (related : S.address a a') :
    Sound S w r .own i Eq (fun _ => Eval.onChain fun c => c.setCursor i a) := by
  intro m ready
  refine .steps rfl rfl (.update fun f _ => .of_own rfl rfl rfl)
    (ready.update (fun f _ => .of_own rfl rfl rfl) fun plain f _ tame => ?_) ⟨_, rfl⟩
  refine ⟨tame.values, fun b found => ?_, tame.named, tame.allowed, tame.memos⟩
  cases found
  exact related.inert plain

theorem setHandled (flag : Bool) :
    Sound S w r .own i Eq (fun _ => Eval.onChain fun c => c.setHandled i flag) := by
  intro m ready
  exact .steps rfl rfl (.update fun f _ => .of_own rfl rfl rfl)
    (ready.update (fun f _ => .of_own rfl rfl rfl) fun plain f _ tame =>
      ⟨tame.values, tame.cursor, tame.named, tame.allowed, tame.memos⟩) ⟨_, rfl⟩

end Sound

/-! ## Looking around -/

theorem Chain.exists_of_search {c : Chain} {α : Type} {find : Nat → Frame → Option α} {a : α}
    (found : c.search i find = some a) :
    ∃ j ∈ c.ancestors i, ∃ f, c.frame? j = some f ∧ find j f = some a := by
  obtain ⟨j, member, here⟩ := List.exists_of_findSome?_eq_some found
  obtain ⟨f, frame, gives⟩ := Option.bind_eq_some_iff.mp here
  exact ⟨j, member, f, frame, gives⟩

/-- A let-binding that a name stands for is declared under its name in a frame around. -/
theorem Chain.owner_of_resolve? {c : Chain} {owner : Nat} {name : String} {b : Binding}
    (resolved : c.resolve? i name = some (.binding owner b)) :
    owner ∈ c.ancestors i ∧ ∃ f slot, c.frame? owner = some f ∧
      Assoc.get? f.lets name = some slot ∧ slot.binding = b := by
  obtain ⟨j, member, f, frame, here⟩ := Chain.exists_of_search resolved
  cases value : Assoc.get? f.values name with
  | some v =>
      rw [value] at here
      cases here
  | none =>
      rw [value] at here
      obtain ⟨slot, declared, same⟩ := Option.map_eq_some_iff.mp here
      cases same
      exact ⟨member, f, slot, frame, declared, rfl⟩

theorem Chain.slot_of_resolve? {c : Chain} (nested : c.Nested) {owner : Nat} {name : String}
    {b : Binding} (resolved : c.resolve? i name = some (.binding owner b)) :
    owner < c.size ∧ ∃ f slot, c.frame? owner = some f ∧
      Assoc.get? f.lets name = some slot ∧ slot.binding = b := by
  obtain ⟨member, declared⟩ := Chain.owner_of_resolve? resolved
  exact ⟨Chain.lt_of_mem_ancestors nested member, declared⟩

namespace Sound

theorem current : Sound S w r μ i S.result (fun _ => Eval.ofChain fun c => c.current i) := by
  intro m ready
  refine .reads ready rfl rfl (Setting.Related.ends fun plain => ?_)
  simp only [Chain.current]
  cases found : m.chain.lookup? i Chain.currentName with
  | none => rfl
  | some v =>
      obtain ⟨j, -, f, frame, here⟩ := Chain.exists_of_search found
      exact ((ready.tame plain).frame j f frame).values _ v here

theorem cursor : Sound S w r μ i S.cursor (fun _ => Eval.ofChain fun c => c.cursor? i) := by
  intro m ready
  refine .reads ready rfl rfl (Setting.Related.ends fun plain => ?_)
  change (m.chain.cursor? i).map (Address.translate S.test) = m.chain.cursor? i
  cases found : m.chain.cursor? i with
  | none => rfl
  | some a =>
      obtain ⟨j, -, f, frame, here⟩ := Chain.exists_of_search found
      exact congrArg some (((ready.tame plain).frame j f frame).cursor a here)

end Sound

/-! ## Declaring let-bindings -/

theorem Grown.letFrame (m : Machine) (kind : FrameKind) (i : Nat) (bindings : List Binding) :
    Grown i m (m.letFrame kind i bindings) :=
  (Grown.push m kind i).update fun _ => rfl

theorem Ready.letFrame (strict : S.Strict) {bindings : List Binding} (ready : Ready S μ i m)
    (kind : FrameKind) (allowed : S.AllowsLet bindings) :
    Ready S (.letting bindings) m.chain.size (m.letFrame kind i bindings) := by
  have grown := Grown.letFrame m kind i bindings
  refine ⟨grown.nested ready.nested ready.live, by rw [grown.size]; omega, fun plain =>
    ⟨fun j f found => ?_, fun f found => ?_, (ready.tame plain).configs,
      (ready.tame plain).policy⟩⟩
  · rw [Machine.frame?_letFrame] at found
    split at found
    · cases found
      refine ⟨by simp [Assoc.get?], by simp, fun name slot there => ?_, fun name slot there => ?_,
        fun name slot v there memo => ?_⟩
      · rcases get?_declareIn there with earlier | ⟨b, member, named, rfl⟩
        · cases earlier
        · exact named
      · rcases get?_declareIn there with earlier | ⟨b, member, named, rfl⟩
        · cases earlier
        · exact allowed.each member
      · rcases get?_declareIn there with earlier | ⟨b, member, named, rfl⟩
        · cases earlier
        · cases memo
    · exact (ready.tame plain).frame j f found
  · rw [Machine.frame?_letFrame, if_pos rfl] at found
    cases found
    intro b member
    rw [Frame.declared, Assoc.get?_mapValues, get?_declareIn_of_mem (allowed.distinct strict plain) member]
    rfl

theorem SoundAt.letting (runner : SoundRunner S w r) {kind : FrameKind} {bindings : List Binding}
    {α : Type} {R : α → α → Prop} {x : Nat → Runner → Eval α} (allowed : S.AllowsLet bindings)
    (ready : Ready S μ i m)
    (body : Sound S w r (.letting bindings) m.chain.size R (x m.chain.size)) :
    SoundAt S w r μ i R (fun r => r.within kind i fun j => do
      Evaluation.declareAll j bindings
      x j r) m := by
  have inside := body _ (ready.letFrame runner.strict kind allowed)
  refine framed ready (.letFrame m kind i bindings) inside ?_ ?_
  · rw [runner.within _ _ _ _ ready.nested ready.live, runner.opens]
    simp only [Eval.letFrame_apply, inside.agree]
  · rw [runner.opens]
    exact Eval.letFrame_apply kind i bindings (fun j => x j r) m

/-! ## Computing let-bindings -/

/-- The configuration of a binding that may occur. -/
def Setting.config (S : Setting) (c c' : BindingConfig) : Prop :=
  c = c' ∧ (S.plain = true →
    (c.reset = .afterScope ∨ c.reset = .always) ∧ c.overrides = Overrides.none)

/-- Settling a configuration leaves the frames alone. -/
theorem Ready.settled {b : Binding} {config : BindingConfig} (ready : Ready S μ i m)
    (default : S.plain = true →
      config = ⟨m.settings.reset, m.settings.timing, Overrides.none⟩) :
    Ready S μ i (Evaluation.settled b config m) := by
  refine ready.of_keeps (.of_same rfl rfl rfl) (fun plain => (ready.tame plain).frame)
    fun plain id other found => ?_
  simp only [Evaluation.settled, Assoc.get?_insert] at found
  split at found
  · cases found
    exact default plain
  · exact (ready.tame plain).configs id other found

namespace Sound

theorem settle (effects : S.plain = false) (b : Binding) (v : Evaluated) :
    Sound S w r .shared i S.config (fun _ => Evaluation.settle b v) := by
  intro m ready
  have noPlain : ∀ {p : Prop}, S.plain = true → p := fun plain => absurd plain (by simp [effects])
  cases settled : Evaluation.configOf m.settings v.value with
  | ok config =>
      have run : Evaluation.settle b v m = (.ok config, Evaluation.settled b config m) := by
        simp only [Evaluation.settle, settled]
      exact .steps run run (.of_same rfl rfl rfl) (ready.settled noPlain) ⟨config, rfl, noPlain⟩
  | error e =>
      have run : Evaluation.settle b v m = (.error (.fault e.toFault), m) := by
        simp only [Evaluation.settle, settled]
      exact .steps run run (.refl m) ready ⟨_, .of_effects effects _⟩

theorem letConfig (runner : SoundRunner S w r) {b : Binding} (allowed : S.AllowsBinding b) :
    Sound S w r .shared i S.config (fun r => Evaluation.letConfig r b i) := by
  intro m ready
  cases known : Assoc.get? m.configs b.id with
  | some config =>
      refine .reads ready (Evaluation.letConfig_known known) (Evaluation.letConfig_known known)
        ⟨config, rfl, fun plain => ?_⟩
      rw [(ready.tame plain).configs b.id config known]
      exact ⟨(ready.tame plain).policy, rfl⟩
  | none =>
      cases given : b.config with
      | none =>
          exact .steps (Evaluation.letConfig_default known given)
            (Evaluation.letConfig_default known given) (.of_same rfl rfl rfl)
            (ready.settled fun _ => rfl) ⟨_, rfl, fun plain => ⟨(ready.tame plain).policy, rfl⟩⟩
      | some e =>
          have effects : S.plain = false := by
            cases plain : S.plain with
            | false => rfl
            | true => cases given.symm.trans (allowed.config runner.strict plain)
          have ran := (runner.eval e (.of_effects effects e) i m ready).bind ready
            (f := fun v _ => Evaluation.settle b v) fun v _ _ => settle effects b v
          exact .of_runs (Evaluation.letConfig_computed known given)
            (Evaluation.letConfig_computed known given) ran

/-- A memo goes into the frame that declares the binding, or leaves the frames alone. -/
theorem storeMemo (ready : Ready S .shared i m) (reset : ResetPolicy) (b : Binding) {v : Evaluated}
    (inert : S.plain = true → v.translate S.test = v) :
    Keeps S .shared i m (Evaluation.storeMemo reset i b v m) ∧
      Ready S .shared i (Evaluation.storeMemo reset i b v m) := by
  cases reset with
  | afterScope =>
      have own := Chain.mem_ancestors_self ready.live
      have kept : ∀ f : Frame, f.Kept S .shared m.chain i i { f with
          lets := Assoc.modify f.lets b.name fun slot => { slot with memo := some v } } :=
        fun f => ⟨rfl, rfl, f.declared_storeMemo b.name v, fun _ => rfl, fun _ => rfl,
          fun apart => absurd own apart, fun _ _ => rfl⟩
      refine ⟨.update fun f _ => kept f, ready.update (fun f _ => kept f) fun plain f _ tame => ?_⟩
      refine ⟨tame.values, tame.cursor, fun name slot found => ?_, fun name slot found => ?_,
        fun name slot u found memo => ?_⟩
      all_goals
        rw [Assoc.get?_modify] at found
        split at found
      · rename_i here
        subst here
        obtain ⟨before, there, rfl⟩ := Option.map_eq_some_iff.mp found
        exact tame.named b.name before there
      · exact tame.named name slot found
      · obtain ⟨before, there, rfl⟩ := Option.map_eq_some_iff.mp found
        exact tame.allowed b.name before there
      · exact tame.allowed name slot found
      · obtain ⟨before, there, rfl⟩ := Option.map_eq_some_iff.mp found
        cases memo
        exact inert plain
      · exact tame.memos name slot u found memo
  | afterQuery | never | always =>
      exact ⟨.of_same rfl rfl rfl, ready.of_same rfl rfl rfl rfl⟩

theorem remember {b : Binding} {config config' : BindingConfig} (shape : S.config config config')
    {v v' : Evaluated} (related : S.result v v') :
    Sound S w r .shared i S.result (fun _ => Evaluation.memoized.remember i b config v) := by
  intro m ready
  have inert : S.plain = true → (Evaluation.dressed config v).translate S.test =
      Evaluation.dressed config v := by
    intro plain
    rw [Evaluation.dressed, (shape.2 plain).2]
    exact related.inert plain
  obtain ⟨keeps, readyAfter⟩ := storeMemo ready config.reset b inert
  exact .steps rfl rfl keeps readyAfter (Setting.Related.ends inert)

theorem memoized {b : Binding} (compute : Sound S w r .shared i S.result fun r =>
      Evaluation.compute r i b) {config config' : BindingConfig} (shape : S.config config config') :
    Sound S w r .shared i S.result (fun r => Evaluation.memoized r i b config) := by
  intro m ready
  cases found : Evaluation.memo? config.reset i b m with
  | some v =>
      refine .reads ready (Evaluation.memoized_found found) (Evaluation.memoized_found found)
        (Setting.Related.ends fun plain => ?_)
      rcases (shape.2 plain).1 with policy | policy <;> rw [policy] at found
      · obtain ⟨f, frame, memo⟩ := Option.bind_eq_some_iff.mp found
        obtain ⟨slot, there, kept⟩ := Option.bind_eq_some_iff.mp memo
        exact ((ready.tame plain).frame i f frame).memos b.name slot v there kept
      · cases found
  | none =>
      have ran := (compute m ready).bind ready
        (f := fun v _ => Evaluation.memoized.remember i b config v)
        fun v v' same => remember shape same
      exact .of_runs (Evaluation.memoized_missing found) (Evaluation.memoized_missing found) ran

theorem force (runner : SoundRunner S w r) {b : Binding} (allowed : S.AllowsBinding b)
    (compute : Sound S w r .shared i S.result fun r => Evaluation.compute r i b) :
    Sound S w r .shared i S.result (fun r => Evaluation.force r i b) := by
  intro m ready
  simp only [Evaluation.force_eq]
  exact (letConfig runner allowed m ready).bind ready fun config config' shape =>
    memoized compute shape

theorem prefetch (runner : SoundRunner S w r) {b : Binding} (allowed : S.AllowsBinding b)
    (compute : Sound S w r .shared i S.result fun r => Evaluation.compute r i b) :
    Sound S w r .shared i Eq (fun r => Evaluation.prefetch r i b) := by
  intro m ready
  refine (letConfig runner allowed m ready).bind ready fun config config' shape => ?_
  intro m ready
  by_cases eager : config.timing = .eager
  · simp only [eager, if_true]
    exact (force runner allowed compute m ready).bind ready
      (f := fun _ _ => Pure.pure ()) fun _ _ _ m ready => .reads ready rfl rfl ⟨(), rfl⟩
  · simp only [eager, if_false]
    exact .reads ready rfl rfl ⟨(), rfl⟩

theorem named (runner : SoundRunner S w r) (name : String)
    (compute : ∀ o b, S.AllowsBinding b →
      Sound S w r .shared o S.result fun r => Evaluation.compute r o b) :
    Sound S w r μ i S.result (fun r => Evaluation.nameRef r name i) := by
  intro m ready
  have run := fun r => Evaluation.nameRef_apply r name i m
  cases found : m.chain.resolve? i name with
  | none =>
      simp only [found] at run
      exact .reads ready (run w) (run r) (Setting.Related.ends fun _ => rfl)
  | some resolved =>
      simp only [found] at run
      obtain ⟨j, member, f, frame, here⟩ := Chain.exists_of_search found
      cases value : Assoc.get? f.values name with
      | some v =>
          rw [value] at here
          cases here
          refine .reads ready (run w) (run r) (Setting.Related.ends fun plain => ?_)
          exact ((ready.tame plain).frame j f frame).values name v value
      | none =>
          rw [value] at here
          obtain ⟨slot, declared, rfl⟩ := Option.map_eq_some_iff.mp here
          have allowed : S.AllowsBinding slot.binding := fun plain =>
            ((ready.tame plain).frame j f frame).allowed name slot declared plain
          have live := Chain.lt_of_mem_ancestors ready.nested member
          have forced := (force runner allowed (compute j slot.binding allowed) m
            (ready.shared live)).inward ready member
          exact .of_runs (run w) (run r) forced

/-- What is sound for everyone is sound in a frame of any mode. -/
theorem ofShared {α : Type} {R : α → α → Prop} {x : Runner → Eval α}
    (sound : Sound S w r .shared i R x) : Sound S w r μ i R x := fun m ready =>
  (sound m (ready.shared ready.live)).inward ready (Chain.mem_ancestors_self ready.live)

end Sound

/-! ## Effects -/

/-- Where effects are allowed, every outcome may occur. -/
theorem Setting.ends_of_effects (effects : S.plain = false) {α : Type} {R : α → α → Prop}
    (total : ∀ a, ∃ a', R a a') (o : Except Signal α) : S.Ends R o := by
  cases o with
  | ok a => exact total a
  | error s => exact ⟨_, .of_effects effects s⟩

/-- Where effects are allowed, a machine is ready whenever its frames are there. -/
theorem Ready.of_effects (effects : S.plain = false) (ready : Ready S μ i m) {m' : Machine}
    (keeps : Keeps S μ i m m') : Ready S μ i m' := by
  have never : S.plain = true → False := by simp [effects]
  exact ready.of_keeps keeps (fun plain => (never plain).elim) fun plain => (never plain).elim

namespace Sound

/-- An effect outside the frames. -/
theorem effect (effects : S.plain = false) {α : Type} {R : α → α → Prop}
    (total : ∀ a, ∃ a', R a a') {x : Eval α}
    (outside : ∀ m, (x m).2.chain = m.chain ∧ (x m).2.settings = m.settings ∧
      (x m).2.depth = m.depth) : Sound S w r μ i R (fun _ => x) := by
  intro m ready
  obtain ⟨chain, settings, depth⟩ := outside m
  have keeps : Keeps S μ i m (x m).2 := .of_same chain settings depth
  exact ⟨rfl, keeps, ready.of_effects effects keeps, Setting.ends_of_effects effects total _⟩

theorem isHandled : Sound S w r μ i Eq (fun _ => Eval.ofChain fun c => c.isHandled i) := by
  intro m ready
  exact .reads ready rfl rfl ⟨_, rfl⟩

theorem once (id : Nat) (effects : S.plain = false) {x : Runner → Eval Evaluated}
    (body : Sound S w r μ i S.result x) :
    Sound S w r μ i S.result (fun r => Eval.once id (x r)) := by
  intro m ready
  have run := fun y => Eval.once_apply id y m
  cases found : Assoc.get? m.forced id with
  | some done =>
      simp only [found] at run
      exact .reads ready (run _) (run _) ⟨_, .of_effects effects done⟩
  | none =>
      simp only [found] at run
      have kept : ∀ done, Sound S w r μ i S.result fun _ => Eval.keepForced id done := fun done =>
        effect effects (fun v => ⟨_, .of_effects effects v⟩) fun _ => ⟨rfl, rfl, rfl⟩
      exact .of_runs (run (x w)) (run (x r)) ((body m ready).bind ready fun done _ _ => kept done)

theorem makeLambda (d : Definition) (effects : S.plain = false) :
    Sound S w r μ i S.result (fun _ => Evaluation.makeLambda d i) :=
  effect effects (fun v => ⟨_, .of_effects effects v⟩) fun _ => ⟨rfl, rfl, rfl⟩

theorem drain (id : Nat) (effects : S.plain = false) :
    Sound S w r μ i S.values (fun _ => Eval.drain id) :=
  effect effects (fun v => ⟨_, .of_effects effects v⟩) fun _ => ⟨rfl, rfl, rfl⟩

theorem deliver (component : String) (v : Value) (effects : S.plain = false) :
    Sound S w r μ i S.value (fun _ => Eval.deliver component v) := by
  refine effect effects (fun v => ⟨_, .of_effects effects v⟩) fun m => ?_
  rw [Eval.deliver_apply]
  cases Assoc.get? m.outlets component <;> exact ⟨rfl, rfl, rfl⟩

theorem withStore {α : Type} {act : Translation → α → α}
    (operation : Nat → Store.Backend → Except StoreError α × Store.Backend) (library name : String)
    (effects : S.plain = false) :
    Sound S w r μ i (S.Related act) (fun _ => Evaluation.withStore operation library name) := by
  refine effect effects (fun a => ⟨_, .of_effects effects a⟩) fun m => ?_
  rw [Evaluation.withStore_apply]
  cases m.store <;> exact ⟨rfl, rfl, rfl⟩

/-- Only the frame of a handler that the computation is nested in is marked. -/
theorem markHandled (flag : Bool) (effects : S.plain = false) :
    Sound S w r μ i S.value (fun _ => Evaluation.markHandled i flag) := by
  intro m ready
  have run := Evaluation.markHandled_apply i flag m
  cases found : m.chain.nearest? i .handler with
  | none =>
      simp only [found] at run
      exact .steps run run (.refl m) ready ⟨_, .of_effects effects _⟩
  | some j =>
      simp only [found] at run
      obtain ⟨k, member, f, frame, here⟩ := Chain.exists_of_search found
      split at here
      · rename_i handler
        cases here
        have keeps : Keeps S μ i m (m.onChain fun c => c.setHandled j flag) := by
          refine .update fun g there => ⟨rfl, rfl, rfl, fun _ => rfl, fun _ => rfl, fun _ => rfl,
            fun _ cause => ?_⟩
          cases there.symm.trans frame
          rcases cause with plain | apart | other
          · exact absurd (plain.symm.trans effects) (by simp)
          · exact absurd member apart
          · exact absurd handler other
        exact .steps run run keeps (ready.of_effects effects keeps) ⟨_, .of_effects effects _⟩
      · cases here

end Sound

/-- **Whatever the rules allow keeps the frames.** -/
theorem Alike.sound (kept : S.keep = true) (runner : SoundRunner S w r) {i' : Nat} {α : Type}
    {R : α → α → Prop} {x x' : Runner → Eval α} (alike : Alike S μ i i' R x x') :
    Sound S w r μ i R x := by
  induction alike with
  | pure related => exact fun m ready => .reads ready rfl rfl ⟨_, related⟩
  | throw related => exact fun m ready => .steps rfl rfl (.refl m) ready ⟨_, related⟩
  | bind first next ihFirst ihNext =>
      exact fun m ready => (ihFirst m ready).bind ready ihNext
  | catching first returned signalled passed passedToo ihFirst ihReturned ihSignalled =>
      exact fun m ready => (ihFirst m ready).catching ready ihReturned ihSignalled
  | run allowed => exact .ofShared (runner.eval _ allowed _)
  | current => exact .current
  | cursor => exact .cursor
  | isHandled => exact .isHandled
  | setCursor related => exact .setCursor related
  | setValue name related => exact .setValue name related
  | setHandled flag => exact .setHandled flag
  | within kind handlers body ih => exact fun m ready => .within runner ready (ih _ 0)
  | letting kind handlers allowed body ih =>
      exact fun m ready => .letting runner allowed ready (ih _ 0)
  | unguarded h dropped => exact absurd (dropped.symm.trans kept) (by simp)
  | prefetch member allowed compute ih => exact .ofShared (.prefetch runner allowed (ih _ 0))
  | named allowed compute ih => exact .named runner _ fun o b may => ih o 0 b may
  | once function body ih => exact .once _ (runner.strict.effects_of_lambda function) ih
  | makeLambda d allowed => exact .makeLambda d (runner.strict.effects_of allowed id)
  | drain source => exact .drain _ (runner.strict.effects_of_stream source)
  | deliver allowed related =>
      exact .deliver _ _ (runner.strict.effects_of allowed id)
  | withStore allowed related =>
      exact .withStore _ _ _ (runner.strict.effects_of allowed fun free => free.1 rfl)
  | markHandled allowed flag =>
      exact .markHandled flag (runner.strict.effects_of allowed fun free => free.2.2 rfl)

/-- The outcome of what the rules allow is one that they go on from. -/
theorem Alike.next (kept : S.keep = true) (runner : SoundRunner S w r) {i' : Nat} {α : Type}
    {R : α → α → Prop} {x x' : Runner → Eval α} (alike : Alike S μ i i' R x x')
    (ready : Ready S μ i m) : Ready S μ i (x r m).2 ∧ S.Ends R (x r m).1 :=
  have ran := alike.sound kept runner m ready
  ⟨ran.ready, ran.ends⟩

/-! ## Evaluation -/

theorem Ready.atDepth (ready : Ready S μ i m) (depth : Nat) : Ready S μ i { m with depth } :=
  ⟨ready.nested, ready.live, fun plain =>
    ⟨(ready.tame plain).frame, (ready.tame plain).fits, (ready.tame plain).configs,
      (ready.tame plain).policy⟩⟩

theorem Sound.deeper {α : Type} {R : α → α → Prop} {x : Runner → Eval α}
    (sound : Sound S w r μ i R x) :
    Sound S w r μ i R (fun r => Eval.deeper (x r)) := by
  intro m ready
  obtain ⟨agree, keeps, after, ends⟩ := sound _ (ready.atDepth (m.depth + 1))
  refine ⟨?_, ⟨keeps.size, ?_, keeps.reset, keeps.timing, keeps.maxDepth, keeps.unmarked,
    keeps.frame⟩, after.atDepth _, ends⟩
  · simp only [Eval.deeper, agree]
  · change (x r _).2.depth - 1 = m.depth
    rw [keeps.depth]
    rfl

/-- **Evaluation is sound** under a watch whose conditions are met wherever something can start. -/
theorem SoundRunner.watched (kept : S.keep = true) (strict : S.Strict) {ok : Watch}
    (starts : ∀ left e i m, Ready S .shared i m → ok.starts left e i m)
    (opens : ∀ kind i m, m.chain.Nested → i < m.chain.size → ok.opens kind i m) (other : Runner)
    (left : Nat) : SoundRunner S (watched ok other left) (.ofDepth left) := by
  refine ⟨strict, ?_, fun kind i body m nested live =>
    watched_within (opens kind i m nested live), fun _ _ _ => rfl⟩
  induction left with
  | zero =>
      intro e allowed i m ready
      exact .steps (watched_zero (starts 0 e i m ready)) rfl (.refl m) ready ⟨_, .const fun _ => rfl⟩
  | succ left ih =>
      intro e allowed i m ready
      have runner : SoundRunner S (TreeQuery.watched ok other left) (.ofDepth left) :=
        ⟨strict, ih, fun kind i body m nested live =>
          watched_within (opens kind i m nested live), fun _ _ _ => rfl⟩
      have alike : Alike S .shared i i S.result (fun r => Evaluation.node r e i) _ := .node allowed
      have node := (alike.sound kept runner).deeper m ready
      refine ⟨?_, node.keeps, node.ready, node.ends⟩
      rw [watched_succ (starts (left + 1) e i m ready), node.agree]
      rfl

theorem SoundRunner.ofDepth (kept : S.keep = true) (strict : S.Strict) (left : Nat) :
    SoundRunner S (.ofDepth left) (.ofDepth left) := by
  have runner : SoundRunner S (TreeQuery.watched .anything (.ofDepth left) left) (.ofDepth left) :=
    .watched kept strict (fun _ _ _ _ _ => trivial) (fun _ _ _ _ _ => trivial) _ left
  rw [watched_anything] at runner
  exact runner

/-! ## Programs -/

theorem Machine.enter_size (m : Machine) (input : Value) :
    (m.enter input).chain.size = m.chain.size + 1 := by
  simp [Machine.enter, Machine.onChain, Chain.setCursor, Chain.setCurrent, Chain.setValue]

theorem Machine.enter_nested (nested : m.chain.Nested) (input : Value) :
    (m.enter input).chain.Nested := by
  have pushed : (m.chain.push .query none).Nested := nested.push (by simp) .query
  have pointed : ((m.chain.push .query none).setCursor m.chain.size (.linkedTo [] input)).Nested :=
    pushed.update _ fun _ => rfl
  exact pointed.update _ fun _ => rfl

/-- A program starts in a live frame of a nested chain. -/
theorem Machine.ready_enter (m : Machine) (nested : m.chain.Nested) (input : Value) :
    Ready .whole .shared m.chain.size (m.enter input) := by
  refine ⟨m.enter_nested nested input, ?_, nofun⟩
  rw [m.enter_size]
  omega

/-- The root of a program runs in a frame of its own, under its handler. -/
theorem Alike.runRoot (S : Setting) {i' : Nat} {p : Program} (root : S.Allows p.root)
    (handler : ∀ e ∈ Handler.parts p.handler, S.Allows e)
    (absent : S.unhandled = true → p.handler = none := by nofun) :
    Alike S .shared i i' S.result (fun run => Evaluation.guarded run i p.handler (run p.root i))
      (fun run => Evaluation.guarded run i' (Handler.trimOption S.keep p.handler)
        (run (p.root.trim S.keep) i')) :=
  .guarded handler absent (.run root)

end TreeQuery
