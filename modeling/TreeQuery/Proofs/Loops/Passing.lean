import TreeQuery.Proofs.Loops.Functionless
import TreeQuery.Proofs.Loops.Hoist

/-!
# Runs with a frame hoisted

A computation without functions that does not refer to the name which only the outer frame of a tier
shows does the same whether the inner frame is hoisted or not (`Alike.passes`): its outcome is the
same, and the machines it leaves differ in that frame alone. What runs in frames that the tier is not
around may refer to the name, as it means something else there; so may the let-bindings that these
frames declare.

The two runs may also differ in how they evaluate parts. Without a tier, what is shown is that a
watched run comes to the same as a plain one.
-/

set_option autoImplicit false

namespace TreeQuery

variable {s : Settings} {tier : Option Tier} {w r : Runner} {hidden : Option String}
  {μ ν : Mode} {i : Nat} {m n : Machine} {α β : Type} {R : α → α → Prop} {Q : β → β → Prop}
  {x : Runner → Eval α}

/-! ## Machines at which a computation may start -/

/-- A machine without functions. Where the tier is around a frame, what runs there and what is
declared there does not refer to its name. -/
structure Staged (s : Settings) (tier : Option Tier) (hidden : Option String) (μ : Mode)
    (i : Nat) (m : Machine) : Prop where
  confined : Confined (.functionless s) m
  ready : Ready .whole μ i m
  stands : ∀ d ∈ tier, d.Stands m.chain
  above : μ ≠ .shared → ∀ d ∈ tier, d.inner < i
  hides : ∀ d ∈ tier, d.inner ∈ m.chain.ancestors i → hidden = some d.name
  inside : ∀ d ∈ tier, ∀ j f name b, d.inner ∈ m.chain.ancestors j → m.chain.frame? j = some f →
    Assoc.get? f.declared name = some b → (Setting.functionless (some d.name)).AllowsBinding b

namespace Tier.Stands

variable {d : Tier}

theorem live (stands : d.Stands m.chain) : d.inner < m.chain.size := by
  obtain ⟨f, -, found, -⟩ := stands
  exact Chain.lt_size_of_frame? found

theorem outer_lt (stands : d.Stands m.chain) (nested : m.chain.Nested) : d.outer < d.inner := by
  obtain ⟨f, g, found, -, holds⟩ := stands
  exact nested.parent_lt found holds.nested

/-- A computation in a frame above leaves what the tier shows. -/
theorem after (stands : d.Stands m.chain) (nested : m.chain.Nested) (keeps : Keeps .whole μ i m n)
    (above : μ ≠ .shared → d.inner < i) : d.Stands n.chain := by
  have below := stands.outer_lt nested
  have apart : ∀ j, j ≤ d.inner → ¬ μ.Owns i j := by
    rintro j le ⟨own, rfl⟩
    have := above (by rw [own]; nofun)
    omega
  obtain ⟨f, g, inner, outer, holds⟩ := stands
  obtain ⟨f', innerAfter, kept⟩ := keeps.frame _ f inner
  obtain ⟨g', outerAfter, keptToo⟩ := keeps.frame _ g outer
  have values := kept.values (apart _ (Nat.le_refl _))
  have valuesToo := keptToo.values (apart _ (Nat.le_of_lt below))
  refine ⟨f', g', innerAfter, outerAfter, ?_, ?_, ?_, ?_, ?_, ?_, ?_, fun name other => ?_⟩
  · rw [kept.parent, holds.nested]
  · rw [keptToo.parent, holds.further]
  · rw [kept.kind]
    exact holds.kind
  · rw [keptToo.kind]
    exact holds.kindToo
  · rw [kept.cursor (apart _ (Nat.le_refl _)), holds.absent]
  · rw [keptToo.cursor (apart _ (Nat.le_of_lt below)), holds.cursor]
  · rw [keptToo.declared, holds.bare]
  · rw [values, valuesToo]
    exact holds.shown name other

/-- So does a new frame on top. -/
theorem grown (stands : d.Stands m.chain) (nested : m.chain.Nested) (grown : Grown i m n) :
    d.Stands n.chain := by
  have live := stands.live
  have below := stands.outer_lt nested
  obtain ⟨f, g, inner, outer, holds⟩ := stands
  refine ⟨f, g, ?_, ?_, holds⟩
  · rw [grown.below _ live, inner]
  · rw [grown.below _ (by omega), outer]

end Tier.Stands

namespace Staged

variable (staged : Staged s tier hidden μ i m)

include staged

theorem nested : m.chain.Nested :=
  staged.ready.nested

theorem live : i < m.chain.size :=
  staged.ready.live

/-- After a computation, the next one may start. -/
theorem after (keeps : Keeps .whole μ i m n) (confined : Confined (.functionless s) n) :
    Staged s tier hidden μ i n := by
  refine ⟨confined, staged.ready.of_effects rfl keeps, fun d there => ?_, staged.above,
    fun d there member => ?_, fun d there j f name b member found declared => ?_⟩
  · exact (staged.stands d there).after staged.nested keeps fun own => staged.above own d there
  · rw [keeps.ancestors staged.nested] at member
    exact staged.hides d there member
  · rw [keeps.ancestors staged.nested] at member
    have live : j < m.chain.size := by
      rw [← keeps.size]
      exact Chain.lt_size_of_frame? found
    obtain ⟨g, foundBefore⟩ := Chain.exists_frame? live
    obtain ⟨f', foundAfter, kept⟩ := keeps.frame j g foundBefore
    cases found.symm.trans foundAfter
    rw [kept.declared] at declared
    exact staged.inside d there j g name b member foundBefore declared

/-- In a new frame on top, which declares only what may occur. -/
theorem grown (grown : Grown i m n) (confined : Confined (.functionless s) n) {f : Frame}
    (found : n.chain.frame? m.chain.size = some f)
    (allowed : ∀ name b, Assoc.get? f.declared name = some b →
      (Setting.functionless hidden).AllowsBinding b) :
    Staged s tier hidden ν m.chain.size n := by
  have nested := grown.nested staged.nested staged.live
  have size := grown.size
  have onward : ∀ d ∈ tier, d.inner ∈ n.chain.ancestors m.chain.size → hidden = some d.name := by
    intro d there member
    have live := (staged.stands d there).live
    rw [grown.ancestors staged.nested staged.live] at member
    rcases List.mem_cons.mp member with here | further
    · omega
    · exact staged.hides d there further
  refine ⟨confined, ⟨nested, by omega, nofun⟩,
    fun d there => (staged.stands d there).grown staged.nested grown,
    fun _ d there => (staged.stands d there).live, onward,
    fun d there j g name b member there' declared => ?_⟩
  by_cases top : j = m.chain.size
  · subst top
    cases found.symm.trans there'
    rw [← onward d there member]
    exact allowed name b declared
  · have below : j < m.chain.size := by
      have := Chain.lt_size_of_frame? there'
      omega
    have walk : n.chain.ancestors j = m.chain.ancestors j := by
      refine Chain.ancestors_congr nested staged.nested (by omega) below fun k le => ?_
      rw [Chain.parent?, grown.below k (by omega), Chain.parent?]
    rw [walk] at member
    rw [grown.below j below] at there'
    exact staged.inside d there j g name b member there' declared

/-- Around the frame. -/
theorem outward {o : Nat} (member : o ∈ m.chain.ancestors i) :
    Staged s tier hidden .shared o m :=
  ⟨staged.confined, staged.ready.shared (Chain.lt_of_mem_ancestors staged.nested member),
    staged.stands, fun other => absurd rfl other,
    fun d there inside => staged.hides d there (Chain.ancestors_subset staged.nested member inside),
    staged.inside⟩

theorem shared : Staged s tier hidden .shared i m :=
  staged.outward (Chain.mem_ancestors_self staged.live)

/-- Where the tier is not around the frame, nothing need be hidden. -/
theorem outside {other : Option String} (apart : ∀ d ∈ tier, d.inner ∉ m.chain.ancestors i) :
    Staged s tier other μ i m :=
  ⟨staged.confined, staged.ready, staged.stands, staged.above,
    fun d there member => absurd member (apart d there), staged.inside⟩

theorem push (kind : FrameKind) :
    Staged s tier hidden .own m.chain.size (m.onChain fun c => c.push kind (some i)) := by
  refine staged.grown (.push m kind i) (staged.confined.onChain (f := fun c =>
    c.push kind (some i)) (fun plain => ?_) ?_) (m.frame?_push kind i) nofun
  · rw [Chain.under_push, staged.confined.chain plain]
  · exact staged.confined.declares.push kind (some i)

theorem letFrame (kind : FrameKind) {bindings : List Binding}
    (allowed : (Setting.functionless hidden).AllowsLet bindings) :
    Staged s tier hidden (.letting bindings) m.chain.size (m.letFrame kind i bindings) := by
  refine staged.grown (.letFrame m kind i bindings) (staged.confined.onChain (f := fun c =>
    (c.push kind (some i)).update m.chain.size fun f =>
      { f with lets := declareIn f.lets bindings }) (fun plain => ?_) ?_)
    (m.frame?_letFrame_top kind i bindings) fun name b declared => ?_
  · have grown := m.chain.letFrame_under (β := id) (fun _ => rfl)
      (Setting.functionless none).test kind i bindings
    rw [List.map_id, staged.confined.chain plain] at grown
    exact grown
  · exact staged.confined.declares.letFrame allowed.revealed kind i
  · rw [Frame.declared, Assoc.get?_mapValues] at declared
    obtain ⟨slot, there, rfl⟩ := Option.map_eq_some_iff.mp declared
    rcases get?_declareIn there with earlier | ⟨b, member, -, rfl⟩
    · cases earlier
    · exact allowed.each member

theorem atDepth (depth : Nat) : Staged s tier hidden μ i { m with depth } :=
  ⟨staged.confined.atDepth depth, staged.ready.atDepth depth, staged.stands, staged.above,
    staged.hides, staged.inside⟩

end Staged

/-! ## Computations that follow each other -/

/-- With the evaluation `w` of its parts and the frame hoisted, the computation does what it does
with `r` and the frame in its place. -/
def Tracks (tier : Option Tier) (w r : Runner) {α : Type} (x : Runner → Eval α) (m : Machine) :
    Prop :=
  x w (m.hoist tier) = ((x r m).1, (x r m).2.hoist tier)

namespace Tracks

theorem attempt {f : Except Signal α → Runner → Eval β} (first : Tracks tier w r x m)
    (next : Tracks tier w r (f (x r m).1) (x r m).2) :
    Tracks tier w r (fun r => Eval.attempt (x r) >>= fun o => f o r) m := by
  unfold Tracks at first
  simp only [Tracks, Eval.attempt_bind, first]
  exact next

theorem bind {f : α → Runner → Eval β} (first : Tracks tier w r x m)
    (next : ∀ a, (x r m).1 = .ok a → Tracks tier w r (f a) (x r m).2) :
    Tracks tier w r (fun r => x r >>= fun a => f a r) m := by
  rw [Eval.bind_eq_attempt_open x f]
  refine first.attempt ?_
  cases outcome : (x r m).1 with
  | ok a => exact next a outcome
  | error e => rfl

theorem deeper (inside : Tracks tier w r x { m with depth := m.depth + 1 }) :
    Tracks tier w r (fun r => Eval.deeper (x r)) m := by
  unfold Tracks at inside
  have hoisted : Eval.deeper (x w) (m.hoist tier) =
      ((x w (Machine.hoist tier { m with depth := m.depth + 1 })).1,
        { (x w (Machine.hoist tier { m with depth := m.depth + 1 })).2 with
          depth := (x w (Machine.hoist tier { m with depth := m.depth + 1 })).2.depth - 1 }) := rfl
  rw [Tracks, hoisted, inside]
  rfl

theorem reads {f : Chain → α} (same : f (m.chain.hoist tier) = f m.chain) :
    Tracks tier w r (fun _ => Eval.ofChain f) m := by
  have hoisted : (Eval.ofChain f : Eval α) (m.hoist tier) =
      (.ok (f (m.chain.hoist tier)), m.hoist tier) := rfl
  rw [Tracks, hoisted, same]
  rfl

theorem changes {f : Chain → Chain} (same : f (m.chain.hoist tier) = (f m.chain).hoist tier) :
    Tracks tier w r (fun _ => Eval.onChain f) m := by
  have hoisted : Eval.onChain f (m.hoist tier) =
      (.ok (), m.onChain fun _ => f (m.chain.hoist tier)) := rfl
  rw [Tracks, hoisted, same]
  rfl

/-- A change to a frame of one's own. -/
theorem update (staged : Staged s tier hidden .own i m) (change : Frame → Frame) :
    Tracks tier w r (fun _ => Eval.onChain fun c => c.update i change) m := by
  refine changes (f := fun c => c.update i change) (m.chain.update_hoist i ?_)
  intro d there here
  have above := staged.above nofun d there
  omega

/-! ### Let-bindings -/

theorem settle (b : Binding) (v : Evaluated) :
    Tracks tier w r (fun _ => Evaluation.settle b v) m := by
  have settings : (m.hoist tier).settings = m.settings := rfl
  simp only [Tracks, Evaluation.settle, settings]
  cases Evaluation.configOf m.settings v.value <;> rfl

theorem letConfig {b : Binding}
    (configured : ∀ e ∈ b.config, Tracks tier w r (fun r => r e i) m) :
    Tracks tier w r (fun r => Evaluation.letConfig r b i) m := by
  cases known : Assoc.get? m.configs b.id with
  | some config =>
      have knownToo : Assoc.get? (m.hoist tier).configs b.id = some config := known
      simp only [Tracks, Evaluation.letConfig_known known, Evaluation.letConfig_known knownToo]
  | none =>
      have knownToo : Assoc.get? (m.hoist tier).configs b.id = none := known
      cases given : b.config with
      | none =>
          simp only [Tracks, Evaluation.letConfig_default known given,
            Evaluation.letConfig_default knownToo given]
          rfl
      | some e =>
          simp only [Tracks, Evaluation.letConfig_computed known given,
            Evaluation.letConfig_computed knownToo given]
          exact (configured e given).bind (f := fun v _ => Evaluation.settle b v) fun v _ => settle b v

theorem memoized {b : Binding} {config : BindingConfig}
    (compute : Tracks tier w r (fun r => Evaluation.compute r i b) m) :
    Tracks tier w r (fun r => Evaluation.memoized r i b config) m := by
  have lookup : Evaluation.memo? config.reset i b (m.hoist tier) =
      Evaluation.memo? config.reset i b m := by
    cases config.reset with
    | afterScope => exact Chain.memo?_hoist i b.name
    | afterQuery | never | always => rfl
  have store : ∀ v (n : Machine), Evaluation.storeMemo config.reset i b v (n.hoist tier) =
      (Evaluation.storeMemo config.reset i b v n).hoist tier := by
    intro v n
    cases config.reset with
    | afterScope =>
        have stored : (n.chain.hoist tier).storeMemo i b.name v =
            (n.chain.storeMemo i b.name v).hoist tier :=
          Chain.update_hoist i fun _ _ _ _ => rfl
        exact congrArg (fun c => { n with chain := c }) stored
    | afterQuery | never | always => rfl
  cases found : Evaluation.memo? config.reset i b m with
  | some v =>
      have foundToo := lookup.trans found
      simp only [Tracks, Evaluation.memoized_found found, Evaluation.memoized_found foundToo]
  | none =>
      have foundToo := lookup.trans found
      simp only [Tracks, Evaluation.memoized_missing found, Evaluation.memoized_missing foundToo]
      refine compute.bind (f := fun v _ => Evaluation.memoized.remember i b config v) fun v _ => ?_
      simp only [Tracks, Evaluation.memoized.remember, store]

end Tracks

/-! ## Computations that pass -/

/-- The computation tracks itself, and leaves a machine from which the next one can go on. -/
structure PassesAt (s : Settings) (tier : Option Tier) (w r : Runner)
    (hidden : Option String) (μ : Mode) (i : Nat) {α : Type} (R : α → α → Prop)
    (x : Runner → Eval α) (m : Machine) : Prop where
  tracks : Tracks tier w r x m
  keeps : Keeps .whole μ i m (x r m).2
  confined : Confined (.functionless s) (x r m).2
  ends : (Setting.functionless hidden).Ends R (x r m).1

def Passes (s : Settings) (tier : Option Tier) (w r : Runner) (hidden : Option String)
    (μ : Mode) (i : Nat) {α : Type} (R : α → α → Prop) (x : Runner → Eval α) : Prop :=
  ∀ m, Staged s tier hidden μ i m → PassesAt s tier w r hidden μ i R x m

/-- The evaluation of expressions tracks itself, and frames are opened as usual. -/
structure PassingRunner (s : Settings) (tier : Option Tier) (w r : Runner) : Prop where
  tracks : ∀ {hidden e}, (Setting.functionless hidden).Allows e → ∀ {i m},
    Staged s tier hidden .shared i m → Tracks tier w r (fun r => r e i) m
  within : ∀ {α : Type} (kind : FrameKind) (i : Nat) (body : Nat → Eval α),
    w.within kind i body = Eval.within kind i body
  tied : TiedRunner (.functionless s) r r
  sound : SoundRunner .whole r r

namespace PassesAt

theorem next (passes : PassesAt s tier w r hidden μ i R x m)
    (staged : Staged s tier hidden μ i m) : Staged s tier hidden μ i (x r m).2 :=
  staged.after passes.keeps passes.confined

/-- A computation that only looks. -/
theorem reads (staged : Staged s tier hidden μ i m) {o : Except Signal α}
    (run : x r m = (o, m)) (runToo : x w (m.hoist tier) = (o, m.hoist tier))
    (ends : (Setting.functionless hidden).Ends R o) :
    PassesAt s tier w r hidden μ i R x m := by
  refine ⟨?_, ?_, ?_, ?_⟩
  · rw [Tracks, run, runToo]
  · rw [run]
    exact .refl m
  · rw [run]
    exact staged.confined
  · rw [run]
    exact ends

theorem catching {f : Except Signal α → Runner → Eval β} (staged : Staged s tier hidden μ i m)
    (first : PassesAt s tier w r hidden μ i R x m)
    (returned : ∀ a a', R a a' → Passes s tier w r hidden μ i Q (f (.ok a)))
    (signalled : ∀ e e', (Setting.functionless hidden).signal e e' →
      Passes s tier w r hidden μ i Q (f (.error e))) :
    PassesAt s tier w r hidden μ i Q (fun r => Eval.attempt (x r) >>= fun o => f o r) m := by
  have onwards := first.next staged
  have second : PassesAt s tier w r hidden μ i Q (f (x r m).1) (x r m).2 :=
    first.ends.elim (fun a a' related => returned a a' related _ onwards)
      fun e e' related => signalled e e' related _ onwards
  exact ⟨first.tracks.attempt second.tracks, first.keeps.trans staged.nested second.keeps,
    second.confined, second.ends⟩

theorem bind {f : α → Runner → Eval β} (staged : Staged s tier hidden μ i m)
    (first : PassesAt s tier w r hidden μ i R x m)
    (next : ∀ a a', R a a' → Passes s tier w r hidden μ i Q (f a)) :
    PassesAt s tier w r hidden μ i Q (fun r => x r >>= fun a => f a r) m := by
  rw [Eval.bind_eq_attempt_open x f]
  exact catching staged first next fun e e' related n onwards =>
    .reads onwards rfl rfl ⟨e', related⟩

/-- A frame comes and goes. -/
theorem framed {y : Runner → Eval α} (staged : Staged s tier hidden μ i m) (grown : Grown i m n)
    (inside : PassesAt s tier w r hidden ν m.chain.size R y n)
    (run : x r m = ((y r n).1, (y r n).2.onChain fun c => c.truncate m.chain.size))
    (runToo : x w (m.hoist tier) = ((y w (n.hoist tier)).1,
      (y w (n.hoist tier)).2.onChain fun c => c.truncate m.chain.size)) :
    PassesAt s tier w r hidden μ i R x m := by
  have tracks := inside.tracks
  unfold Tracks at tracks
  refine ⟨?_, ?_, ?_, ?_⟩
  · rw [Tracks, runToo, run, tracks]
    have cut : ((y r n).2.chain.hoist tier).truncate m.chain.size =
        ((y r n).2.chain.truncate m.chain.size).hoist tier :=
      Chain.truncate_hoist fun d there => (staged.stands d there).live
    exact congrArg (fun c => ((y r n).1, { (y r n).2 with chain := c })) cut
  · rw [run]
    exact inside.keeps.within staged.nested staged.live grown
  · rw [run]
    exact inside.confined.truncate _
  · rw [run]
    exact inside.ends

end PassesAt

theorem Staged.settled (runner : PassingRunner s tier w r) {b : Binding}
    (staged : Staged s tier hidden .shared i m)
    (allowed : (Setting.functionless hidden).AllowsBinding b) :
    Staged s tier hidden .shared i (Evaluation.letConfig r b i m).2 := by
  have sound := Sound.letConfig (i := i) runner.sound (nofun : Setting.whole.AllowsBinding b) m
    staged.ready
  have tied := Tied.letConfig (i := i) runner.tied allowed.revealed m staged.confined
  exact staged.after sound.keeps tied.confined

namespace Tracks

theorem letConfig_allowed (runner : PassingRunner s tier w r) {b : Binding}
    (staged : Staged s tier hidden .shared i m)
    (allowed : (Setting.functionless hidden).AllowsBinding b) :
    Tracks tier w r (fun r => Evaluation.letConfig r b i) m := by
  refine letConfig fun e given => ?_
  have part : e ∈ b.parts := by simp [Binding.parts, Option.mem_def.mp given]
  exact runner.tracks (allowed.part part) staged

/-- A let-binding whose computation tracks itself. -/
theorem force (runner : PassingRunner s tier w r) {b : Binding}
    (staged : Staged s tier hidden .shared i m)
    (allowed : (Setting.functionless hidden).AllowsBinding b)
    (compute : ∀ n, Staged s tier hidden .shared i n →
      Tracks tier w r (fun r => Evaluation.compute r i b) n) :
    Tracks tier w r (fun r => Evaluation.force r i b) m := by
  simp only [Evaluation.force_eq]
  exact (letConfig_allowed runner staged allowed).bind
    (f := fun config r => Evaluation.memoized r i b config) fun config _ =>
      memoized (compute _ (staged.settled runner allowed))

end Tracks

namespace Passes

/-- What the rules allow, whether a name is hidden or not. -/
theorem of_rules (runner : PassingRunner s tier w r) {x' y' : Runner → Eval α}
    {R' Q' : α → α → Prop}
    (plain : Alike (.functionless none) μ i i R' x x') (whole : Alike .whole μ i i Q' x y')
    (wider : ∀ a a', R' a a' → ∃ a', R a a')
    (tracks : ∀ m, Staged s tier hidden μ i m → Tracks tier w r x m) :
    Passes s tier w r hidden μ i R x := by
  intro m staged
  have tied := plain.tied runner.tied rfl m staged.confined
  have sound := whole.sound rfl runner.sound m staged.ready
  exact ⟨tracks m staged, sound.keeps, tied.confined, tied.ends.revealed wider⟩

theorem within (runner : PassingRunner s tier w r) (kind : FrameKind)
    {x : Nat → Runner → Eval α} (body : ∀ j, Passes s tier w r hidden .own j R (x j)) :
    Passes s tier w r hidden μ i R (fun r => r.within kind i fun j => x j r) := by
  intro m staged
  have live : ∀ d ∈ tier, d.inner < m.chain.size := fun d there => (staged.stands d there).live
  have opened : (m.hoist tier).onChain (fun c => c.push kind (some i)) =
      (m.onChain fun c => c.push kind (some i)).hoist tier :=
    congrArg (fun c => { m with chain := c }) (m.chain.push_hoist live kind (some i))
  refine .framed staged (.push m kind i) (body m.chain.size _ (staged.push kind)) ?_ ?_
  · rw [runner.sound.opens]
    exact Eval.within_apply kind i _ m
  · rw [runner.within, Eval.within_apply, opened, Machine.chain_hoist, Chain.size_hoist]

theorem letting (runner : PassingRunner s tier w r) (kind : FrameKind)
    {bindings : List Binding} (allowed : (Setting.functionless hidden).AllowsLet bindings)
    {x : Nat → Runner → Eval α}
    (body : ∀ j, Passes s tier w r hidden (.letting bindings) j R (x j)) :
    Passes s tier w r hidden μ i R (fun r => r.within kind i fun j => do
      Evaluation.declareAll j bindings
      x j r) := by
  intro m staged
  have live : ∀ d ∈ tier, d.inner < m.chain.size := fun d there => (staged.stands d there).live
  have opened : (m.hoist tier).letFrame kind i bindings =
      (m.letFrame kind i bindings).hoist tier := by
    have declared := m.chain.letFrame_hoist live kind (some i) bindings
    simp only [Machine.letFrame, Machine.chain_hoist, Chain.size_hoist]
    exact congrArg (fun c => { m with chain := c }) declared
  refine .framed staged (.letFrame m kind i bindings)
    (body m.chain.size _ (staged.letFrame kind allowed)) ?_ ?_
  · rw [runner.sound.opens]
    exact Eval.letFrame_apply kind i bindings (fun j => x j r) m
  · rw [runner.within, Eval.letFrame_apply, opened, Machine.chain_hoist, Chain.size_hoist]

end Passes

namespace Tracks

/-- A name means the same with the frame hoisted, unless it is the one that the tier shows. A
let-binding that it stands for is computed where it is declared: inside the tier, where the name is
hidden, or outside. -/
theorem named (runner : PassingRunner s tier w r) {name : String}
    (allowed : (Setting.functionless hidden).Allows (.named name))
    (compute : ∀ o b, (Setting.functionless hidden).AllowsBinding b →
      Passes s tier w r hidden .shared o (Setting.functionless hidden).result
        fun r => Evaluation.compute r o b)
    (outer : hidden ≠ none → ∀ o b, (Setting.functionless none).AllowsBinding b →
      Passes s tier w r none .shared o (Setting.functionless none).result
        fun r => Evaluation.compute r o b) (staged : Staged s tier hidden μ i m) :
    Tracks tier w r (fun r => Evaluation.nameRef r name i) m := by
  have seen : (m.hoist tier).chain.resolve? i name = m.chain.resolve? i name := by
    refine Chain.resolve?_hoist staged.nested staged.stands i fun d there member same => ?_
    exact allowed.all.root.2 d.name (staged.hides d there member) (congrArg Expr.named same)
  simp only [Tracks, Evaluation.nameRef_apply, seen]
  cases found : m.chain.resolve? i name with
  | none => rfl
  | some resolved =>
      cases resolved with
      | value v => rfl
      | binding o b =>
          obtain ⟨member, f, slot, frame, there, same⟩ := Chain.owner_of_resolve? found
          have here := staged.outward member
          have may : (Setting.functionless none).AllowsBinding b := by
            rw [← same]
            exact staged.confined.declares o f name slot frame there
          have declared : Assoc.get? f.declared name = some b := by
            rw [Frame.declared, Assoc.get?_mapValues, there, ← same]
            rfl
          by_cases hides : (Setting.functionless hidden).AllowsBinding b
          · exact force runner here hides fun n later => (compute o b hides n later).tracks
          · -- The let-binding may refer to the name, so the tier is not around its frame.
            have apart : ∀ d ∈ tier, d.inner ∉ m.chain.ancestors o := by
              intro d there inside
              refine hides ?_
              rw [here.hides d there inside]
              exact staged.inside d there o f name b inside frame declared
            have partly : hidden ≠ none := by
              rintro rfl
              exact hides may
            exact force runner (here.outside apart) may fun n later =>
              (outer partly o b may n later).tracks

/-! ### Effects -/

theorem deliver (component : String) (v : Value) :
    Tracks tier w r (fun _ => Eval.deliver component v) m := by
  have outlets : (m.hoist tier).outlets = m.outlets := rfl
  simp only [Tracks, Eval.deliver_apply, outlets]
  cases Assoc.get? m.outlets component with
  | none => rfl
  | some outlet =>
      have buffer : (m.hoist tier).buffer outlet.buffer = m.buffer outlet.buffer := rfl
      simp only [Machine.deliver, buffer]
      rfl

theorem withStore (operation : Nat → Store.Backend → Except StoreError α × Store.Backend)
    (library name : String) :
    Tracks tier w r (fun _ => Evaluation.withStore operation library name) m := by
  have stores : (m.hoist tier).store = m.store := rfl
  simp only [Tracks, Evaluation.withStore_apply, stores]
  cases m.store <;> rfl

theorem markHandled (staged : Staged s tier hidden μ i m) (flag : Bool) :
    Tracks tier w r (fun _ => Evaluation.markHandled i flag) m := by
  have nearest : (m.hoist tier).chain.nearest? i .handler = m.chain.nearest? i .handler :=
    Chain.nearest?_hoist staged.nested staged.stands i
  simp only [Tracks, Evaluation.markHandled_apply, nearest]
  cases m.chain.nearest? i .handler with
  | none => rfl
  | some j =>
      have marked : (m.chain.hoist tier).setHandled j flag =
          (m.chain.setHandled j flag).hoist tier :=
        Chain.update_hoist j fun _ _ _ _ => rfl
      exact congrArg (fun c => (Except.ok (Value.bool flag), { m with chain := c })) marked

theorem prefetch (runner : PassingRunner s tier w r) {b : Binding}
    (staged : Staged s tier hidden .shared i m)
    (allowed : (Setting.functionless hidden).AllowsBinding b)
    (compute : ∀ n, Staged s tier hidden .shared i n →
      Tracks tier w r (fun r => Evaluation.compute r i b) n) :
    Tracks tier w r (fun r => Evaluation.prefetch r i b) m := by
  refine (letConfig_allowed runner staged allowed).bind (f := fun config r =>
    if config.timing = .eager then discard (Evaluation.force r i b) else Pure.pure ())
    fun config _ => ?_
  have onwards := staged.settled runner allowed
  by_cases eager : config.timing = .eager
  · simp only [eager, if_true]
    exact (force runner onwards allowed compute).bind (f := fun _ _ => Pure.pure ()) fun _ _ => rfl
  · simp only [eager, if_false]
    exact rfl

end Tracks

/-- **A computation without functions does the same with the frame hoisted,** if it does not refer to
the name of the tier where the tier is around it. -/
theorem Alike.passes (runner : PassingRunner s tier w r)
    (outer : hidden ≠ none → ∀ o b, (Setting.functionless none).AllowsBinding b →
      Passes s tier w r none .shared o (Setting.functionless none).result
        fun r => Evaluation.compute r o b) {i' : Nat} {x' : Runner → Eval α}
    (alike : Alike (.functionless hidden) μ i i' R x x') :
    Passes s tier w r hidden μ i R x := by
  have same : ∀ {γ : Type} {act : Translation → γ → γ} (a a' : γ),
      (Setting.functionless none).Related act a a' →
        ∃ a', (Setting.functionless hidden).Related act a a' :=
    fun _ a' related => ⟨a', related.revealed⟩
  have unit : ∀ a a' : Unit, a = a' → ∃ a', a = a' := fun a a' eq => ⟨a', eq⟩
  induction alike with
  | pure related => exact fun m staged => .reads staged rfl rfl ⟨_, related⟩
  | throw related => exact fun m staged => .reads staged rfl rfl ⟨_, related⟩
  | bind first next ihFirst ihNext => exact fun m staged => (ihFirst m staged).bind staged ihNext
  | catching first returned signalled passed passedToo ihFirst ihReturned ihSignalled =>
      exact fun m staged => (ihFirst m staged).catching staged ihReturned ihSignalled
  | run allowed =>
      exact .of_rules runner (.run allowed.revealed) (.run (.of_effects rfl _)) same
        fun m staged => runner.tracks allowed staged.shared
  | current =>
      exact .of_rules runner .current .current same fun m staged =>
        .reads (Chain.current_hoist staged.nested staged.stands _)
  | cursor =>
      exact .of_rules runner .cursor .cursor same fun m staged =>
        .reads (Chain.cursor?_hoist staged.nested staged.stands _)
  | isHandled =>
      exact .of_rules runner .isHandled .isHandled (fun a a' eq => ⟨a', eq⟩) fun m staged =>
        .reads (Chain.isHandled_hoist _)
  | setCursor related =>
      exact .of_rules runner (.setCursor related.revealed) (.setCursor (.of_effects rfl _)) unit
        fun m staged => .update staged _
  | setValue name related =>
      exact .of_rules runner (.setValue name related.revealed) (.setValue name (.of_effects rfl _))
        unit fun m staged => .update staged _
  | setHandled flag =>
      exact .of_rules runner (.setHandled flag) (.setHandled flag) unit
        fun m staged => .update staged _
  | within kind handlers body ih => exact .within runner kind fun j => ih j 0
  | letting kind handlers allowed body ih => exact .letting runner kind allowed fun j => ih j 0
  | unguarded h dropped => cases dropped
  | prefetch member allowed compute ih =>
      exact .of_rules runner (.prefetch member allowed.revealed fun _ _ => .compute allowed.revealed)
        (.prefetch member (nofun : Setting.whole.AllowsBinding _) fun _ _ => .compute nofun) unit
        fun m staged => .prefetch runner staged.shared allowed fun n later =>
          (ih _ 0 n later).tracks
  | named allowed compute ih =>
      exact .of_rules runner (.named allowed.revealed fun _ _ _ may => .compute may)
        (.named (.of_effects rfl _) fun _ _ _ may => .compute may) same fun m staged =>
        .named runner allowed (fun o b may => ih o 0 b may) outer staged
  | once function => exact absurd function (Setting.functionless_free _ _)
  | makeLambda d allowed => exact allowed.all.root.1.elim
  | drain source =>
      exact .of_rules runner (.drain source.revealed) (.drain (.of_effects rfl _)) same
        fun m staged => rfl
  | @deliver _ _ _ input component allowed v v' related =>
      have anything : Setting.whole.Allows (.sink input component) := .of_effects rfl _
      exact .of_rules runner (.deliver allowed.revealed related.revealed)
        (.deliver anything (.of_effects rfl v)) same fun m staged => .deliver component v
  | @withStore _ _ _ _ act operation _ name args allowed related =>
      have anything : Setting.whole.Allows (.call "state" name args) := .of_effects rfl _
      have results : ∀ n b, Setting.whole.Related (fun τ o => (o.1.map (act τ), o.2))
          (operation n b) _ := fun n b => .of_effects rfl (operation n b)
      exact .of_rules runner (.withStore allowed.revealed fun n b => (related n b).revealed)
        (.withStore anything results) same fun m staged => .withStore operation "state" name
  | @markHandled _ _ _ args allowed flag =>
      have anything : Setting.whole.Allows (.call "error" "handled" args) := .of_effects rfl _
      exact .of_rules runner (.markHandled allowed.revealed flag) (.markHandled anything flag) same
        fun m staged => .markHandled staged flag

/-! ## Evaluation -/

theorem Passes.node (runner : PassingRunner s tier w r) {e : Expr}
    (allowed : (Setting.functionless hidden).Allows e) :
    Passes s tier w r hidden .shared i (Setting.functionless hidden).result
      fun r => Evaluation.node r e i := by
  have outer : ∀ o b, (Setting.functionless none).AllowsBinding b →
      Passes s tier w r none .shared o (Setting.functionless none).result
        fun r => Evaluation.compute r o b := by
    intro o b may
    have alike : Alike (.functionless none) .shared o o _ (fun r => Evaluation.compute r o b) _ :=
      .compute may
    exact alike.passes runner fun partly => absurd rfl partly
  have alike : Alike (.functionless hidden) .shared i i _ (fun r => Evaluation.node r e i) _ :=
    .node allowed
  exact alike.passes runner fun _ => outer

/-- Evaluation with one more level of depth. -/
theorem PassingRunner.deeper (runner : PassingRunner s tier w r) {e : Expr}
    (allowed : (Setting.functionless hidden).Allows e)
    (staged : Staged s tier hidden .shared i m) :
    Tracks tier w r (fun r => Eval.deeper (Evaluation.node r e i)) m :=
  .deeper (Passes.node runner allowed _ (staged.atDepth _)).tracks

/-- **Evaluation without functions does the same with the frame hoisted.** -/
theorem PassingRunner.ofDepth (s : Settings) (tier : Option Tier) (left : Nat) :
    PassingRunner s tier (.ofDepth left) (.ofDepth left) := by
  have others := fun left => And.intro (TiedRunner.functionless s left)
    (SoundRunner.ofDepth (S := .whole) rfl (.basic ..) left)
  induction left with
  | zero => exact ⟨fun _ _ _ _ => rfl, fun _ _ _ => rfl, (others 0).1, (others 0).2⟩
  | succ left ih =>
      exact ⟨fun allowed _ _ staged => ih.deeper allowed staged, fun _ _ _ => rfl,
        (others (left + 1)).1, (others (left + 1)).2⟩

/-- Evaluation meets the conditions of a watch if they are met wherever an expression without
functions may be evaluated. -/
theorem PassingRunner.watched {ok : Watch}
    (starts : ∀ left e i m, Staged s none none .shared i m → ok.starts left e i m)
    (opens : ∀ kind i m, ok.opens kind i m) (other : Runner) (left : Nat) :
    PassingRunner s none (watched ok other left) (.ofDepth left) := by
  have within : ∀ left {α : Type} (kind : FrameKind) (i : Nat) (body : Nat → Eval α),
      (TreeQuery.watched ok other left).within kind i body = Eval.within kind i body :=
    fun _ _ kind i body => funext fun m => watched_within (opens kind i m)
  induction left with
  | zero =>
      have plain := PassingRunner.ofDepth s none 0
      refine ⟨fun {_ e} _ i m staged => ?_, within 0, plain.tied, plain.sound⟩
      exact watched_zero (starts 0 e i m (staged.outside nofun))
  | succ left ih =>
      have plain := PassingRunner.ofDepth s none (left + 1)
      refine ⟨fun {_ e} allowed i m staged => ?_, within (left + 1), plain.tied, plain.sound⟩
      exact (watched_succ (starts (left + 1) e i m (staged.outside nofun))).trans
        (ih.deeper allowed staged)

end TreeQuery
