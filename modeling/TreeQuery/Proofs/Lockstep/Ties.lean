import TreeQuery.Proofs.Frames.Sound
import TreeQuery.Proofs.Translation.Chains

/-!
# Machines that are tied

Two runs of a program on two machines are compared. A `Comparison` says what the machines have in
common: the frames and what is remembered for the time of an evaluation, and, if the comparison is
lasting, also what outlives it. The first machine holds only what may occur (`Confined`); the second
holds the same, with other identities of functions (`Tie`).

What a computation reads off tied machines is related, and what it does to them keeps them tied.
-/

set_option autoImplicit false

namespace TreeQuery

/-- An expression that hands nothing to a component and leaves the store alone. Its bindings have no
configuration. -/
def Expr.Secluded : Expr → Prop
  | .sink _ _ => False
  | .call library _ _ => library ≠ "state"
  | .letIn bindings _ _ | .select bindings _ _ => ∀ b ∈ bindings, b.config = none
  | _ => True

/-- Only secluded expressions and no streams occur. -/
structure Setting.Secluded (S : Setting) : Prop where
  plain : S.plain = true
  occurs : ∀ e, S.occurs e → e.Secluded
  stream : ∀ id, S.test.stream id ≠ id

/-- The configuration of a let-binding that has none of its own. -/
def Settings.config (s : Settings) : BindingConfig :=
  ⟨s.reset, s.timing, Overrides.none⟩

/-- What two runs have in common. -/
structure Comparison (S : Setting) where
  /-- What was settled in this machine, and kept for good, stays. -/
  base : Machine
  /-- The settings of the first machine. -/
  settings : Settings
  /-- The greatest depth of the second machine. -/
  limit : Nat
  /-- Whether the machines have in common what outlives an evaluation. -/
  lasting : Bool
  /-- How much further the second machine is in giving out identities. -/
  offset : Nat
  /-- The identities that may be given out, as far as the machines are compared. -/
  fits : Nat → Prop
  /-- The errors at which the comparison ends. -/
  fatal : Fault → Prop
  /-- The let-bindings known to have no configuration. -/
  bare : Nat → Prop
  kept : S.keep = true
  identities : S.plain = true → ∀ id, S.test.lambda id = id
  fits_of_le : ∀ n n', n ≤ n' → fits n' → fits n
  numbered : ∀ n, fits (n + 1) → S.renumber n = n + offset
  unhandled : ∀ f, fatal f → S.unhandled = true
  config : ∀ b, S.AllowsBinding b → bare b.id → b.config = none
  apart : lasting = false → S.Secluded ∧ settings.reset ≠ .never ∧ ∀ id, bare id

variable {S : Setting} {C : Comparison S} {m m' : Machine}

/-! ## Frames -/

abbrev Setting.chains (S : Setting) : Chain → Chain → Prop := S.Related (Chain.under id)

/-- Only let-bindings that may occur are declared. -/
def Chain.Declares (S : Setting) (c : Chain) : Prop :=
  ∀ j f name slot, c.frame? j = some f → Assoc.get? f.lets name = some slot →
    S.AllowsBinding slot.binding

namespace Chain.Declares

variable {c : Chain} (declares : c.Declares S)

include declares

theorem push (kind : FrameKind) (parent : Option Nat) : (c.push kind parent).Declares S := by
  intro j f name slot found declared
  rw [Chain.frame?_push] at found
  split at found
  · cases found
    cases declared
  · exact declares j f name slot found declared

theorem truncate (n : Nat) : (c.truncate n).Declares S := by
  intro j f name slot found declared
  rw [Chain.frame?_truncate] at found
  split at found
  · exact declares j f name slot found declared
  · cases found

/-- A change that brings no new bindings. -/
theorem update (i : Nat) {change : Frame → Frame}
    (old : ∀ f name slot, Assoc.get? (change f).lets name = some slot →
      ∃ before, Assoc.get? f.lets name = some before ∧ before.binding = slot.binding) :
    (c.update i change).Declares S := by
  intro j f name slot found declared
  rw [Chain.frame?_update] at found
  split at found
  · obtain ⟨before, there, rfl⟩ := Option.map_eq_some_iff.mp found
    obtain ⟨slot', declaredThere, same⟩ := old before name slot declared
    rw [← same]
    exact declares j before name slot' there declaredThere
  · exact declares j f name slot found declared

theorem letFrame {bindings : List Binding} (allowed : S.AllowsLet bindings) (kind : FrameKind)
    (i : Nat) : ((c.push kind (some i)).update c.size fun f =>
      { f with lets := declareIn f.lets bindings }).Declares S := by
  intro j f name slot found declared
  rw [Chain.frame?_update] at found
  split at found
  · obtain ⟨before, there, rfl⟩ := Option.map_eq_some_iff.mp found
    rcases get?_declareIn declared with earlier | ⟨b, member, -, rfl⟩
    · exact declares.push kind (some i) j before name slot there earlier
    · exact allowed.each member
  · exact declares.push kind (some i) j f name slot found declared

end Chain.Declares

/-! ## Machines -/

/-- What was settled and what is kept for good is still there. -/
structure Machine.Extends (base m : Machine) : Prop where
  configs : ∀ id config, Assoc.get? base.configs id = some config →
    Assoc.get? m.configs id = some config
  persistent : ∀ id v, Assoc.get? base.persistent id = some v → Assoc.get? m.persistent id = some v

theorem Machine.Extends.refl (m : Machine) : m.Extends m :=
  ⟨fun _ _ found => found, fun _ _ found => found⟩

theorem Machine.Extends.trans {a b c : Machine} (first : a.Extends b) (second : b.Extends c) :
    a.Extends c :=
  ⟨fun id config found => second.configs id config (first.configs id config found),
    fun id v found => second.persistent id v (first.persistent id v found)⟩

/-- What is missing was missing before. -/
theorem Machine.Extends.free {base m : Machine} (grown : base.Extends m) {id : Nat}
    (missing : Assoc.get? m.configs id = none) : Assoc.get? base.configs id = none := by
  cases found : Assoc.get? base.configs id with
  | none => rfl
  | some config => cases missing.symm.trans (grown.configs id config found)

/-- A machine that holds only what may occur. -/
structure Confined (C : Comparison S) (m : Machine) : Prop where
  settings : m.settings = C.settings
  grown : C.base.Extends m
  chain : S.plain = true → m.chain.under id S.test = m.chain
  declares : m.chain.Declares S
  perQuery : S.plain = true → Assoc.mapValues (Evaluated.translate S.test) m.perQuery = m.perQuery
  persistent : S.plain = true →
    Assoc.mapValues (Evaluated.translate S.test) m.persistent = m.persistent
  forced : S.plain = true → Assoc.mapValues (Evaluated.translate S.test) m.forced = m.forced
  configs : S.plain = true → Assoc.mapValues (BindingConfig.translate S.test) m.configs = m.configs
  streams : C.lasting = true → S.plain = true →
    Assoc.mapValues (List.map (Value.translate S.test)) m.streams = m.streams
  defaults : ∀ id, C.bare id → ∀ config, Assoc.get? m.configs id = some config →
    config = C.settings.config

/-- What outlives an evaluation is the same in the second machine. -/
structure Lasting (S : Setting) (m m' : Machine) : Prop where
  configs : m'.configs = Assoc.mapValues (BindingConfig.translate S.image) m.configs
  persistent : m'.persistent = Assoc.mapValues (Evaluated.translate S.image) m.persistent
  forced : m'.forced = m.forced.map fun entry => (S.renumber entry.1, entry.2.translate S.image)
  streams : m'.streams = Assoc.mapValues (List.map (Value.translate S.image)) m.streams
  buffers : m'.buffers = Assoc.mapValues (List.map (Value.translate S.image)) m.buffers
  outlets : m'.outlets = m.outlets
  store : m'.store = m.store

/-- What outlives an evaluation makes no difference in the second machine. -/
structure Apart (C : Comparison S) (m m' : Machine) : Prop where
  forced : ∀ id, Assoc.get? m'.forced (S.renumber id) =
    (Assoc.get? m.forced id).map (Evaluated.translate S.image)
  configs : ∀ b, S.AllowsBinding b → ∀ config, Assoc.get? m'.configs b.id = some config →
    config = C.settings.config

structure Tie (C : Comparison S) (m m' : Machine) : Prop where
  settings : m'.settings = { C.settings with maxDepth := C.limit }
  depth : m'.depth = m.depth
  chain : m'.chain = m.chain.under id S.image
  perQuery : m'.perQuery = Assoc.mapValues (Evaluated.translate S.image) m.perQuery
  nextId : m'.nextId = m.nextId + C.offset
  lasting : C.lasting = true → Lasting S m m'
  apart : C.lasting = false → Apart C m m'

theorem Confined.chains (confined : Confined C m) : S.chains m.chain (m.chain.under id S.image) :=
  ⟨rfl, confined.chain⟩

theorem Tie.chains (tie : Tie C m m') (confined : Confined C m) : S.chains m.chain m'.chain :=
  ⟨tie.chain, confined.chain⟩

theorem Tie.size (tie : Tie C m m') : m'.chain.size = m.chain.size := by
  rw [tie.chain, Chain.size_under]

theorem Confined.config (confined : Confined C m) : m.settings.config = C.settings.config := by
  rw [confined.settings]

theorem Tie.config (tie : Tie C m m') : m'.settings.config = C.settings.config := by
  rw [tie.settings]
  rfl

/-! ### What a computation does -/

theorem Confined.onChain (confined : Confined C m) {f : Chain → Chain}
    (inert : S.plain = true → (f m.chain).under id S.test = f m.chain)
    (declares : (f m.chain).Declares S) : Confined C (m.onChain f) :=
  { confined with chain := inert, declares := declares, grown := { confined.grown with } }

theorem Tie.onChain (tie : Tie C m m') {f g : Chain → Chain}
    (image : g m'.chain = (f m.chain).under id S.image) :
    Tie C (m.onChain f) (m'.onChain g) :=
  { tie with
    chain := image
    lasting := fun lasting => { tie.lasting lasting with }
    apart := fun apart => { tie.apart apart with } }

theorem Confined.truncate (confined : Confined C m) (n : Nat) :
    Confined C (m.onChain fun c => c.truncate n) := by
  refine confined.onChain (f := fun c => c.truncate n) (fun plain => ?_)
    (confined.declares.truncate n)
  rw [Chain.under_truncate, confined.chain plain]

theorem Tie.truncate (tie : Tie C m m') (n : Nat) :
    Tie C (m.onChain fun c => c.truncate n) (m'.onChain fun c => c.truncate n) := by
  refine tie.onChain ?_
  rw [Chain.under_truncate, tie.chain]

theorem Confined.settled (confined : Confined C m) {b : Binding} {config : BindingConfig}
    (free : Assoc.get? C.base.configs b.id = none)
    (inert : S.plain = true → config.translate S.test = config)
    (default : C.bare b.id → config = C.settings.config) :
    Confined C (Evaluation.settled b config m) := by
  refine { confined with
    grown := { confined.grown with configs := fun id other found => ?_ }
    configs := fun plain => ?_
    defaults := fun id bare other found => ?_ }
  · have apart : b.id ≠ id := by
      rintro rfl
      cases free.symm.trans found
    simp only [Evaluation.settled, Assoc.get?_insert, apart, if_false]
    exact confined.grown.configs id other found
  · simp only [Evaluation.settled]
    rw [← Assoc.insert_mapValues, confined.configs plain, inert plain]
  · simp only [Evaluation.settled, Assoc.get?_insert] at found
    split at found
    · rename_i here
      cases found
      exact default (here ▸ bare)
    · exact confined.defaults id bare other found

theorem Tie.settled (tie : Tie C m m') (lasting : C.lasting = true) (b : Binding)
    (config : BindingConfig) : Tie C (Evaluation.settled b config m)
      (Evaluation.settled b (config.translate S.image) m') := by
  refine { tie with lasting := fun _ => { tie.lasting lasting with configs := ?_ }, apart := ?_ }
  · simp only [Evaluation.settled]
    rw [(tie.lasting lasting).configs, Assoc.insert_mapValues]
  · intro apart
    cases apart.symm.trans lasting

/-- Where the machines are apart, each of them settles configurations for itself. -/
theorem Tie.settledFirst (tie : Tie C m m') (apart : C.lasting = false) (b : Binding)
    (config : BindingConfig) : Tie C (Evaluation.settled b config m) m' :=
  { tie with
    lasting := fun lasting => by cases apart.symm.trans lasting
    apart := fun _ => { tie.apart apart with } }

theorem Tie.settledSecond (tie : Tie C m m') (apart : C.lasting = false) (b : Binding) :
    Tie C m (Evaluation.settled b C.settings.config m') := by
  refine { tie with
    lasting := fun lasting => by cases apart.symm.trans lasting
    apart := fun _ => { tie.apart apart with configs := fun other allowed config found => ?_ } }
  simp only [Evaluation.settled, Assoc.get?_insert] at found
  split at found
  · cases found
    rfl
  · exact (tie.apart apart).configs other allowed config found

/-! ### What is remembered -/

theorem Confined.memo? (confined : Confined C m) (reset : ResetPolicy) (owner : Nat) (b : Binding)
    (plain : S.plain = true) : (Evaluation.memo? reset owner b m).map (Evaluated.translate S.test) =
      Evaluation.memo? reset owner b m := by
  cases reset with
  | afterScope =>
      have inside := m.chain.memo?_under id S.test owner b.name
      rw [confined.chain plain] at inside
      exact inside.symm
  | afterQuery =>
      simp only [Evaluation.memo?]
      rw [← Assoc.get?_mapValues, confined.perQuery plain]
  | never =>
      simp only [Evaluation.memo?]
      rw [← Assoc.get?_mapValues, confined.persistent plain]
  | always => rfl

theorem Tie.memo? (tie : Tie C m m') {reset : ResetPolicy}
    (policy : C.lasting = false → reset ≠ .never) (owner : Nat) (b : Binding) :
    Evaluation.memo? reset owner b m' =
      (Evaluation.memo? reset owner b m).map (Evaluated.translate S.image) := by
  cases reset with
  | afterScope =>
      rw [Evaluation.memo?, tie.chain]
      exact m.chain.memo?_under id S.image owner b.name
  | afterQuery =>
      rw [Evaluation.memo?, tie.perQuery]
      exact Assoc.get?_mapValues _ m.perQuery b.id
  | never =>
      cases lasting : C.lasting with
      | false => exact absurd rfl (policy lasting)
      | true =>
          rw [Evaluation.memo?, (tie.lasting lasting).persistent]
          exact Assoc.get?_mapValues _ m.persistent b.id
  | always => rfl

theorem Chain.Declares.storeMemo {c : Chain} (declares : c.Declares S) (i : Nat) (name : String)
    (v : Evaluated) : (c.storeMemo i name v).Declares S := by
  refine declares.update i fun f other slot found => ?_
  simp only [Assoc.modify] at found
  cases there : Assoc.get? f.lets name with
  | none =>
      rw [there] at found
      exact ⟨slot, found, rfl⟩
  | some before =>
      rw [there] at found
      simp only [Assoc.get?_insert] at found
      split at found
      · rename_i here
        cases found
        exact ⟨before, here ▸ there, rfl⟩
      · exact ⟨slot, found, rfl⟩

theorem Confined.storeMemo (confined : Confined C m) {reset : ResetPolicy} {owner : Nat}
    {b : Binding} {v : Evaluated} (inert : S.plain = true → v.translate S.test = v)
    (free : reset = .never → Assoc.get? C.base.persistent b.id = none) :
    Confined C (Evaluation.storeMemo reset owner b v m) := by
  cases reset with
  | afterScope =>
      rw [Evaluation.storeMemo]
      refine confined.onChain (fun plain => ?_) (confined.declares.storeMemo owner b.name v)
      rw [Chain.under_storeMemo, confined.chain plain, inert plain]
  | afterQuery =>
      refine { confined with
        grown := { confined.grown with }
        perQuery := fun plain => ?_ }
      simp only [Evaluation.storeMemo]
      rw [← Assoc.insert_mapValues, confined.perQuery plain, inert plain]
  | never =>
      refine { confined with
        grown := { confined.grown with persistent := fun id other found => ?_ }
        persistent := fun plain => ?_ }
      · have apart : b.id ≠ id := by
          rintro rfl
          cases (free rfl).symm.trans found
        simp only [Evaluation.storeMemo, Assoc.get?_insert, apart, if_false]
        exact confined.grown.persistent id other found
      · simp only [Evaluation.storeMemo]
        rw [← Assoc.insert_mapValues, confined.persistent plain, inert plain]
  | always => exact confined

theorem Tie.storeMemo (tie : Tie C m m') {reset : ResetPolicy}
    (policy : C.lasting = false → reset ≠ .never) (owner : Nat) (b : Binding) (v : Evaluated) :
    Tie C (Evaluation.storeMemo reset owner b v m)
      (Evaluation.storeMemo reset owner b (v.translate S.image) m') := by
  cases reset with
  | afterScope =>
      rw [Evaluation.storeMemo, Evaluation.storeMemo]
      refine tie.onChain ?_
      rw [Chain.under_storeMemo, tie.chain]
  | afterQuery =>
      refine { tie with
        perQuery := ?_
        lasting := fun lasting => { tie.lasting lasting with }
        apart := fun apart => { tie.apart apart with } }
      simp only [Evaluation.storeMemo]
      rw [← Assoc.insert_mapValues, tie.perQuery]
  | never =>
      refine { tie with
        lasting := fun lasting => { tie.lasting lasting with persistent := ?_ }
        apart := fun apart => absurd rfl (policy apart) }
      simp only [Evaluation.storeMemo]
      rw [← Assoc.insert_mapValues, (tie.lasting lasting).persistent]
  | always => exact tie

/-! ### Functions -/

theorem Assoc.get?_renumbered {α : Type} {ρ : Nat → Nat} (injective : ∀ a b, ρ a = ρ b → a = b)
    (f : α → α) (t : Assoc Nat α) (id : Nat) :
    get? (t.map fun entry => (ρ entry.1, f entry.2)) (ρ id) = (get? t id).map f := by
  induction t with
  | nil => rfl
  | cons entry rest ih =>
      obtain ⟨k, v⟩ := entry
      by_cases here : k = id
      · simp [get?, here]
      · have apart : ρ k ≠ ρ id := fun same => here (injective k id same)
        simp [get?, here, apart, ih]

theorem Assoc.insert_renumbered {α : Type} {ρ : Nat → Nat} (injective : ∀ a b, ρ a = ρ b → a = b)
    (f : α → α) (t : Assoc Nat α) (id : Nat) (v : α) :
    insert (t.map fun entry => (ρ entry.1, f entry.2)) (ρ id) (f v) =
      (insert t id v).map fun entry => (ρ entry.1, f entry.2) := by
  induction t with
  | nil => rfl
  | cons entry rest ih =>
      obtain ⟨k, w⟩ := entry
      by_cases here : k = id
      · simp [insert, here]
      · have apart : ρ k ≠ ρ id := fun same => here (injective k id same)
        simp [insert, here, apart, ih]

theorem Tie.forced (tie : Tie C m m') (id : Nat) : Assoc.get? m'.forced (S.renumber id) =
    (Assoc.get? m.forced id).map (Evaluated.translate S.image) := by
  cases lasting : C.lasting with
  | true =>
      rw [(tie.lasting lasting).forced]
      exact Assoc.get?_renumbered S.injective _ m.forced id
  | false => exact (tie.apart lasting).forced id

theorem Confined.keepForced (confined : Confined C m) (id : Nat) {done : Evaluated}
    (inert : S.plain = true → done.translate S.test = done) :
    Confined C { m with forced := Assoc.insert m.forced id done } := by
  refine { confined with
    grown := { confined.grown with }
    forced := fun plain => ?_ }
  rw [← Assoc.insert_mapValues, confined.forced plain, inert plain]

theorem Tie.keepForced (tie : Tie C m m') (id : Nat) (done : Evaluated) :
    Tie C { m with forced := Assoc.insert m.forced id done }
      { m' with forced := Assoc.insert m'.forced (S.renumber id) (done.translate S.image) } := by
  refine { tie with
    lasting := fun lasting => { tie.lasting lasting with forced := ?_ }
    apart := fun apart => { tie.apart apart with forced := fun other => ?_ } }
  · simp only [(tie.lasting lasting).forced]
    exact Assoc.insert_renumbered S.injective _ m.forced id done
  · simp only [Assoc.get?_insert]
    by_cases same : id = other
    · simp [same]
    · have distinct : S.renumber id ≠ S.renumber other := fun eq => same (S.injective id other eq)
      simp only [same, distinct, if_false]
      exact tie.forced other

theorem Confined.counted (confined : Confined C m) : Confined C { m with nextId := m.nextId + 1 } :=
  { confined with grown := { confined.grown with } }

theorem Tie.counted (tie : Tie C m m') :
    Tie C { m with nextId := m.nextId + 1 } { m' with nextId := m'.nextId + 1 } :=
  { tie with
    nextId := by simp only [tie.nextId]; omega
    lasting := fun lasting => { tie.lasting lasting with }
    apart := fun apart => { tie.apart apart with } }

theorem Confined.atDepth (confined : Confined C m) (depth : Nat) : Confined C { m with depth } :=
  { confined with grown := { confined.grown with } }

theorem Tie.atDepth (tie : Tie C m m') {depth depth' : Nat} (same : depth' = depth) :
    Tie C { m with depth } { m' with depth := depth' } :=
  { tie with
    depth := same
    lasting := fun lasting => { tie.lasting lasting with }
    apart := fun apart => { tie.apart apart with } }

/-! ### Streams, components and the store -/

theorem Tie.stream (tie : Tie C m m') (lasting : C.lasting = true) (id : Nat) :
    m'.stream id = (m.stream id).map (Value.translate S.image) := by
  simp only [Machine.stream, (tie.lasting lasting).streams, Assoc.get?_mapValues]
  cases Assoc.get? m.streams id <;> rfl

theorem Confined.stream (confined : Confined C m) (lasting : C.lasting = true) (id : Nat)
    (plain : S.plain = true) : (m.stream id).map (Value.translate S.test) = m.stream id := by
  simp only [Machine.stream]
  cases found : Assoc.get? m.streams id with
  | none => rfl
  | some items => exact Assoc.fixed_of_get? (confined.streams lasting plain) found

theorem Confined.drained (confined : Confined C m) (id : Nat) :
    Confined C { m with streams := Assoc.insert m.streams id [] } := by
  refine { confined with
    grown := { confined.grown with }
    streams := fun lasting plain => ?_ }
  have emptied := Assoc.insert_mapValues (List.map (Value.translate S.test)) m.streams id []
  rw [confined.streams lasting plain] at emptied
  exact emptied.symm

theorem Tie.drained (tie : Tie C m m') (lasting : C.lasting = true) (id : Nat) :
    Tie C { m with streams := Assoc.insert m.streams id [] }
      { m' with streams := Assoc.insert m'.streams id [] } := by
  refine { tie with
    lasting := fun _ => { tie.lasting lasting with streams := ?_ }
    apart := fun apart => by cases apart.symm.trans lasting }
  simp only [(tie.lasting lasting).streams, ← Assoc.insert_mapValues, List.map_nil]

theorem Confined.filled (confined : Confined C m) (buffers : Assoc Nat (List Value)) :
    Confined C { m with buffers } :=
  { confined with grown := { confined.grown with } }

theorem Confined.refilled (confined : Confined C m) {streams : Assoc Nat (List Value)}
    (inert : C.lasting = true → S.plain = true →
      Assoc.mapValues (List.map (Value.translate S.test)) streams = streams) :
    Confined C { m with streams } :=
  { confined with grown := { confined.grown with }, streams := inert }

theorem Confined.deliver (confined : Confined C m) (outlet : Outlet) (v : Value) :
    Confined C (m.deliver outlet v).2 :=
  confined.filled _

/-- What a component answers does not depend on the functions in a value. -/
theorem Tie.deliver (tie : Tie C m m') (lasting : C.lasting = true) (outlet : Outlet) (v : Value) :
    (m'.deliver outlet (v.translate S.image)).1 =
        (m.deliver outlet v).1.map (Value.translate S.image) ∧
      Tie C (m.deliver outlet v).2 (m'.deliver outlet (v.translate S.image)).2 := by
  have buffer : m'.buffer outlet.buffer =
      (m.buffer outlet.buffer).map (Value.translate S.image) := by
    simp only [Machine.buffer, (tie.lasting lasting).buffers, Assoc.get?_mapValues]
    cases Assoc.get? m.buffers outlet.buffer <;> rfl
  simp only [Machine.deliver, buffer, outlet.component.uniform]
  refine ⟨trivial, { tie with
    lasting := fun _ => { tie.lasting lasting with buffers := ?_ }
    apart := fun apart => by cases apart.symm.trans lasting }⟩
  simp only [(tie.lasting lasting).buffers, Assoc.insert_mapValues]

theorem Confined.stored (confined : Confined C m) (store : Option Store) :
    Confined C { m with store } :=
  { confined with grown := { confined.grown with } }

theorem Tie.stored (tie : Tie C m m') (lasting : C.lasting = true) (store : Option Store) :
    Tie C { m with store } { m' with store } :=
  { tie with
    lasting := fun _ => { tie.lasting lasting with store := rfl }
    apart := fun apart => by cases apart.symm.trans lasting }

/-! ### A machine and its copy -/

/-- The second machine is the first with another limit. -/
structure Comparison.Verbatim (C : Comparison S) : Prop where
  lasting : C.lasting = true
  image : S.image = .identity
  offset : C.offset = 0

/-- The machine with the settings of the second one. -/
def Comparison.copy (C : Comparison S) (m : Machine) : Machine :=
  { m with settings := { C.settings with maxDepth := C.limit } }

theorem Confined.copy_eq (confined : Confined C m) :
    C.copy m = { m with settings := { m.settings with maxDepth := C.limit } } := by
  rw [Comparison.copy, confined.settings]

theorem Confined.copy_self (confined : Confined C m) (limit : C.limit = C.settings.maxDepth) :
    C.copy m = m := by
  rw [confined.copy_eq, limit, ← confined.settings]

namespace Comparison.Verbatim

variable (verbatim : C.Verbatim)

include verbatim

theorem value (v : Value) : v.translate S.image = v := by
  rw [verbatim.image, Value.translate_identity]

theorem result (o : Except Fault Value) : translateResult S.image o = o := by
  rw [verbatim.image]
  cases o with
  | ok v => exact congrArg Except.ok v.translate_identity
  | error f => exact congrArg Except.error f.translate_identity

theorem contents (t : Assoc Nat (List Value)) :
    Assoc.mapValues (List.map (Value.translate S.image)) t = t := by
  have each : Value.translate S.image = id := funext verbatim.value
  rw [each]
  exact Assoc.mapValues_eq_self fun entry _ => List.map_id entry.2

theorem memos (t : Assoc Nat Evaluated) :
    Assoc.mapValues (Evaluated.translate S.image) t = t := by
  rw [verbatim.image]
  exact Assoc.mapValues_eq_self fun entry _ => entry.2.translate_identity

theorem configs (t : Assoc Nat BindingConfig) :
    Assoc.mapValues (BindingConfig.translate S.image) t = t := by
  rw [verbatim.image]
  refine Assoc.mapValues_eq_self fun entry _ => ?_
  rw [BindingConfig.translate, Overrides.translate_identity]

theorem forced (t : Assoc Nat Evaluated) :
    (t.map fun entry => (S.renumber entry.1, entry.2.translate S.image)) = t := by
  have renumber : S.renumber = id := congrArg Translation.lambda verbatim.image
  rw [renumber]
  exact verbatim.memos t

theorem chain (c : Chain) : c.under id S.image = c := by
  rw [verbatim.image, Chain.under_identity]

theorem tie (m : Machine) : Tie C m (C.copy m) where
  settings := rfl
  depth := rfl
  chain := (verbatim.chain m.chain).symm
  perQuery := (verbatim.memos m.perQuery).symm
  nextId := by rw [verbatim.offset]; rfl
  lasting _ :=
    { configs := (verbatim.configs m.configs).symm
      persistent := (verbatim.memos m.persistent).symm
      forced := (verbatim.forced m.forced).symm
      streams := (verbatim.contents m.streams).symm
      buffers := (verbatim.contents m.buffers).symm
      outlets := rfl
      store := rfl }
  apart apart := by cases apart.symm.trans verbatim.lasting

theorem eq_copy (tie : Tie C m m') : m' = C.copy m := by
  obtain ⟨settings, depth, chain, perQuery, nextId, lasting, -⟩ := tie
  obtain ⟨configs, persistent, forced, streams, buffers, outlets, store⟩ := lasting verbatim.lasting
  rw [verbatim.chain] at chain
  rw [verbatim.memos] at perQuery persistent
  rw [verbatim.configs] at configs
  rw [verbatim.forced] at forced
  rw [verbatim.contents] at streams buffers
  rw [verbatim.offset] at nextId
  cases m'
  rw [Comparison.copy, Machine.mk.injEq]
  exact ⟨settings, chain, depth, configs, persistent, perQuery, outlets, buffers, store, forced,
    streams, nextId⟩

end Comparison.Verbatim

end TreeQuery
