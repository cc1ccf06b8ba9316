import Mathlib
import TreeQuery.Proofs.Lockstep.Runs
import TreeQuery.Proofs.Translation.Contents
import TreeQuery.Proofs.Tree

/-!
# Evaluations do not leak into one another

A program that leaves components and the store alone has the same outcome on a machine that ran any
other programs before as on a new one, but for the identities of the functions it makes
(`evaluate_isolated`).

Two comparisons show this. Along the history, each evaluation is compared with itself under a
renaming of the identities that are not in use yet: as they are nowhere on the machine, it stays the
same, so the results kept for functions are those of functions made before. And the configurations
kept for let-bindings that have none of their own are the default ones, as let-bindings with one
identity are one binding. The last evaluation is then compared with the one on a new machine, where
nothing is kept.
-/

set_option autoImplicit false

namespace TreeQuery

/-! ## Histories -/

/-- The let-bindings that an expression declares are the ones that have their identities, as given by
`heap`: two let-bindings with one identity are one binding, in whatever programs they stand. -/
def Expr.DrawnFrom (heap : Nat → Binding) (e : Expr) : Prop :=
  ∀ b ∈ e.bindings, heap b.id = b

/-- What holds of all that a program consists of. -/
structure Program.All (q : Expr → Prop) (p : Program) : Prop where
  root : Expr.All q p.root
  handler : ∀ e ∈ Handler.parts p.handler, Expr.All q e

/-- The functions in a value were made before the identity `next` is given out. -/
def Value.KnownBefore (heap : Nat → Binding) (next : Nat) (v : Value) : Prop :=
  v.Holds fun id d => id < next ∧ Expr.All (Expr.DrawnFrom heap) (.function d)

/-- A machine on which any number of programs were evaluated, with any outcomes, since it was new. An
input may hold functions made before, and streams. In between, streams may be filled and functions
made elsewhere. -/
inductive Machine.Reached (heap : Nat → Binding) : Machine → Prop
  | start {m : Machine} (pristine : m.Pristine) (streams : m.streams = [])
      (buffers : ∀ entry ∈ m.buffers, entry.2 = []) : Reached heap m
  | meanwhile {m : Machine} (reached : Reached heap m) {streams : Assoc Nat (List Value)}
      {nextId : Nat} (later : m.nextId ≤ nextId)
      (known : ∀ entry ∈ streams, ∀ v ∈ entry.2, v.KnownBefore heap nextId) :
      Reached heap { m with streams, nextId }
  | evaluated {m : Machine} (reached : Reached heap m) {p : Program} {input : Value}
      (drawn : p.All (Expr.DrawnFrom heap)) (known : input.KnownBefore heap m.nextId) :
      Reached heap (m.evaluate p input).2

/-! ## What a history leaves -/

/-- Moves the identities that are not below a bound. -/
def Translation.moveFrom (bound id : Nat) : Nat :=
  if id < bound then id else id + 1

theorem Translation.moveFrom_injective (bound a b : Nat)
    (same : moveFrom bound a = moveFrom bound b) : a = b := by
  unfold moveFrom at same
  split at same <;> split at same <;> omega

/-- An evaluation and itself, with other identities for functions that are not made yet. -/
noncomputable abbrev Setting.renamed (heap : Nat → Binding) (bound : Nat) : Setting :=
  { Realm.guarding (Expr.DrawnFrom heap) id fun _ _ same => same with
    keep := true
    plain := true
    marks := false
    unhandled := false
    renumber := Translation.moveFrom bound
    injective := Translation.moveFrom_injective bound
    bare := nofun }

theorem Setting.AllowsBinding.drawn {S : Setting} {heap : Nat → Binding} {b : Binding}
    (allowed : S.AllowsBinding b) (plain : S.plain = true)
    (drawn : ∀ e, S.occurs e → e.DrawnFrom heap) : heap b.id = b := by
  obtain ⟨e, all, declared⟩ := allowed plain
  exact drawn e all.root b declared

def Comparison.renamed (heap : Nat → Binding) (settings : Settings) (bound : Nat) :
    Comparison (.renamed heap bound) where
  base := {}
  settings
  limit := settings.maxDepth
  lasting := true
  offset := 0
  fits n := n ≤ bound
  fatal _ := False
  bare id := (heap id).config = none
  kept := rfl
  identities _ _ := rfl
  fits_of_le _ _ less fits := Nat.le_trans less fits
  numbered n fits := if_pos fits
  unhandled _ := nofun
  config b allowed bare := by
    have drawn : heap b.id = b := allowed.drawn rfl fun _ drawn => drawn
    rw [drawn] at bare
    exact bare
  apart := nofun

section Renamed

variable {heap : Nat → Binding} {bound next : Nat} (within : next ≤ bound)

theorem Setting.renamed_test_fixes : (Setting.renamed heap bound).test.Fixes fun id d =>
    id < next ∧ Expr.All (Expr.DrawnFrom heap) (.function d) :=
  ⟨fun _ _ _ => rfl, fun _ d known => (Setting.renamed heap bound).made d known.2, fun _ => rfl⟩

include within in
theorem Setting.renamed_image_fixes : (Setting.renamed heap bound).image.Fixes fun id d =>
    id < next ∧ Expr.All (Expr.DrawnFrom heap) (.function d) :=
  ⟨fun _ _ known => if_pos (Nat.lt_of_lt_of_le known.1 within), fun _ d _ => d.trim_true,
    fun _ => rfl⟩

end Renamed

/-- A machine between evaluations on which identities that are not in use yet are nowhere. -/
structure Machine.Orderly (heap : Nat → Binding) (settings : Settings) (m : Machine) : Prop
    extends Machine.Idle m where
  perQuery : m.perQuery = []
  confined : ∀ bound, m.nextId ≤ bound → Confined (.renamed heap settings bound) m
  renamed : ∀ bound, m.nextId ≤ bound → Tie (.renamed heap settings bound) m m

namespace Machine.Orderly

variable {heap : Nat → Binding} {settings : Settings} {m : Machine}

theorem start (pristine : m.Pristine) (streams : m.streams = [])
    (buffers : ∀ entry ∈ m.buffers, entry.2 = []) : m.Orderly heap m.settings := by
  have chain : m.chain = {} := Chain.eq_empty pristine.size
  refine ⟨pristine.toIdle, pristine.perQuery, fun bound _ => ?_, fun bound _ => ?_⟩
  · refine pristine.confined rfl rfl fun _ _ => ?_
    rw [streams]
    rfl
  · refine ⟨rfl, rfl, ?_, ?_, rfl, fun _ => ⟨?_, ?_, ?_, ?_, ?_, rfl, rfl⟩, nofun⟩
    · rw [chain, Chain.under_empty]
    · rw [pristine.perQuery]
      rfl
    · rw [pristine.configs]
      rfl
    · rw [pristine.persistent]
      rfl
    · rw [pristine.forced]
      rfl
    · rw [streams]
      rfl
    · refine (Assoc.mapValues_eq_self fun entry member => ?_).symm
      rw [buffers entry member, List.map_nil]

theorem meanwhile (orderly : m.Orderly heap settings) {streams : Assoc Nat (List Value)}
    {nextId : Nat} (later : m.nextId ≤ nextId)
    (known : ∀ entry ∈ streams, ∀ v ∈ entry.2, v.KnownBefore heap nextId) :
    Machine.Orderly heap settings { m with streams, nextId } := by
  refine { orderly with confined := fun bound below => ?_, renamed := fun bound below => ?_ }
  · have confined := orderly.confined bound (Nat.le_trans later below)
    refine { confined with grown := { confined.grown with }, streams := fun _ _ => ?_ }
    exact Value.streams_translate_holds Setting.renamed_test_fixes known
  · have tie := orderly.renamed bound (Nat.le_trans later below)
    refine { tie with
      nextId := rfl
      lasting := fun lasting => { tie.lasting lasting with streams := ?_ }
      apart := nofun }
    exact (Value.streams_translate_holds (Setting.renamed_image_fixes below) known).symm

theorem evaluated (orderly : m.Orderly heap settings) {p : Program} {input : Value}
    (drawn : p.All (Expr.DrawnFrom heap)) (known : input.KnownBefore heap m.nextId) :
    (m.evaluate p input).2.Orderly heap settings := by
  have idle := (orderly.toIdle.evaluate p input).1
  have runs : ∀ bound, m.nextId ≤ bound →
      Confined (.renamed heap settings bound) (m.evaluate p input).2 ∧
      m.nextId ≤ (m.evaluate p input).2.nextId ∧
      ((m.evaluate p input).2.nextId ≤ bound →
        Tie (.renamed heap settings bound) (m.evaluate p input).2 (m.evaluate p input).2) := by
    intro bound below
    have runner : TiedRunner (.renamed heap settings bound) (.ofDepth m.depthLeft)
        (.ofDepth m.depthLeft) := .ofDepth (.inl ⟨rfl, rfl⟩)
    have allowed : (Setting.renamed heap bound).AllowsProgram p :=
      ⟨fun _ => drawn.root, fun e member _ => drawn.handler e member, nofun⟩
    have related : (Setting.renamed heap bound).value input input :=
      ⟨(input.translate_holds (Setting.renamed_image_fixes below) known).symm,
        fun _ => input.translate_holds Setting.renamed_test_fixes known⟩
    obtain ⟨confined, counts, ties⟩ := Machine.evaluateWith_tied runner allowed related
      (orderly.confined bound below)
    refine ⟨confined, counts, fun fits => ?_⟩
    rcases ties m (orderly.renamed bound below) fits with ⟨_, _, ended⟩ | ⟨-, tie⟩
    · cases ended
    · exact tie
  have counts : m.nextId ≤ (m.evaluate p input).2.nextId := (runs m.nextId (Nat.le_refl _)).2.1
  exact ⟨idle, rfl, fun bound below => (runs bound (Nat.le_trans counts below)).1,
    fun bound below => (runs bound (Nat.le_trans counts below)).2.2 below⟩

theorem of_reached (reached : m.Reached heap) : m.Orderly heap m.settings := by
  induction reached with
  | start pristine streams buffers => exact .start pristine streams buffers
  | meanwhile _ later known ih => exact ih.meanwhile later known
  | @evaluated m _ p input drawn known ih =>
      have after := ih.evaluated drawn known
      have settings : (m.evaluate p input).2.settings = m.settings :=
        (after.confined _ (Nat.le_refl _)).settings
      rw [settings]
      exact after

end Machine.Orderly

/-! ## New and used machines -/

/-- The translation that counts identities from another start. -/
def Translation.raising (k : Nat) : Translation :=
  .renaming (· + k) fun _ _ same => Nat.add_right_cancel same

/-- What is kept on a machine between evaluations makes no difference to a secluded program. -/
structure Machine.Clean (heap : Nat → Binding) (m : Machine) : Prop extends Machine.Idle m where
  perQuery : m.perQuery = []
  forced : ∀ id, Assoc.get? m.forced (id + m.nextId) = none
  configs : ∀ id, (heap id).config = none → ∀ config, Assoc.get? m.configs id = some config →
    config = m.settings.config

theorem Machine.Pristine.clean {m : Machine} (pristine : m.Pristine) (heap : Nat → Binding) :
    m.Clean heap := by
  refine ⟨pristine.toIdle, pristine.perQuery, fun id => ?_, fun id _ config found => ?_⟩
  · rw [pristine.forced]
    rfl
  · rw [pristine.configs] at found
    cases found

theorem Machine.Reached.clean {heap : Nat → Binding} {m : Machine} (reached : m.Reached heap) :
    m.Clean heap := by
  have orderly := Machine.Orderly.of_reached reached
  have confined := orderly.confined m.nextId (Nat.le_refl _)
  have tie := orderly.renamed m.nextId (Nat.le_refl _)
  refine ⟨orderly.toIdle, orderly.perQuery, fun id => ?_, confined.defaults⟩
  -- The key of an entry is not moved, so it is the identity of a function made before.
  cases found : Assoc.get? m.forced (id + m.nextId) with
  | none => rfl
  | some v =>
      have fixed := (List.map_id m.forced).trans (tie.lasting rfl).forced
      have entry := List.map_eq_map_iff.mp fixed _ (Assoc.mem_of_get? found)
      have key : id + m.nextId = Translation.moveFrom m.nextId (id + m.nextId) :=
        congrArg Prod.fst entry
      unfold Translation.moveFrom at key
      split at key <;> omega

/-- A secluded program on a new machine and on one that is further in giving out identities. -/
noncomputable abbrev Setting.secluded (heap : Nat → Binding) (k : Nat) : Setting :=
  { Realm.guarding (fun e => e.Secluded ∧ e.DrawnFrom heap) (· + 1)
      (fun _ _ same => Nat.add_right_cancel same) with
    keep := true
    plain := true
    marks := false
    unhandled := false
    renumber := (· + k)
    injective := fun _ _ same => Nat.add_right_cancel same
    bare := nofun }

def Comparison.secluded (heap : Nat → Binding) (settings : Settings) (k : Nat)
    (policy : settings.reset ≠ .never) : Comparison (.secluded heap k) where
  base := {}
  settings
  limit := settings.maxDepth
  lasting := false
  offset := k
  fits _ := True
  fatal _ := False
  bare _ := True
  kept := rfl
  identities _ _ := rfl
  fits_of_le _ _ _ _ := trivial
  numbered _ _ := rfl
  unhandled _ := nofun
  config b allowed _ := by
    obtain ⟨e, all, declared⟩ := allowed rfl
    have secluded := all.root.1
    cases e with
    | letIn bindings body handler | select bindings body handler => exact secluded b declared
    | _ => cases declared
  apart _ := ⟨⟨rfl, fun _ occurs => occurs.1, fun id => Nat.succ_ne_self id⟩, policy,
    fun _ => trivial⟩

/-- A secluded program has the outcome that it has on a new machine, with its functions counted from
where the machine is. -/
theorem Machine.Clean.evaluate {heap : Nat → Binding} {m : Machine} (clean : m.Clean heap)
    {p : Program} (secluded : p.All Expr.Secluded) (drawn : p.All (Expr.DrawnFrom heap))
    (policy : m.settings.reset ≠ .never) {input : Value} (plain : input.inert = true) :
    (m.evaluate p input).1 = translateResult (.raising m.nextId)
      (Machine.evaluate { settings := m.settings } p input).1 := by
  let C := Comparison.secluded heap m.settings m.nextId policy
  let new : Machine := { settings := m.settings }
  have pristine : new.Pristine := ⟨⟨rfl, rfl⟩, rfl, rfl, rfl, rfl⟩
  have runner : TiedRunner C (.ofDepth new.depthLeft) (.ofDepth m.depthLeft) := by
    refine .ofDepth (.inl ⟨?_, rfl⟩)
    rw [depthLeft, depthLeft, clean.depth]
  have allowed : (Setting.secluded heap m.nextId).AllowsProgram p :=
    ⟨fun _ => secluded.root.and drawn.root,
      fun e member _ => (secluded.handler e member).and (drawn.handler e member), nofun⟩
  have related : (Setting.secluded heap m.nextId).value input input :=
    ⟨(input.translate_inert _ plain).symm, fun _ => input.translate_inert _ plain⟩
  have confined : Confined C new := pristine.confined rfl rfl nofun
  have tie : Tie C new m := by
    refine ⟨rfl, clean.depth, ?_, clean.perQuery, (Nat.zero_add _).symm, nofun, fun _ => ⟨?_, ?_⟩⟩
    · rw [Chain.eq_empty clean.size]
      exact (Chain.under_empty _ _).symm
    · exact clean.forced
    · intro b allowed config found
      have same : heap b.id = b := allowed.drawn rfl fun _ occurs => occurs.2
      have bare : (heap b.id).config = none := by
        rw [same]
        exact C.config b allowed trivial
      exact clean.configs b.id bare config found
  obtain ⟨-, -, ties⟩ := evaluateWith_tied runner allowed related confined
  rcases ties m tie trivial with ⟨_, _, ended⟩ | ⟨outcome, -⟩
  · cases ended
  · rw [Setting.image_kept rfl] at outcome
    exact outcome

/-- **Evaluations do not leak into one another.** A program hands nothing to components, leaves the
store alone and has no configurations, and let-bindings are not kept for good by default. On an
input without functions and streams, it has one outcome on all machines with the same settings, be
they new or used for other evaluations before: the outcome on the plain machine, with the functions
that it makes counted from where the machine is. -/
theorem evaluate_isolated (heap : Nat → Binding) (m fresh : Machine) (p : Program) (input : Value)
    (reached : m.Reached heap) (pristine : fresh.Pristine) (same : fresh.settings = m.settings)
    (policy : m.settings.reset ≠ .never) (secluded : p.All Expr.Secluded)
    (drawn : p.All (Expr.DrawnFrom heap)) (plain : input.inert = true) :
    let outcome := (Machine.evaluate { settings := m.settings } p input).1
    (m.evaluate p input).1 = translateResult (.raising m.nextId) outcome ∧
      (fresh.evaluate p input).1 = translateResult (.raising fresh.nextId) outcome := by
  refine ⟨reached.clean.evaluate secluded drawn policy plain, ?_⟩
  rw [← same] at policy ⊢
  exact (pristine.clean heap).evaluate secluded drawn policy plain

/-- A program that makes a function ran before, and so did one that made another and then failed. -/
theorem evaluate_isolated_after_failure :
    let x : Binding := ⟨0, "x", .function ⟨[], .current, false, none⟩, none, none⟩
    let p : Program := ⟨.letIn [x] (.named "x") none, none⟩
    let failing : Program :=
      ⟨.letIn [x] (.array [.named "x", .raise "Oops" none (.text "no") none]) none, none⟩
    let used (nextId : Nat) : Machine := { configs := [(0, Settings.config {})], nextId }
    (Machine.evaluate {} p .null).2 = used 1 ∧
      (used 1).evaluate failing .null =
        (.error { Fault.raised "Oops" "no" .empty with location := some "~" }, used 2) ∧
      (used 2).Reached (fun _ => x) ∧
      ((used 2).evaluate p .null).1 =
        translateResult (.raising 2) (Machine.evaluate {} p .null).1 := by
  intro x p failing used
  have scope : ∀ {q : Expr → Prop} {body : Expr}, q (.letIn [x] body none) → q x.expr → q .current →
      Expr.All q body → Program.All q ⟨.letIn [x] body none, none⟩ := by
    intro q body whole here current below
    have function : Expr.All q x.expr := .intro here (by
      simpa [x, Expr.parts, Definition.parts, Handler.parts] using .leaf current rfl)
    refine ⟨.intro whole ?_, by simp [Handler.parts]⟩
    simpa [Expr.parts, Binding.parts, Handler.parts, x] using ⟨below, function⟩
  have named : ∀ {q : Expr → Prop}, q (.named "x") → Expr.All q (.named "x") := fun here =>
    .leaf here rfl
  have bare : ∀ e : Expr, e.bindings = [] → e.DrawnFrom fun _ => x := fun e none => by
    simp [Expr.DrawnFrom, none]
  have declared : ∀ body, (Expr.letIn [x] body none).DrawnFrom fun _ => x := fun body => by
    simp [Expr.DrawnFrom, Expr.bindings]
  have drawn : p.All (Expr.DrawnFrom fun _ => x) :=
    scope (declared _) (bare _ rfl) (bare _ rfl) (named (bare _ rfl))
  have failingDrawn : failing.All (Expr.DrawnFrom fun _ => x) := by
    have raise : Expr.All (Expr.DrawnFrom fun _ => x) (.raise "Oops" none (.text "no") none) :=
      .intro (bare _ rfl) (by simpa [Expr.parts] using .leaf (bare _ rfl) rfl)
    refine scope (declared _) (bare _ rfl) (bare _ rfl) (.intro (bare _ rfl) ?_)
    simpa [Expr.parts] using ⟨named (bare _ rfl), raise⟩
  have secluded : p.All Expr.Secluded := scope (by simp [x, Expr.Secluded]) trivial trivial
    (named trivial)
  have pristine : Machine.Pristine {} := ⟨⟨rfl, rfl⟩, rfl, rfl, rfl, rfl⟩
  have first : (Machine.evaluate {} p .null).2 = used 1 := by cbv
  have second : (used 1).evaluate failing .null =
      (.error { Fault.raised "Oops" "no" .empty with location := some "~" }, used 2) := by cbv
  have reached : (used 1).Reached fun _ => x := by
    rw [← first]
    exact .evaluated (.start pristine rfl (by simp)) drawn trivial
  have reachedToo : (used 2).Reached fun _ => x := by
    have known : Value.null.KnownBefore (fun _ => x) 1 := trivial
    have after := reached.evaluated failingDrawn known
    rw [second] at after
    exact after
  exact ⟨first, second, reachedToo, (evaluate_isolated (fun _ => x) (used 2) {} p .null reachedToo
    pristine rfl (by decide) secluded drawn rfl).1⟩

end TreeQuery
