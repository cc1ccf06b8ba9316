import Mathlib
import TreeQuery.Proofs.Overriding
import TreeQuery.Proofs.Memos.Standing

/-!
# What unboxing reaches

Unboxing invokes a function that is on access once and keeps its result; whoever needs the value
later finds that result, however the evaluation goes on, for no evaluation replaces a result that
was kept when it began (`Machine.Retains`).

The result is reached as it is. Most functions give a value, and unboxing that does nothing. If a
function gives another function that is on access, unboxing stops there, and unboxing the result goes
one function deeper (`unbox_stops_early`). `Unboxed` says what unboxing comes to, and exactly when
there is nothing left to unbox.
-/

set_option autoImplicit false

namespace TreeQuery

/-! ## Results that are kept -/

/-- No evaluation replaces a result that is kept. -/
theorem eval_retains {m : Machine} {i : Nat} (ready : Ready .whole .shared i m) (left : Nat)
    (e : Expr) : m.Retains (eval left e i m).2 :=
  ((StandingRunner.watched m (.ofDepth left) left).eval e i m ready (.refl m)).preserves.retains

/-- Neither does the evaluation of a program. -/
theorem Machine.evaluate_retains (m : Machine) (nested : m.chain.Nested) (p : Program)
    (input : Value) : m.Retains (m.evaluate p input).2 := by
  have alike : Alike .whole .shared m.chain.size m.chain.size _ _ _ :=
    .runRoot .whole (p := p) (.of_effects rfl _) fun e _ => .of_effects rfl e
  have runner := StandingRunner.watched (m.enter input) (.ofDepth m.depthLeft) m.depthLeft
  exact (alike.standing runner _ (m.ready_enter nested input) (.refl _)).preserves.retains

/-! ## One unboxing -/

/-- The result of a function, with the overrides of the function unless it has its own. -/
def Evaluated.lend (function result : Evaluated) : Evaluated :=
  if result.overrides.isEmpty then { result with overrides := function.overrides } else result

/-- What unboxing a function finds to be kept. -/
def Machine.kept? (m : Machine) (v : Evaluated) : Option Evaluated :=
  match v.value with
  | .lambda l =>
    if l.definition.invokesOnAccess then (Assoc.get? m.forced l.id).map v.lend else none
  | _ => none

variable {m m' : Machine} {v x y : Evaluated} {run : Runner} {frame : Nat}

theorem Value.exists_of_onAccess {u : Value} (access : u.onAccess = true) :
    ∃ l, u = .lambda l ∧ l.definition.invokesOnAccess = true := by
  cases u with
  | lambda l => exact ⟨l, rfl, access⟩
  | _ => cases access

theorem Machine.kept?_eq_some_iff : m.kept? v = some y ↔ ∃ l result, v.value = .lambda l ∧
    l.definition.invokesOnAccess = true ∧ Assoc.get? m.forced l.id = some result ∧
      v.lend result = y := by
  obtain ⟨u, overrides⟩ := v
  constructor
  · intro kept
    cases u with
    | lambda l =>
        simp only [Machine.kept?] at kept
        split at kept
        · rename_i access
          obtain ⟨result, found, lent⟩ := Option.map_eq_some_iff.mp kept
          exact ⟨l, result, rfl, access, found, lent⟩
        · cases kept
    | _ => cases kept
  · rintro ⟨l, result, value, access, found, rfl⟩
    cases value
    simp only [Machine.kept?, access, if_true, found, Option.map_some]

theorem Machine.Retains.kept? (retains : m.Retains m') (kept : m.kept? v = some y) :
    m'.kept? v = some y := by
  obtain ⟨l, result, value, access, found, lent⟩ := Machine.kept?_eq_some_iff.mp kept
  exact Machine.kept?_eq_some_iff.mpr
    ⟨l, result, value, access, retains l.id result found, lent⟩

namespace Evaluation

theorem unbox_lambda {l : Lambda} (value : v.value = .lambda l)
    (access : l.definition.invokesOnAccess = true) :
    unbox run v frame = (do
      let result ← Eval.once l.id (invoke run l [] frame)
      return v.lend result) := by
  obtain ⟨u, overrides⟩ := v
  cases value
  simp only [unbox, access, if_true]
  rfl

/-- A result that is kept is found, and nothing is invoked. -/
theorem unbox_kept (kept : m.kept? v = some y) (run : Runner) (frame : Nat) :
    unbox run v frame m = (.ok y, m) := by
  obtain ⟨l, result, value, access, found, lent⟩ := Machine.kept?_eq_some_iff.mp kept
  have given : Eval.once l.id (invoke run l [] frame) m = (.ok result, m) := by
    simp only [Eval.once_apply, found]
  rw [unbox_lambda value access, Eval.bind_ok given, lent]
  rfl

/-- Unboxing a function leaves its result to be found. -/
theorem kept_of_unbox (access : v.value.onAccess = true)
    (ran : unbox run v frame m = (.ok y, m')) : m'.kept? v = some y := by
  obtain ⟨l, value, invoked⟩ := Value.exists_of_onAccess access
  rw [unbox_lambda value invoked] at ran
  obtain ⟨result, n, given, lent⟩ := Eval.bind_eq_ok.mp ran
  cases lent
  have found : Assoc.get? m'.forced l.id = some result := by
    rw [Eval.once_apply] at given
    cases known : Assoc.get? m.forced l.id with
    | some done =>
        simp only [known] at given
        cases given
        exact known
    | none =>
        simp only [known] at given
        obtain ⟨done, between, -, kept⟩ := Eval.bind_eq_ok.mp given
        cases kept
        simp only [Assoc.get?_insert, if_true]
  exact Machine.kept?_eq_some_iff.mpr ⟨l, result, value, invoked, found, rfl⟩

end Evaluation

/-- A value is left as it is by unboxing, whoever asks for it and at whatever later time, and nothing
is invoked for it. -/
def Machine.Settled (m : Machine) (v : Evaluated) : Prop :=
  ∀ n, m.Retains n → ∀ run frame, Evaluation.unbox run v frame n = (.ok v, n)

/-- There is nothing left to unbox in what is no function on access, and in a function whose result
is that function. -/
theorem Machine.settled_iff :
    m.Settled v ↔ v.value.onAccess = false ∨ m.kept? v = some v := by
  constructor
  · intro settled
    cases access : v.value.onAccess with
    | false => exact .inl rfl
    | true =>
        exact .inr (Evaluation.kept_of_unbox access (settled m (.refl m) (.ofDepth 0) 0))
  · rintro (concrete | kept) n retains run frame
    · rw [Evaluation.unbox_of_not_onAccess concrete]
      rfl
    · exact Evaluation.unbox_kept (retains.kept? kept) run frame

/-- Lending overrides leaves the value. -/
theorem Evaluated.value_lend (function result : Evaluated) :
    (function.lend result).value = result.value := by
  unfold lend
  split <;> rfl

/-- What unboxing a value comes to. -/
structure Unboxed (m m' : Machine) (x y : Evaluated) : Prop where
  /-- A result that was kept before is still kept. -/
  retains : m.Retains m'
  /-- What is no function on access is left as it is, and nothing is done. -/
  same : x.value.onAccess = false → y = x ∧ m' = m
  /-- The result of a function is kept for it. -/
  kept : x.value.onAccess = true → m'.kept? x = some y
  /-- Unboxing the value anew gives the same, at whatever later time, and nothing is invoked. -/
  again : ∀ n, m'.Retains n → ∀ run frame, Evaluation.unbox run x frame n = (.ok y, n)
  /-- There is nothing left to unbox exactly if the result is no function on access, or a function
  that gives itself. -/
  settled : m'.Settled y ↔ y.value.onAccess = false ∨ m'.kept? y = some y
  /-- So it is if no function has given a function on access. -/
  concrete : (∀ id v, Assoc.get? m'.forced id = some v → v.value.onAccess = false) →
    y.value.onAccess = false ∧ m'.Settled y

theorem unbox_unboxed {i : Nat} (ready : Ready .whole .shared i m) (left : Nat)
    (ran : Evaluation.unbox (.ofDepth left) x i m = (.ok y, m')) : Unboxed m m' x y := by
  have retains : m.Retains m' := by
    have related : Setting.whole.result x (x.translate Setting.whole.image) := ⟨rfl, nofun⟩
    have alike : Alike .whole .shared i i _ (fun r => Evaluation.unbox r x i) _ := .unbox related
    have retained :=
      (alike.standing (.watched m (.ofDepth left) left) m ready (.refl m)).preserves.retains
    rwa [ran] at retained
  have same : x.value.onAccess = false → y = x ∧ m' = m := fun concrete => by
    rw [Evaluation.unbox_of_not_onAccess concrete] at ran
    cases ran
    exact ⟨rfl, rfl⟩
  have kept : x.value.onAccess = true → m'.kept? x = some y := fun access =>
    Evaluation.kept_of_unbox access ran
  refine ⟨retains, same, kept, fun n later run frame => ?_, Machine.settled_iff, fun values => ?_⟩
  · cases access : x.value.onAccess with
    | false =>
        rw [Evaluation.unbox_of_not_onAccess access, (same access).1]
        rfl
    | true => exact Evaluation.unbox_kept (later.kept? (kept access)) run frame
  · have concrete : y.value.onAccess = false := by
      cases access : x.value.onAccess with
      | false => rw [(same access).1, access]
      | true =>
          obtain ⟨l, result, -, -, found, rfl⟩ := Machine.kept?_eq_some_iff.mp (kept access)
          rw [Evaluated.value_lend]
          exact values l.id result found
    exact ⟨concrete, Machine.settled_iff.mpr (.inl concrete)⟩

/-- At each evaluation that is started, whatever is unboxed is unboxed by one function. -/
def Watch.unboxing : Watch where
  starts _ _ i m := ∀ left x y m',
    Evaluation.unbox (.ofDepth left) x i m = (.ok y, m') → Unboxed m m' x y
  opens _ _ _ := True

/-- **Unboxing takes off one function, once and for all.** In every live frame, and so wherever
something is evaluated while a program runs, what unboxing comes to is said by `Unboxed`. No
evaluation of an expression or a program replaces a result that is kept. -/
theorem Machine.unbox_once (m : Machine) (nested : m.chain.Nested) :
    (∀ left i x y m', i < m.chain.size →
      Evaluation.unbox (.ofDepth left) x i m = (.ok y, m') → Unboxed m m' x y) ∧
    (∀ p input, Throughout .unboxing m.depthLeft fun run => m.evaluateWith run p input) ∧
    (∀ left e i, i < m.chain.size → m.Retains (eval left e i m).2) ∧
    ∀ p input, m.Retains (m.evaluate p input).2 := by
  refine ⟨fun left i x y m' live => unbox_unboxed ⟨nested, live, nofun⟩ left,
    fun p input other => ?_, fun left e i live => eval_retains ⟨nested, live, nofun⟩ left e,
    m.evaluate_retains nested⟩
  have runner : SoundRunner .whole (watched .unboxing other m.depthLeft) (.ofDepth m.depthLeft) :=
    .watched rfl (.basic ..)
      (fun _ _ i m ready left x y m' => unbox_unboxed (ready.shared ready.live) left)
      (fun _ _ _ _ _ => trivial) other m.depthLeft
  have alike : Alike .whole .shared m.chain.size m.chain.size _ _ _ :=
    .runRoot .whole (p := p) (.of_effects rfl _) fun e _ => .of_effects rfl e
  have root : m.runRoot (watched .unboxing other m.depthLeft) p input =
      m.runRoot (.ofDepth m.depthLeft) p input :=
    (alike.sound rfl runner _ (m.ready_enter nested input)).agree
  simp only [Machine.evaluateWith, root]

/-- A function on access with nothing captured, that gives a text. -/
def Evaluated.boxedText : Evaluated :=
  .plain (.lambda ⟨0, ⟨[], .text "x", true, none⟩, []⟩)

/-- A machine on which a program has just started. -/
def Machine.started : Machine :=
  ({} : Machine).enter .empty

theorem Machine.unbox_once_text :
    let m' := (Evaluation.unbox (.ofDepth 20) .boxedText 0 started).2
    started.chain.Nested ∧ 0 < started.chain.size ∧
      Unboxed started m' .boxedText (.plain (.text "x")) ∧ m'.Settled (.plain (.text "x")) := by
  intro m'
  have nested : started.chain.Nested := Machine.enter_nested (.of_size rfl) .empty
  have live : 0 < started.chain.size := by decide
  have ran : (Evaluation.unbox (.ofDepth 20) .boxedText 0 started).1 = .ok (.plain (.text "x")) := by
    cbv
  have unboxed := (started.unbox_once nested).1 20 0 _ _ m' live (Prod.ext ran rfl)
  exact ⟨nested, live, unboxed, unboxed.settled.mpr (.inl rfl)⟩

/-! ## Functions that give functions -/

/-- Unboxing a function on access whose result is another one gives that one, and unboxing that gives
the text inside. A library function that looks at its argument is given a function. -/
theorem unbox_stops_early :
    let boxed : Expr := .function ⟨[], .function ⟨[], .text "x", true, none⟩, true, none⟩
    ((do
      let x ← eval 20 boxed 0
      let y ← Evaluation.unbox (.ofDepth 20) x 0
      let z ← Evaluation.unbox (.ofDepth 20) y 0
      return (y.value.onAccess, z.value) : Eval (Bool × Value)) .started).1 =
        .ok (true, .text "x") ∧
      (Machine.evaluate {} ⟨.call "core" "type" [boxed], none⟩ .empty).1 = .ok (.text "Lambda") := by
  cbv

end TreeQuery
