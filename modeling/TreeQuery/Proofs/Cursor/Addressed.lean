import Mathlib
import TreeQuery.Proofs.Cursor.Moving
import TreeQuery.Proofs.DepthLimit

/-!
# The cursor addresses the current value

In a program without functions, handlers and patterns that compute, an evaluation that is started
finds the cursor at the current value: resolving it in its tree, which is what a program does with
the address it is given, gives this value. The exception are rounds of a loop over something else
than an array, and what goes on from the cursor seen there (`Machine.evaluate_addressed`); there the
cursor stays behind (`Machine.evaluate_behind_in_round`).

A program starts on a level chain, so each of its expressions is evaluated on a level chain
(`RunnerInStep.watched`).
-/

set_option autoImplicit false

namespace TreeQuery

/-- Every evaluation that is started finds the cursor at the current value, but for those in excepted
frames. -/
def Watch.addressed (excepted : Chain → Nat → Prop) : Watch where
  starts _ _ i m := ¬ excepted m.chain i → m.chain.Addressed i
  opens _ _ _ := True

/-- No functions, handlers and patterns that compute, in all that a program consists of. -/
structure Program.Straight (p : Program) : Prop where
  root : Expr.All Expr.Straight p.root
  handler : p.handler = none

/-- A machine on which only straight programs were evaluated, on inputs without functions, since it
was new. In between, streams may be filled. -/
inductive Machine.Straight : Machine → Prop
  | start {m : Machine} (pristine : m.Pristine)
      (streams : ∀ entry ∈ m.streams, ∀ v ∈ entry.2, v.FunctionFree) : Straight m
  | filled {m : Machine} (before : Straight m) {streams : Assoc Nat (List Value)}
      (free : ∀ entry ∈ streams, ∀ v ∈ entry.2, v.FunctionFree) : Straight { m with streams }
  | evaluated {m : Machine} (before : Straight m) {p : Program} {input : Value}
      (program : p.Straight) (plain : input.FunctionFree) : Straight (m.evaluate p input).2

variable {s : Settings} {m : Machine} {p : Program} {input : Value}

/-! ## What a program finds -/

theorem Setting.straight_fixes : Setting.straight.test.Fixes fun _ _ => False :=
  ⟨nofun, nofun, fun _ => rfl⟩

theorem Program.Straight.allowed (program : p.Straight) : Setting.straight.AllowsProgram p := by
  refine ⟨fun _ => program.root, ?_, fun _ => program.handler⟩
  rw [program.handler]
  nofun

theorem Value.FunctionFree.related (plain : input.FunctionFree) :
    Setting.straight.value input (input.translate Setting.straight.image) :=
  ⟨rfl, fun _ => input.translate_holds Setting.straight_fixes plain⟩

theorem Machine.Straight.confined (straight : m.Straight) :
    Confined (.straight m.settings) m ∧ m.Idle := by
  induction straight with
  | start pristine streams =>
      exact ⟨pristine.confined rfl rfl fun _ _ =>
        Value.streams_translate_holds Setting.straight_fixes streams, pristine.toIdle⟩
  | filled _ free ih =>
      obtain ⟨confined, idle⟩ := ih
      exact ⟨confined.refilled fun _ _ =>
        Value.streams_translate_holds Setting.straight_fixes free, idle.size, idle.depth⟩
  | @evaluated m _ _ _ program plain ih =>
      obtain ⟨confined, idle⟩ := ih
      exact idle.confined_evaluate (.straight m.settings m.depthLeft) program.allowed plain.related
        confined

/-- The frame of a program has the cursor at the input. -/
theorem Poised.enter (confined : Confined (.straight s) m) (idle : m.Idle)
    (plain : input.FunctionFree) :
    Poised s m.chain.size (.plain input) (m.enter input) := by
  have nested := m.enter_nested (.of_size idle.size) input
  have size := m.enter_size input
  have found : (m.enter input).chain.frame? m.chain.size = some
      { kind := .query, parent := none, cursor := some (.linkedTo [] input),
        values := [(Chain.currentName, .plain input)] } := by
    change ((m.onChain fun c => c.push .query none).moveTo m.chain.size _ _).chain.frame? _ = _
    rw [Machine.frame?_moveTo, if_pos rfl]
    simp [Machine.onChain, Chain.frame?_push, Assoc.insert]
  refine ⟨confined.enter plain.related, nested, by omega, fun j live _ => ?_,
    Chain.current_own nested found rfl⟩
  have only : j = m.chain.size := by
    have := idle.size
    omega
  rw [only]
  exact .of_own nested found rfl rfl (Address.leadsTo_linkedTo input)

/-- Evaluation meets the condition wherever a straight expression is evaluated. -/
theorem RunnerInStep.watched (s : Settings) (other : Runner) (left : Nat) :
    RunnerInStep s (watched (.addressed Chain.Astray) other left) left := by
  refine ⟨?_, fun kind i body m => watched_within trivial⟩
  induction left with
  | zero => exact fun e allowed i v m poised => watched_zero (poised.level i poised.live)
  | succ left ih =>
      intro e allowed i v m poised
      have runner : RunnerInStep s (TreeQuery.watched (.addressed Chain.Astray) other left) left :=
        ⟨ih, fun kind i body m => watched_within trivial⟩
      have node := Coincide.node runner allowed (i := i) (v := v) _ (poised.atDepth (m.depth + 1))
      refine (watched_succ (poised.level i poised.live)).trans ?_
      change Eval.deeper _ m = Eval.deeper (Evaluation.node (.ofDepth left) e i) m
      simp only [Eval.deeper, node]

namespace Machine

/-- **The cursor addresses the current value.** A straight program runs on an input without
functions, on a machine that may have run other such programs before. Whenever one of its expressions
is evaluated in a frame, and the cursor seen from there is linked to a tree, resolving the cursor in
the tree gives the current value seen from there, unless the cursor is or goes on from the one seen
from a stray round: a round over a value or a stream that shows another value than the frame around
the loop. -/
theorem evaluate_addressed (m : Machine) (p : Program) (input : Value) (straight : m.Straight)
    (program : p.Straight) (plain : input.FunctionFree) :
    Throughout (.addressed Chain.Astray) m.depthLeft fun run => m.evaluateWith run p input := by
  intro other
  obtain ⟨confined, idle⟩ := straight.confined
  have root := (RunnerInStep.watched m.settings other m.depthLeft).eval p.root (fun _ => program.root)
    m.chain.size (.plain input) (m.enter input) (.enter confined idle plain)
  simp only [evaluateWith, runRoot, program.handler, Evaluation.guarded, root]

/-- In a loop over an array that a chain leads to, the cursor is at each element. -/
theorem evaluate_addressed_elements :
    let m : Machine := {}
    let located : Expr := .call "path" "value" [.call "path" "current" []]
    let p : Program :=
      ⟨.chain [.member "items", .map .current (.array [located, .current])], none⟩
    let item : Value := .object [("k", .null)]
    let input : Value := .object [("items", .array [item, .text "t"])]
    p.Straight ∧ (m.evaluate p input).1 =
        .ok (.array [.array [item, item], .array [.text "t", .text "t"]]) ∧
      Throughout (.addressed Chain.Astray) m.depthLeft fun run => m.evaluateWith run p input := by
  intro m located p item input
  have leaf : ∀ e : Expr, e.Straight → e.parts = [] → Expr.All Expr.Straight e :=
    fun _ here bare => .leaf here bare
  have call : Expr.All Expr.Straight located :=
    .intro trivial (by
      simpa [located, Expr.parts] using leaf (.call "path" "current" []) trivial rfl)
  have body : Expr.All Expr.Straight (.array [located, .current]) :=
    .intro trivial (by simpa [Expr.parts] using ⟨call, leaf .current trivial rfl⟩)
  have loop : Expr.All Expr.Straight (.map .current (.array [located, .current])) :=
    .intro trivial (by simpa [Expr.parts] using ⟨leaf .current trivial rfl, body⟩)
  have program : p.Straight :=
    ⟨.intro trivial (by simpa [p, Expr.parts] using ⟨leaf (.member "items") trivial rfl, loop⟩), rfl⟩
  have straight : m.Straight := .start ⟨⟨rfl, rfl⟩, rfl, rfl, rfl, rfl⟩ (by simp [m])
  exact ⟨program, by cbv, evaluate_addressed m p input straight program
    (by simp [input, item, Value.FunctionFree, Value.Holds, Value.HoldsFields, Value.HoldsItems])⟩

/-- In a loop over one member of the input, the cursor stays at the input. -/
theorem evaluate_behind_in_round :
    let m : Machine := {}
    let located : Expr := .call "path" "value" [.call "path" "current" []]
    let p : Program := ⟨.map (.member "a") located, none⟩
    let inner : Value := .object [("b", .text "c")]
    let input : Value := .object [("a", inner)]
    p.Straight ∧ (m.evaluate p input).1 = .ok (.array [input]) ∧
      ¬ Throughout (.addressed fun _ _ => False) m.depthLeft fun run =>
        m.evaluateWith run p input := by
  intro m located p inner input
  have program : p.Straight := by
    have call : Expr.All Expr.Straight located :=
      .intro trivial (by simpa [located, Expr.parts] using Expr.All.leaf trivial rfl)
    exact ⟨.intro trivial (by simpa [p, Expr.parts] using ⟨.leaf trivial rfl, call⟩), rfl⟩
  have depth : m.depthLeft = 302 := rfl
  have plain : (m.evaluate p input).1 = .ok (.array [input]) := by cbv
  refine ⟨program, plain, fun throughout => ?_⟩
  rw [evaluate, depth] at plain
  rw [depth] at throughout
  -- Whatever is started where the cursor is not at the current value is refused.
  let refusal := Fault.evaluation "refused"
  let other : Runner := ⟨fun _ _ => Eval.fail refusal, Eval.within⟩
  let strict : Watch := .addressed fun _ _ => False
  let w := watched strict other 301
  let root := m.enter input
  let inside : Machine := { root with depth := 1 }
  let opened := (inside.onChain fun c => c.push .loop (some 0)).onChain fun c =>
    c.setCurrent 1 (.plain inner)
  have start : (watched strict other 302).eval p.root 0 root =
      Eval.deeper (Evaluation.node w p.root 0) root := by
    have met : root.chain.Addressed 0 := by
      rintro _ ⟨⟩ _ ⟨⟩
      rfl
    exact watched_succ fun _ => met
  have source : w (.member "a") 0 inside = (.ok (.plain inner), inside) := by
    have met : inside.chain.Addressed 0 := by
      rintro _ ⟨⟩ _ ⟨⟩
      rfl
    have here : w (.member "a") 0 inside =
        Eval.deeper (Evaluation.node (watched strict other 300) (.member "a") 0) inside :=
      watched_succ fun _ => met
    exact here.trans rfl
  have refused : w located 1 opened = (.error (.fault refusal), opened) := by
    refine watched_failed fun addressed => ?_
    have resolved : input = inner := addressed not_false _ rfl _ rfl
    simp [input, inner] at resolved
  have round : Evaluation.round w located 0 inner none 0 inner inside =
      (.error (.fault refusal), opened.onChain fun c => c.truncate 1) := by
    rw [Evaluation.round, watched_within trivial, Eval.within_apply]
    change ((w located 1 opened).1, (w located 1 opened).2.onChain fun c => c.truncate 1) = _
    rw [refused]
  have rounds : Evaluation.mapRounds (Evaluation.round w located 0 inner none) 0 [inner] inside =
      (.error (.fault refusal), opened.onChain fun c => c.truncate 1) := by
    rw [Evaluation.mapRounds, Eval.attempt_bind, round]
    rfl
  have mapped : Evaluation.mapExpr w (.member "a") located 0 inside =
      (.error (.fault refusal), opened.onChain fun c => c.truncate 1) := by
    have items : Evaluation.loopItems w (.member "a") 0 inside = (.ok (inner, [inner]), inside) :=
      Eval.bind_ok source
    exact (Eval.bind_ok items).trans (Eval.bind_error rounds)
  have outcome : (m.evaluateWith (watched strict other 302) p input).1 = .error refusal := by
    change outcomeOf ((watched strict other 302).eval p.root 0 root).1 = _
    rw [start]
    change outcomeOf (Evaluation.mapExpr w (.member "a") located 0 inside).1 = _
    rw [mapped]
    rfl
  have same := congrArg Prod.fst (throughout other)
  rw [outcome, plain] at same
  cases same

end Machine

end TreeQuery
