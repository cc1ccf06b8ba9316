import Mathlib
import TreeQuery.Proofs.Memos.Agreement

/-!
# Memos of let-bindings are unobservable

Without effects, a program comes to the same whether the values of its let-bindings are remembered
to the end of the scope or computed anew at each reference, as long as neither run is out of depth
(`evaluate_afterScope_eq_always`). On a fresh machine both runs start with a pair of machines that
remember nothing; a run that is nowhere out of depth leaves no mark, so the two agree.
-/

set_option autoImplicit false

namespace TreeQuery

/-- No function is made or called, nothing is handed to a component, and the store, streams and
handled flags are left alone. No let-binding has a configuration, and those of one scope have
different names. -/
structure Program.EffectFree (p : Program) : Prop where
  root : Expr.All Expr.EffectFree p.root
  handler : ∀ e ∈ Handler.parts p.handler, Expr.All Expr.EffectFree e

namespace Machine

/-- The machine with another default for how long let-bindings are remembered. -/
def withReset (reset : ResetPolicy) (m : Machine) : Machine :=
  { m with settings := { m.settings with reset } }

/-- No frames are live, and no let-binding has a configuration yet. -/
structure Fresh (m : Machine) : Prop where
  chain : m.chain.size = 0
  configs : m.configs = []

variable {m : Machine} {input : Value}

theorem frame?_enter (m : Machine) (input : Value) (j : Nat) :
    (m.enter input).chain.frame? j = if j = m.chain.size then
        some { kind := .query, parent := none, values := [(Chain.currentName, .plain input)],
               cursor := some (.linkedTo [] input) }
      else m.chain.frame? j := by
  simp only [enter, onChain, Chain.setCurrent, Chain.setValue, Chain.setCursor, Chain.frame?_update,
    Chain.frame?_push]
  split <;> rfl

theorem Fresh.frame_enter (fresh : m.Fresh) {j : Nat} {f : Frame}
    (found : (m.enter input).chain.frame? j = some f) :
    f = { kind := .query, parent := none, values := [(Chain.currentName, .plain input)],
          cursor := some (.linkedTo [] input) } := by
  rw [frame?_enter] at found
  split at found
  · exact (Option.some.inj found).symm
  · have dead : m.chain.frame? j = none := by
      rw [Chain.frame?_eq_none_iff, fresh.chain]
      exact Nat.zero_le j
    rw [dead] at found
    cases found

/-- The frame of a program holds its input and nothing else. -/
theorem Fresh.ready (fresh : m.Fresh) (plain : input.inert = true)
    (policy : m.settings.reset = .afterScope ∨ m.settings.reset = .always) :
    Ready .effectless .shared m.chain.size (m.enter input) := by
  have inert : input.translate Setting.effectless.test = input := Value.translate_inert _ input plain
  have start := m.ready_enter (.of_size fresh.chain) input
  refine ⟨start.nested, start.live, fun _ =>
    ⟨fun j f found => ?_, fun _ _ => trivial, fun id config found => ?_, policy⟩⟩
  · cases fresh.frame_enter found
    refine ⟨fun name v there => ?_, fun a there => ?_, nofun, nofun, nofun⟩
    · simp only [Assoc.get?] at there
      split at there
      · cases there
        rw [Evaluated.translate_plain, inert]
      · cases there
    · cases there
      rw [← Address.linkedTo_translate, inert]
  · rw [show (m.enter input).configs = m.configs from rfl, fresh.configs] at found
    cases found

/-- Machines that differ in the default only and remember nothing are a pair. -/
theorem Fresh.paired (fresh : m.Fresh) (plain : input.inert = true) :
    Paired .afterScope .shared m.chain.size ((m.withReset .afterScope).enter input) m.chain.size
      ((m.withReset .always).enter input) := by
  have first : (m.withReset .afterScope).Fresh := ⟨fresh.chain, fresh.configs⟩
  have second : (m.withReset .always).Fresh := ⟨fresh.chain, fresh.configs⟩
  refine ⟨first.ready plain (.inl rfl), second.ready plain (.inr rfl), rfl, rfl, rfl, rfl, nofun,
    fun _ j f name slot v found there => ?_⟩
  cases first.frame_enter found
  cases there

/-- A run that comes to what plain evaluation comes to has left no mark. -/
theorem unmarked_runRoot {run : Runner} {left : Nat} (nested : m.chain.Nested) {p : Program}
    (same : m.evaluateWith run p input = m.evaluateWith (.ofDepth left) p input) :
    (m.runRoot run p input).2.settings.maxDepth = m.settings.maxDepth := by
  have settings : (m.runRoot run p input).2.settings =
      (m.runRoot (.ofDepth left) p input).2.settings :=
    congrArg (fun result => result.2.settings) same
  have alike : Alike .whole .shared m.chain.size m.chain.size _ _ _ :=
    .runRoot .whole (p := p) (.of_effects rfl _) fun e _ => .of_effects rfl e
  rw [settings]
  have sound := alike.sound rfl (.ofDepth rfl (.basic ..) left) _ (m.ready_enter nested input)
  exact sound.keeps.unmarked rfl

/-- A run that is nowhere out of depth leaves no mark. -/
theorem quiet_runRoot {left : Nat} (nested : m.chain.Nested) {p : Program}
    (deep : Throughout .deepEnough left fun run => m.evaluateWith run p input) :
    (m.runRoot (.marked left) p input).2.settings.maxDepth = m.settings.maxDepth :=
  unmarked_runRoot nested (throughout_deepEnough.mp deep Runner.marking)

end Machine

/-- **Memos of let-bindings are unobservable.** A program without effects, on an input without
functions and streams, has the same outcome on fresh machines that differ only in whether the values
of let-bindings are remembered to the end of the scope or computed at each reference, if neither run
is ever out of depth. -/
theorem evaluate_afterScope_eq_always (m : Machine) (p : Program) (input : Value) (fresh : m.Fresh)
    (program : p.EffectFree) (plain : input.inert = true)
    (deep : Throughout .deepEnough m.depthLeft fun run =>
      (m.withReset .afterScope).evaluateWith run p input)
    (deepToo : Throughout .deepEnough m.depthLeft fun run =>
      (m.withReset .always).evaluateWith run p input) :
    ((m.withReset .afterScope).evaluate p input).1 = ((m.withReset .always).evaluate p input).1 := by
  have nested : m.chain.Nested := .of_size fresh.chain
  have alike : Alike .effectless .shared m.chain.size m.chain.size _ _ _ :=
    .runRoot .effectless (p := p) (fun _ => program.root) fun e member _ => program.handler e member
  rw [Expr.trim_true, Handler.trimOption_true] at alike
  have runner : AgreeRunner .afterScope m.depthLeft m.depthLeft :=
    .of_determined (fun _ => determined) m.depthLeft m.depthLeft
  have quiet := Machine.quiet_runRoot (m := m.withReset .afterScope) nested deep
  have quietToo := Machine.quiet_runRoot (m := m.withReset .always) nested deepToo
  have agree := alike.agree (fun _ => determined) runner _ _ (fresh.paired plain) quiet quietToo
  have same : ((m.withReset .afterScope).runRoot (.marked m.depthLeft) p input).1 =
      ((m.withReset .always).runRoot (.marked m.depthLeft) p input).1 :=
    agree.outcome.eq Evaluated.translate_identity
  calc ((m.withReset .afterScope).evaluate p input).1
      = ((m.withReset .afterScope).evaluateWith (.marked m.depthLeft) p input).1 :=
        (congrArg Prod.fst (throughout_deepEnough.mp deep Runner.marking)).symm
    _ = ((m.withReset .always).evaluateWith (.marked m.depthLeft) p input).1 :=
        congrArg Machine.outcomeOf same
    _ = ((m.withReset .always).evaluate p input).1 := 
        congrArg Prod.fst (throughout_deepEnough.mp deepToo Runner.marking)

/-- One binding refers to another twice and is referred to twice; the depth is just enough. -/
theorem evaluate_afterScope_eq_always_nested :
    let m : Machine := { settings := { maxDepth := 6 } }
    let p : Program :=
      ⟨.letIn [⟨0, "x", .text "a", none, none⟩,
          ⟨1, "y", .array [.named "x", .named "x"], none, none⟩]
        (.array [.named "y", .named "y"]) none, none⟩
    m.Fresh ∧ p.EffectFree ∧
      ((m.withReset .afterScope).evaluate p .null).1 = ((m.withReset .always).evaluate p .null).1 ∧
      ((m.withReset .always).evaluate p .null).1 =
        .ok (.array [.array [.text "a", .text "a"], .array [.text "a", .text "a"]]) := by
  intro m p
  have fresh : m.Fresh := ⟨rfl, rfl⟩
  have text : Expr.All Expr.EffectFree (.text "a") := .intro trivial (by simp [Expr.parts])
  have twice : ∀ name, Expr.All Expr.EffectFree (.array [.named name, .named name]) := by
    intro name
    have named : Expr.All Expr.EffectFree (.named name) := .intro trivial (by simp [Expr.parts])
    exact .intro trivial (by simp [Expr.parts, named])
  have program : p.EffectFree := by
    refine ⟨.intro (by simp [p, Expr.EffectFree]) ?_, by simp [p, Handler.parts]⟩
    simp [p, Expr.parts, Binding.parts, Handler.parts, text, twice]
  have deep : Throughout .deepEnough m.depthLeft fun run =>
      (m.withReset .afterScope).evaluateWith run p .null :=
    throughout_deepEnough.mpr fun other => by cbv
  have deepToo : Throughout .deepEnough m.depthLeft fun run =>
      (m.withReset .always).evaluateWith run p .null :=
    throughout_deepEnough.mpr fun other => by cbv
  exact ⟨fresh, program,
    evaluate_afterScope_eq_always m p .null fresh program rfl deep deepToo, by cbv⟩

end TreeQuery
