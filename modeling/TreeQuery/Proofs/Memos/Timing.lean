import Mathlib
import TreeQuery.Proofs.Memos.Mirrored
import TreeQuery.Proofs.Memos.Unobservable

/-!
# When let-bindings are computed is unobservable

Without effects, a program comes to the same whether its let-bindings are computed ahead or when they
are first needed, as long as neither run is out of depth and no expression of a let-binding ends in a
signal (`evaluate_lazy_eq_eager`). Both runs are mirrored by one on a machine that remembers nothing
and computes nothing ahead, and what that one comes to is the same for both.

The let-bindings of a scope need different names. Of two with one name only the second can be
referred to, but what is computed ahead for the first is remembered under the name
(`eager_value_of_hidden`).
-/

set_option autoImplicit false

namespace TreeQuery

/-- Nowhere in a run is an evaluation out of depth or does the expression of a let-binding end in a
signal: it does not matter what would happen there. -/
def Smooth (left : Nat) {α : Type} (run : Runner → α) : Prop :=
  ∀ other, run (.heeding other left) = run (.ofDepth left)

namespace Machine

variable {m : Machine} {input : Value}

/-- The machine with another default for when let-bindings are computed. -/
def withTiming (timing : Timing) (m : Machine) : Machine :=
  { m with settings := { m.settings with timing } }

/-- A fresh machine faces itself as if it remembered nothing and computed nothing ahead. -/
theorem Fresh.facing (fresh : m.Fresh) (plain : input.inert = true)
    (reset : m.settings.reset = .afterScope) :
    Facing .shared m.chain.size (m.enter input) m.chain.size (m.lax.enter input) := by
  have ready := fresh.ready plain (.inl reset)
  refine ⟨ready, reset, fun j f name slot v found there => ?_,
    ⟨ready.lax, ready.lax, rfl, rfl, rfl, rfl, nofun, nofun⟩⟩
  cases fresh.frame_enter found
  cases there

/-- A smooth run is mirrored by one that remembers nothing and computes nothing ahead. -/
theorem Fresh.mirrored {p : Program} (fresh : m.Fresh) (program : p.EffectFree)
    (plain : input.inert = true) (reset : m.settings.reset = .afterScope)
    (smooth : Smooth m.depthLeft fun run => m.evaluateWith run p input) :
    ∃ o n, Converges (fun r => Evaluation.guarded r m.chain.size p.handler (r p.root m.chain.size))
        (m.lax.enter input) o n ∧ (m.evaluate p input).1 = outcomeOf o := by
  have alike : Alike .effectless .shared m.chain.size m.chain.size _ _ _ :=
    .runRoot .effectless (p := p) (fun _ => program.root) fun e member _ => program.handler e member
  rw [Expr.trim_true, Handler.trimOption_true] at alike
  have same : m.evaluateWith (.wary m.depthLeft) p input = m.evaluate p input :=
    smooth Runner.marking
  have quiet := unmarked_runRoot (.of_size fresh.chain) same
  obtain ⟨o, n, converges, outcome, -⟩ :=
    alike.mirrored (.wary m.depthLeft) _ _ (fresh.facing plain reset) quiet
  have both : (m.runRoot (.wary m.depthLeft) p input).1 = o :=
    outcome.eq Evaluated.translate_identity
  refine ⟨o, n, converges, ?_⟩
  calc (m.evaluate p input).1
      = outcomeOf (m.runRoot (.wary m.depthLeft) p input).1 := (congrArg Prod.fst same).symm
    _ = outcomeOf o := by rw [both]

end Machine

/-- **When let-bindings are computed is unobservable.** A program without effects, on an input without
functions and streams, has the same outcome on fresh machines that remember let-bindings to the end
of the scope and differ only in whether these are computed ahead, if neither run is out of depth and
no expression of a let-binding ends in a signal. -/
theorem evaluate_lazy_eq_eager (m : Machine) (p : Program) (input : Value) (fresh : m.Fresh)
    (program : p.EffectFree) (plain : input.inert = true) (reset : m.settings.reset = .afterScope)
    (smooth : Smooth m.depthLeft fun run => (m.withTiming .lazy).evaluateWith run p input)
    (smoothToo : Smooth m.depthLeft fun run => (m.withTiming .eager).evaluateWith run p input) :
    ((m.withTiming .lazy).evaluate p input).1 = ((m.withTiming .eager).evaluate p input).1 := by
  have first : (m.withTiming .lazy).Fresh := ⟨fresh.chain, fresh.configs⟩
  have second : (m.withTiming .eager).Fresh := ⟨fresh.chain, fresh.configs⟩
  obtain ⟨o, n, converges, outcome⟩ := first.mirrored program plain reset smooth
  obtain ⟨o', n', convergesToo, outcomeToo⟩ := second.mirrored program plain reset smoothToo
  -- Nothing computed ahead, nothing remembered: the two timings have the same machine to face.
  have same : o = o' := converges.unique convergesToo
  rw [outcome, outcomeToo, same]

/-- The first binding refers to the second, which is thus computed when the first is. -/
theorem evaluate_lazy_eq_eager_nested :
    let m : Machine := { settings := { maxDepth := 6 } }
    let p : Program :=
      ⟨.letIn [⟨0, "x", .array [.named "y", .named "y"], none, none⟩,
          ⟨1, "y", .text "a", none, none⟩]
        (.array [.named "x", .named "y"]) none, none⟩
    m.Fresh ∧ p.EffectFree ∧
      ((m.withTiming .lazy).evaluate p .null).1 = ((m.withTiming .eager).evaluate p .null).1 ∧
      ((m.withTiming .eager).evaluate p .null).1 =
        .ok (.array [.array [.text "a", .text "a"], .text "a"]) := by
  intro m p
  have fresh : m.Fresh := ⟨rfl, rfl⟩
  have text : Expr.All Expr.EffectFree (.text "a") := .intro trivial (by simp [Expr.parts])
  have pair : ∀ name other, Expr.All Expr.EffectFree (.array [.named name, .named other]) := by
    intro name other
    have named : ∀ name, Expr.All Expr.EffectFree (.named name) :=
      fun _ => .intro trivial (by simp [Expr.parts])
    exact .intro trivial (by simp [Expr.parts, named])
  have program : p.EffectFree := by
    refine ⟨.intro (by simp [p, Expr.EffectFree]) ?_, by simp [p, Handler.parts]⟩
    simp [p, Expr.parts, Binding.parts, Handler.parts, text, pair]
  have smooth : Smooth m.depthLeft fun run => (m.withTiming .lazy).evaluateWith run p .null :=
    fun other => by cbv
  have smoothToo : Smooth m.depthLeft fun run => (m.withTiming .eager).evaluateWith run p .null :=
    fun other => by cbv
  exact ⟨fresh, program,
    evaluate_lazy_eq_eager m p .null fresh program rfl rfl smooth smoothToo, by cbv⟩

/-- Two bindings of one name: a reference means the second, but what is computed ahead for the first
is remembered in its place. -/
theorem eager_value_of_hidden :
    let m : Machine := { settings := { maxDepth := 6 } }
    let p : Program :=
      ⟨.letIn [⟨0, "x", .text "first", none, none⟩, ⟨1, "x", .text "second", none, none⟩]
        (.named "x") none, none⟩
    m.Fresh ∧ m.settings.reset = .afterScope ∧
      (Smooth m.depthLeft fun run => (m.withTiming .lazy).evaluateWith run p .null) ∧
      (Smooth m.depthLeft fun run => (m.withTiming .eager).evaluateWith run p .null) ∧
      ((m.withTiming .lazy).evaluate p .null).1 = .ok (.text "second") ∧
      ((m.withTiming .eager).evaluate p .null).1 = .ok (.text "first") := by
  intro m p
  exact ⟨⟨rfl, rfl⟩, rfl, fun other => by cbv, fun other => by cbv, by cbv, by cbv⟩

end TreeQuery
