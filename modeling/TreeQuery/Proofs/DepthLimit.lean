import Mathlib
import TreeQuery.Proofs.Lockstep.Runs
import TreeQuery.Proofs.Translation.Contents

/-!
# The limit on depth only cuts off

A program without handlers that does not run out of depth has the same outcome under any greater
limit, and leaves the machine the same (`evaluate_withLimit`). The two runs go in lockstep until the
one with less depth runs out of it; as there are no handlers, nothing holds up this error then, and
it is the outcome.
-/

set_option autoImplicit false

namespace TreeQuery

/-- No handlers, on the program itself or on anything it consists of. -/
structure Program.HandlerFree (p : Program) : Prop where
  root : Expr.All Expr.HandlerFree p.root
  handler : p.handler = none

/-- Values in which all functions are without handlers. -/
noncomputable def Realm.handlerFree : Realm :=
  .guarding Expr.HandlerFree id fun _ _ same => same

theorem Realm.handlerFree_fixes : Realm.handlerFree.test.Fixes fun _ _ => False :=
  ⟨nofun, nofun, fun _ => rfl⟩

/-- Two runs of a program without handlers. -/
noncomputable abbrev Setting.unguarded : Setting :=
  { Realm.handlerFree with
    keep := true
    plain := true
    marks := false
    unhandled := true
    renumber := id
    injective := fun _ _ same => same
    bare := fun _ => ⟨rfl, fun _ free => free⟩ }

/-- Runs under two limits, up to where the first one is exceeded. -/
def Comparison.limits (settings : Settings) (limit : Nat) : Comparison .unguarded where
  base := {}
  settings
  limit
  lasting := true
  offset := 0
  fits _ := True
  fatal f := f = depthExceeded settings.maxDepth
  bare _ := False
  kept := rfl
  identities _ _ := rfl
  fits_of_le _ _ _ _ := trivial
  numbered _ _ := rfl
  unhandled _ _ := rfl
  config _ _ := nofun
  apart := nofun

theorem Comparison.limits_verbatim (settings : Settings) (limit : Nat) :
    (Comparison.limits settings limit).Verbatim :=
  ⟨rfl, Setting.image_identity rfl rfl, rfl⟩

namespace Machine

/-- The machine with another limit on depth. -/
def withLimit (limit : Nat) (m : Machine) : Machine :=
  { m with settings := { m.settings with maxDepth := limit } }

/-- **The limit on depth only cuts off.** A program without handlers runs on a new machine, on an
input without functions. If the outcome is not that the limit on depth was exceeded, then it is the
outcome under any greater limit, and all that is left on the machine is the same. -/
theorem evaluate_withLimit (m : Machine) (p : Program) (input : Value) {limit limit' : Nat}
    (pristine : m.Pristine) (program : p.HandlerFree) (plain : input.FunctionFree)
    (streams : ∀ entry ∈ m.streams, ∀ v ∈ entry.2, v.FunctionFree) (more : limit ≤ limit')
    (finished : ((m.withLimit limit).evaluate p input).1 ≠ .error (depthExceeded limit)) :
    (m.withLimit limit').evaluate p input =
      (((m.withLimit limit).evaluate p input).1,
        ((m.withLimit limit).evaluate p input).2.withLimit limit') := by
  let C := Comparison.limits (m.withLimit limit).settings limit'
  have verbatim : C.Verbatim := Comparison.limits_verbatim ..
  have fixes := Realm.handlerFree_fixes
  have runner : TiedRunner C (.ofDepth (m.withLimit limit).depthLeft)
      (.ofDepth (m.withLimit limit').depthLeft) := by
    refine .ofDepth (.inr ⟨?_, rfl⟩)
    simp only [depthLeft, withLimit, pristine.depth]
    exact more
  have allowed : Setting.unguarded.AllowsProgram p := by
    refine ⟨fun _ => program.root, ?_, fun _ => program.handler⟩
    rw [program.handler]
    nofun
  have related : Setting.unguarded.value input input :=
    ⟨(verbatim.value input).symm, fun _ => input.translate_holds fixes plain⟩
  have confined : Confined C (m.withLimit limit) :=
    Pristine.confined { pristine with } rfl rfl fun _ _ =>
      Assoc.mapValues_eq_self fun entry member =>
        Value.map_translate_holds fixes (streams entry member)
  obtain ⟨confinedAfter, -, ties⟩ := evaluateWith_tied runner allowed related confined
  rcases ties _ (verbatim.tie _) trivial with ⟨f, failed, rfl⟩ | ⟨outcome, tie⟩
  · exact absurd failed finished
  · rw [verbatim.result] at outcome
    exact Prod.ext outcome ((verbatim.eq_copy tie).trans confinedAfter.copy_eq)

/-- A function that calls itself once, with a limit that is just enough. -/
theorem evaluate_withLimit_recursive :
    let m : Machine := {}
    let body : Expr :=
      .conditional (.named "more") (.invoke (.named "f") [.bool false]) (some (.text "done"))
    let p : Program :=
      ⟨.letIn [⟨0, "f", .function ⟨[⟨"more", none⟩], body, false, none⟩, none, none⟩]
        (.invoke (.named "f") [.bool true]) none, none⟩
    p.HandlerFree ∧ ((m.withLimit 5).evaluate p .null).1 = .error (depthExceeded 5) ∧
      ((m.withLimit 6).evaluate p .null).1 = .ok (.text "done") ∧
      (m.withLimit 1000).evaluate p .null =
        (((m.withLimit 6).evaluate p .null).1,
          ((m.withLimit 6).evaluate p .null).2.withLimit 1000) := by
  intro m body p
  have pristine : m.Pristine := ⟨⟨rfl, rfl⟩, rfl, rfl, rfl, rfl⟩
  have leaf : ∀ e : Expr, e.HandlerFree → e.parts = [] → Expr.All Expr.HandlerFree e :=
    fun _ here bare => .leaf here bare
  have call : ∀ b, Expr.All Expr.HandlerFree (.invoke (.named "f") [.bool b]) := fun b =>
    .intro trivial (by simp [Expr.parts, leaf (.named "f") trivial rfl, leaf (.bool b) trivial rfl])
  have again : Expr.All Expr.HandlerFree body :=
    .intro trivial (by
      simp [body, Expr.parts, call, leaf (.named "more") trivial rfl,
        leaf (.text "done") trivial rfl])
  have function : Expr.All Expr.HandlerFree (.function ⟨[⟨"more", none⟩], body, false, none⟩) :=
    .intro rfl (by simp [Expr.parts, Definition.parts, Handler.parts, again])
  have program : p.HandlerFree := by
    refine ⟨.intro ⟨rfl, by simp⟩ ?_, rfl⟩
    simp [p, Expr.parts, Binding.parts, Handler.parts, call, function]
  have done : ((m.withLimit 6).evaluate p .null).1 = .ok (.text "done") := by cbv
  refine ⟨program, by cbv, done, ?_⟩
  refine evaluate_withLimit m p .null pristine program trivial (by simp [m]) (by decide) ?_
  rw [done]
  simp

end Machine

end TreeQuery
