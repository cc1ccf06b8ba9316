import Mathlib
import TreeQuery.Proofs.Lockstep.Runs

/-!
# How long let-bindings are remembered

A machine runs one program after another. What is remembered to the end of an evaluation is gone
after it, whatever its outcome. What is kept for good, and the configurations that are settled, are
there for all that follows: in the middle of a later evaluation as well as after it, and a name that
stands for a let-binding kept for good gives the value that is kept, with nothing evaluated
(`session_memos`).

No evaluation replaces what was there when it began: a memo is stored only after it was looked for
in vain, and so is a configuration.
-/

set_option autoImplicit false

namespace TreeQuery

/-- The value of a let-binding is kept for good. -/
structure Machine.Kept (m : Machine) (b : Binding) (v : Evaluated) : Prop where
  policy : ∃ config, Assoc.get? m.configs b.id = some config ∧ config.reset = .never
  memo : Assoc.get? m.persistent b.id = some v

variable {m base : Machine} {b : Binding} {v : Evaluated}

theorem Machine.Extends.kept (grown : base.Extends m) (kept : base.Kept b v) : m.Kept b v := by
  obtain ⟨⟨config, settled, policy⟩, memo⟩ := kept
  exact ⟨⟨config, grown.configs _ _ settled, policy⟩, grown.persistent _ _ memo⟩

/-- A let-binding that is kept for good is not computed again. -/
theorem Machine.Kept.force (kept : m.Kept b v) (run : Runner) (owner : Nat) :
    Evaluation.force run owner b m = (.ok v, m) := by
  obtain ⟨⟨config, settled, policy⟩, memo⟩ := kept
  have found : Evaluation.memo? config.reset owner b m = some v := by
    rw [policy]
    exact memo
  rw [Evaluation.force_settled (Evaluation.letConfig_known settled)]
  exact Evaluation.memoized_found found

theorem Machine.Kept.named (kept : m.Kept b v) {i owner : Nat} {name : String}
    (resolved : m.chain.resolve? i name = some (.binding owner b)) (run : Runner) :
    Evaluation.node run (.named name) i m = (.ok v, m) := by
  have rule := Evaluation.nameRef_apply run name i m
  rw [resolved] at rule
  exact rule.trans (kept.force run owner)

/-- Wherever something is evaluated, all that was settled and kept for good at the beginning still
is. A name that stands for a let-binding kept for good, since the beginning or by now, gives the
value that is kept; it does not matter how expressions are evaluated, as none is. -/
def Watch.keeping (base : Machine) : Watch where
  starts _ e i m := base.Extends m ∧ ∀ name owner b v, e = .named name →
    m.chain.resolve? i name = some (.binding owner b) → base.Kept b v ∨ m.Kept b v →
      ∀ run, Evaluation.node run e i m = (.ok v, m)
  opens _ _ _ := True

theorem Machine.Extends.starts (grown : base.Extends m) (left : Nat) (e : Expr) (i : Nat) :
    (Watch.keeping base).starts left e i m := by
  refine ⟨grown, ?_⟩
  rintro name owner b v rfl resolved (kept | kept) run
  · exact (grown.kept kept).named resolved run
  · exact kept.named resolved run

/-- A run that is compared with itself, from where it began. -/
def Comparison.since (base : Machine) : Comparison .whole where
  base
  settings := base.settings
  limit := base.settings.maxDepth
  lasting := true
  offset := 0
  fits _ := True
  fatal _ := False
  bare _ := False
  kept := rfl
  identities := nofun
  fits_of_le _ _ _ _ := trivial
  numbered _ _ := rfl
  unhandled _ := nofun
  config _ _ := nofun
  apart := nofun

theorem Comparison.since_verbatim (base : Machine) : (Comparison.since base).Verbatim :=
  ⟨rfl, Setting.image_identity rfl rfl, rfl⟩

theorem Confined.since (base : Machine) : Confined (.since base) base :=
  ⟨rfl, .refl base, nofun, fun _ _ _ _ _ _ => nofun, nofun, nofun, nofun, nofun, nofun, nofun⟩

namespace Machine

/-- One evaluation keeps what was kept for good, throughout and to its end. -/
theorem evaluate_keeps (m : Machine) (p : Program) (input : Value) :
    m.Extends (m.evaluate p input).2 ∧
      Throughout (.keeping m) m.depthLeft fun run => m.evaluateWith run p input := by
  have verbatim := Comparison.since_verbatim m
  have allowed : Setting.whole.AllowsProgram p := ⟨nofun, fun _ _ => nofun, nofun⟩
  have related : Setting.whole.value input input := ⟨(verbatim.value input).symm, nofun⟩
  have runs : ∀ other,
      m.Extends (m.evaluateWith (watched (.keeping m) other m.depthLeft) p input).2 ∧
      m.evaluate p input = m.evaluateWith (watched (.keeping m) other m.depthLeft) p input := by
    intro other
    have runner : TiedRunner (.since m) (watched (.keeping m) other m.depthLeft)
        (.ofDepth m.depthLeft) :=
      .watched (fun left e i _ confined => confined.grown.starts left e i) (fun _ _ _ => trivial)
        other (.inl ⟨rfl, rfl⟩)
    obtain ⟨confined, -, ties⟩ := evaluateWith_tied runner allowed related (.since m)
    rcases ties _ (verbatim.tie m) trivial with ⟨_, _, ended⟩ | ⟨outcome, tie⟩
    · cases ended
    · rw [verbatim.result] at outcome
      have after := (verbatim.eq_copy tie).trans (confined.copy_self rfl)
      exact ⟨confined.grown, Prod.ext outcome after⟩
  refine ⟨?_, fun other => (runs other).2.symm⟩
  obtain ⟨grown, same⟩ := runs (.ofDepth m.depthLeft)
  rw [same]
  exact grown

/-- The machine after a number of evaluations. -/
def session (m : Machine) : List (Program × Value) → Machine
  | [] => m
  | (p, input) :: rest => (m.evaluate p input).2.session rest

theorem session_extends (m : Machine) (calls : List (Program × Value)) :
    m.Extends (m.session calls) := by
  induction calls generalizing m with
  | nil => exact .refl m
  | cons call rest ih => exact (m.evaluate_keeps call.1 call.2).1.trans (ih _)

/-- **What is remembered, and how long.** After any evaluation nothing is left of what is remembered
to its end. What was settled or kept for good before it still is after it, and after all that
follow; and throughout the evaluation a reference to a let-binding that is kept for good gives the
value kept, with nothing evaluated. -/
theorem session_memos (m : Machine) (past : List (Program × Value)) (p : Program) (input : Value)
    (later : List (Program × Value)) :
    let before := m.session past
    (before.evaluate p input).2.perQuery = [] ∧
      before.Extends (before.evaluate p input).2 ∧
      before.Extends ((before.evaluate p input).2.session later) ∧
      Throughout (.keeping before) before.depthLeft fun run => before.evaluateWith run p input := by
  intro before
  obtain ⟨grown, throughout⟩ := before.evaluate_keeps p input
  exact ⟨rfl, grown, grown.trans (session_extends _ later), throughout⟩

/-- A let-binding that is kept for good gives the input of the first evaluation in the second. -/
example :
    let p : Program :=
      ⟨.letIn [⟨0, "first", .current, some (.policies .never .lazy), none⟩] (.named "first") none,
        none⟩
    ((({} : Machine).session [(p, .text "a")]).evaluate p (.text "b")).1 = .ok (.text "a") := by
  cbv

end Machine

end TreeQuery
