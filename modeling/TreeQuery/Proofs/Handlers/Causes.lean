import Mathlib
import TreeQuery.Proofs.Steps

/-!
# The causes of an error

A handler that fails puts its error in the place of the one it received, which becomes the cause.
How a computation comes to fail with handlers in it is a tree (`Failure`): an error of its own, or a
failure of what is guarded and a failure of the handler that received it. `Fails` says which tree a
computation fails with, through all that passes errors on.

The error that comes out shows what arose last, and its chain of causes goes through what was
received, to any depth (`Failure.chain_fault`). What it does not go through is the causes that the
error of a handler had of its own (`Failure.all_perm`): they give way to the received error.
-/

set_option autoImplicit false

namespace TreeQuery

/-- The error without its cause. -/
def Fault.bare (f : Fault) : Fault :=
  { f with cause := none }

theorem Fault.bare_wrapping (f cause : Fault) : (f.wrapping cause).bare = f.bare := rfl

theorem Fault.chain_wrapping (f cause : Fault) :
    (f.wrapping cause).chain = f.wrapping cause :: cause.chain := rfl

/-- An error is the first of its chain. -/
theorem Fault.chain_eq_cons (f : Fault) : f.chain = f :: f.chain.tail := by
  obtain ⟨kind, code, message, payload, library, function, location, _ | cause⟩ := f <;> rfl

theorem Fault.tail_chain_eq_nil (f : Fault) : f.chain.tail = [] ↔ f.cause = none := by
  obtain ⟨kind, code, message, payload, library, function, location, _ | cause⟩ := f
  · exact ⟨fun _ => rfl, fun _ => rfl⟩
  · change cause.chain = [] ↔ some cause = none
    rw [cause.chain_eq_cons]
    exact ⟨nofun, nofun⟩

/-- How errors came to replace each other. -/
inductive Failure where
  /-- An error that arose, with the causes that it already had. -/
  | own (f : Fault)
  /-- A handler failed that had received the error of another failure. -/
  | replaced (received secondary : Failure)

namespace Failure

/-- The error that arose last. -/
def latest : Failure → Fault
  | own f => f
  | replaced _ secondary => secondary.latest

/-- The error that comes out. -/
def fault : Failure → Fault
  | own f => f
  | replaced received secondary => secondary.fault.wrapping received.fault

/-- All errors that arose, with their causes, the latest first. -/
def all : Failure → List Fault
  | own f => f.chain
  | replaced received secondary => secondary.all ++ received.all

/-- The errors that can still be reached: the latest and what was received before. -/
def kept : Failure → List Fault
  | own f => f.chain
  | replaced received secondary => secondary.latest :: received.kept

/-- The causes that a failing handler's error had of its own. -/
def lost : Failure → List Fault
  | own _ => []
  | replaced received secondary => secondary.all.tail ++ received.lost

/-- Every handler that failed did so with an error that had no cause yet. -/
def Direct : Failure → Prop
  | own _ => True
  | replaced received secondary => received.Direct ∧ ∃ f, secondary = own f ∧ f.cause = none

/-- The error that comes out is the latest one, but for its cause. -/
theorem bare_fault (t : Failure) : t.fault.bare = t.latest.bare := by
  induction t with
  | own f => rfl
  | replaced received secondary _ ih => exact (Fault.bare_wrapping _ _).trans ih

theorem chain_fault (t : Failure) : t.fault.chain.map Fault.bare = t.kept.map Fault.bare := by
  induction t with
  | own f => rfl
  | replaced received secondary ih _ =>
      rw [fault, Fault.chain_wrapping, List.map_cons, ih, Fault.bare_wrapping, bare_fault]
      rfl

theorem all_eq_cons (t : Failure) : t.all = t.latest :: t.all.tail := by
  induction t with
  | own f => exact f.chain_eq_cons
  | replaced received secondary _ ih =>
      rw [all, latest, ih]
      rfl

open scoped List in
/-- Every error that arose can still be reached or was a cause that gave way. -/
theorem all_perm (t : Failure) : t.all ~ t.kept ++ t.lost := by
  induction t with
  | own f => simp [all, kept, lost]
  | replaced received secondary ih _ =>
      calc secondary.all ++ received.all
          = secondary.latest :: (secondary.all.tail ++ received.all) := by
            rw [← List.cons_append, ← all_eq_cons]
        _ ~ secondary.latest :: (secondary.all.tail ++ (received.kept ++ received.lost)) :=
            (ih.append_left _).cons _
        _ ~ secondary.latest :: (received.kept ++ (secondary.all.tail ++ received.lost)) :=
            (List.perm_append_comm_assoc ..).cons _

theorem lost_eq_nil (t : Failure) : t.lost = [] ↔ t.Direct := by
  induction t with
  | own f => simp [lost, Direct]
  | replaced received secondary ih _ =>
      rw [lost, List.append_eq_nil_iff, ih, Direct, and_comm]
      refine and_congr_right fun _ => ?_
      cases secondary with
      | own f => simp [all, Fault.tail_chain_eq_nil]
      | replaced other last =>
          rw [all, all_eq_cons last, all_eq_cons other]
          simp

end Failure

/-! ## Computations that fail -/

/-- The machine in which the body of a handler starts. -/
def Machine.receiving (m : Machine) (i : Nat) (h : Handler) (received : Fault) : Machine :=
  let error := Evaluated.plain (.fault received)
  m.onChain fun c =>
    (((c.push .handler (some i)).setCurrent c.size error).setValue c.size Chain.errorName
      error).setHandled c.size h.handled

/-- A handler that fails replaces the error. -/
theorem Evaluation.guarded_failed {left i : Nat} {h : Handler} {body : Eval Evaluated}
    {m m₁ m₂ : Machine} {received secondary : Fault}
    (first : body m = (.error (.fault received), m₁))
    (second : eval left h.body m₁.chain.size (m₁.receiving i h received) =
      (.error (.fault secondary), m₂)) :
    guarded (.ofDepth left) i (some h) body m =
      (.error (.fault (secondary.wrapping received)),
        m₂.onChain fun c => c.truncate m₁.chain.size) := by
  have handled : ∃ flag, handle (.ofDepth left) i h received m₁ =
      (.ok (.error (.fault secondary), flag), m₂.onChain fun c => c.truncate m₁.chain.size) := by
    have run : handle (.ofDepth left) i h received m₁ =
        (.ok ((eval left h.body m₁.chain.size (m₁.receiving i h received)).1,
            (eval left h.body m₁.chain.size (m₁.receiving i h received)).2.chain.isHandled
              m₁.chain.size),
          (eval left h.body m₁.chain.size (m₁.receiving i h received)).2.onChain
            fun c => c.truncate m₁.chain.size) := rfl
    rw [second] at run
    exact ⟨_, run⟩
  obtain ⟨flag, handled⟩ := handled
  rw [guarded, Eval.attempt_bind, first]
  exact Eval.bind_ok handled

/-- A computation fails on a machine in the way of a tree, and leaves another machine. -/
inductive Fails : {α : Type} → Eval α → Machine → Failure → Machine → Prop
  | own {α : Type} {x : Eval α} {m m' : Machine} {f : Fault}
      (fails : x m = (.error (.fault f), m')) : Fails x m (.own f) m'
  /-- The handler fails that receives the error of what is guarded. -/
  | guarded {left i : Nat} {h : Handler} {body : Eval Evaluated} {m m₁ m₂ : Machine}
      {received secondary : Failure} (first : Fails body m received m₁)
      (second : Fails (eval left h.body m₁.chain.size) (m₁.receiving i h received.fault) secondary
        m₂) :
      Fails (Evaluation.guarded (.ofDepth left) i (some h) body) m (.replaced received secondary)
        (m₂.onChain fun c => c.truncate m₁.chain.size)
  /-- What looks at the outcome passes errors on. -/
  | passed {α β : Type} {x : Eval α} {f : Except Signal α → Eval β} {m m' : Machine} {t : Failure}
      (first : Fails x m t m')
      (pass : ∀ e after, f (.error (.fault e)) after = (.error (.fault e), after)) :
      Fails (Eval.attempt x >>= f) m t m'
  | next {α β : Type} {x : Eval α} {f : α → Eval β} {m m₁ m' : Machine} {a : α} {t : Failure}
      (first : x m = (.ok a, m₁)) (second : Fails (f a) m₁ t m') : Fails (x >>= f) m t m'
  | within {α : Type} {kind : FrameKind} {i : Nat} {body : Nat → Eval α} {m m' : Machine}
      {t : Failure}
      (inside : Fails (body m.chain.size) (m.onChain fun c => c.push kind (some i)) t m') :
      Fails (Eval.within kind i body) m t (m'.onChain fun c => c.truncate m.chain.size)
  | deeper {α : Type} {x : Eval α} {m m' : Machine} {t : Failure}
      (inside : Fails x { m with depth := m.depth + 1 } t m') :
      Fails (Eval.deeper x) m t { m' with depth := m'.depth - 1 }

/-- A computation that fails in the way of a tree ends in the error of that tree. -/
theorem Fails.outcome {α : Type} {x : Eval α} {m m' : Machine} {t : Failure}
    (fails : Fails x m t m') : x m = (.error (.fault t.fault), m') := by
  induction fails with
  | own fails => exact fails
  | guarded _ _ first second => exact Evaluation.guarded_failed first second
  | passed _ pass first =>
      rw [Eval.attempt_bind, first]
      exact pass _ _
  | next first _ second => exact (Eval.bind_ok first).trans second
  | within _ inside => rw [Eval.within_apply, inside]
  | deeper _ inside => simp only [Eval.deeper, inside]

theorem Fails.of_outcome {α : Type} {x : Eval α} {m : Machine} {f : Fault}
    (ends : (x m).1 = .error (.fault f)) : Fails x m (.own f) (x m).2 :=
  .own (Prod.ext ends rfl)

theorem Fails.scope {left i : Nat} {body : Expr} {h : Option Handler} {m m' : Machine} {t : Failure}
    (inside : Fails
      (Evaluation.guarded (.ofDepth left) m.chain.size h (eval left body m.chain.size))
      ({ m with depth := m.depth + 1 }.onChain fun c => c.push .scope (some i)) t m') :
    Fails (eval (left + 1) (.scope body h) i) m t
      { m'.onChain fun c => c.truncate m.chain.size with depth := m'.depth - 1 } := by
  have framed : Fails (Eval.within .scope i fun j =>
      Evaluation.guarded (.ofDepth left) j h (eval left body j)) { m with depth := m.depth + 1 } t
      (m'.onChain fun c => c.truncate m.chain.size) := .within inside
  exact framed.deeper

/-- **What a failing handler keeps of the errors before.** However handlers are nested in what they
guard and in each other, the error that comes out has the kind, code, message, payload, function and
location of the one that arose last. If a handler failed, its error has the received error for its
cause, with all of that error's own causes behind it. So of all errors that arose, those received
can still be reached, and those are lost that were causes of a handler's error already when it
failed; nothing is lost exactly if no handler failed with an error that had a cause. -/
theorem fails_chain {α : Type} {x : Eval α} {m m' : Machine} {t : Failure}
    (fails : Fails x m t m') :
    x m = (.error (.fault t.fault), m') ∧ t.fault.bare = t.latest.bare ∧
      (∀ received secondary, t = .replaced received secondary →
        t.fault.chain = t.fault :: received.fault.chain) ∧
      t.fault.chain.map Fault.bare = t.kept.map Fault.bare ∧ t.all.Perm (t.kept ++ t.lost) ∧
      (t.lost = [] ↔ t.Direct) := by
  refine ⟨fails.outcome, t.bare_fault, ?_, t.chain_fault, t.all_perm, t.lost_eq_nil⟩
  rintro received secondary rfl
  exact Fault.chain_wrapping _ _

/-- An error that the program raises in a frame without a cursor. -/
def Fault.plainly (kind : String) : Fault :=
  Fault.raised kind "failed" .empty

def Expr.plainly (kind : String) : Expr :=
  .raise kind none (.text "failed") none

/-- Handlers around what is guarded, one of them around the other. -/
theorem fails_chain_nested :
    let m : Machine := { chain := ({} : Chain).push .query none }
    let inner : Expr := .scope (.plainly "First") (some ⟨.plainly "Second", false⟩)
    let e : Expr := .scope inner (some ⟨.plainly "Third", true⟩)
    let t : Failure := .replaced (.replaced (.own (.plainly "First")) (.own (.plainly "Second")))
      (.own (.plainly "Third"))
    (∃ after, Fails (eval 4 e 0) m t after) ∧ (eval 4 e 0 m).1 = .error (.fault t.fault) ∧
      t.fault.chain.map Fault.bare = [.plainly "Third", .plainly "Second", .plainly "First"] ∧
      t.lost = [] := by
  intro m inner e t
  have inside : Fails (eval 3 inner 1)
      ({ m with depth := 1 }.onChain fun c => c.push .scope (some 0))
      (.replaced (.own (.plainly "First")) (.own (.plainly "Second"))) _ :=
    .scope (.guarded (.of_outcome (by cbv)) (.of_outcome (by cbv)))
  have fails : Fails (eval 4 e 0) m t _ := .scope (.guarded inside (.of_outcome (by cbv)))
  obtain ⟨ends, -, -, chain, -, direct⟩ := fails_chain fails
  have plain : t.Direct := ⟨⟨trivial, _, rfl, rfl⟩, _, rfl, rfl⟩
  exact ⟨⟨_, fails⟩, congrArg Prod.fst ends, chain, direct.mpr plain⟩

/-- The handler of a handler fails: the error for which the inner one ran is the cause of the error
that the outer one fails with, and no longer of the error that comes out. -/
theorem fails_without_cause :
    let m : Machine := { chain := ({} : Chain).push .query none }
    let cleanup : Expr := .scope (.plainly "Second") (some ⟨.plainly "Third", false⟩)
    let e : Expr := .scope (.plainly "First") (some ⟨cleanup, false⟩)
    let secondary : Failure := .replaced (.own (.plainly "Second")) (.own (.plainly "Third"))
    let t : Failure := .replaced (.own (.plainly "First")) secondary
    (∃ after, Fails (eval 4 e 0) m t after) ∧ .plainly "Second" ∈ secondary.fault.chain ∧
      (eval 4 e 0 m).1 = .error (.fault (.wrapping (.plainly "Third") (.plainly "First"))) ∧
      .plainly "Second" ∉ t.fault.chain.map Fault.bare := by
  intro m cleanup e secondary t
  let received := (eval 3 (.plainly "First") 1
    ({ m with depth := 1 }.onChain fun c => c.push .scope (some 0))).2
  have inside : Fails (eval 3 cleanup 2) (received.receiving 1 ⟨cleanup, false⟩ (.plainly "First"))
      secondary _ :=
    .scope (.guarded (.of_outcome (by cbv)) (.of_outcome (by cbv)))
  have fails : Fails (eval 4 e 0) m t _ := .scope (.guarded (.of_outcome (by cbv)) inside)
  refine ⟨⟨_, fails⟩, List.mem_cons_of_mem _ (List.mem_cons_self ..), ?_, ?_⟩
  · exact congrArg Prod.fst fails.outcome
  · simp [t, secondary, Failure.fault, Fault.plainly, Fault.bare, Fault.wrapping, Fault.raised,
      Fault.withPayload, Fault.of, Fault.chain, FaultKind.ofName, FaultKind.name]

end TreeQuery
