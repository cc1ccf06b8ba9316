import Mathlib
import TreeQuery.Proofs.Steps

/-!
# Overrides along a chain of operators

Operators of one kind in a row nest to the left: each has the result of the one before on its left.
`traced` evaluates such a chain and writes down each application, with its operands, its result and
the machines around it; but for what it writes down it is `eval` (`eval_foldl_binary`).

What one application does is said by `Application.Takes`, and by what decides it: an override
(`Application.Invoked`) or the built-in rules (`Application.BuiltIn`). What holds of a whole chain
goes from each result to the application after it (`Applications.all`).

Unboxing goes one level deep. A function that is invoked on access may give another such function,
and adding that to the empty value hands it on; the next application unboxes it anew, and may find
overrides that neither operand had. So built-in rules are certain only where the operands on the
right are no such functions.
-/

set_option autoImplicit false

namespace TreeQuery

/-- Whether a value is a function that is still to be invoked when it is needed. -/
def Value.onAccess : Value → Bool
  | .lambda l => l.definition.invokesOnAccess
  | _ => false

/-- A value that is not to be invoked on access, with given overrides. -/
def Evaluated.Bears (v : Evaluated) (carried : Overrides) : Prop :=
  v.value.onAccess = false ∧ v.overrides = carried

/-- The value with its overrides put to rest. -/
def Evaluated.atRest (v : Evaluated) : Evaluated :=
  { v with overrides := v.overrides.deactivated }

theorem Overrides.active_of_find? {o : Overrides} {symbol : String} {found : Override}
    (bound : o.find? symbol = some found) : o.active = true := by
  by_contra idle
  simp [Overrides.find?, idle] at bound

/-- Overrides that apply apply as before when they are activated. -/
theorem Overrides.activated_of_find? {o : Overrides} {symbol : String} {found : Override}
    (bound : o.find? symbol = some found) : o.activated = o := by
  obtain ⟨entries, active⟩ := o
  obtain rfl : active = true := active_of_find? bound
  cases entries with
  | nil => simp [Overrides.find?, Assoc.get?] at bound
  | cons entry rest => rfl

namespace Eval
variable {α β : Type} {x : Eval α} {f : α → Eval β} {m m' : Machine} {b : β}

/-- Steps in a row succeed if the first one does, and then the others on what it leaves. -/
theorem bind_eq_ok : (x >>= f) m = (.ok b, m') ↔
    ∃ a m₁, x m = (.ok a, m₁) ∧ f a m₁ = (.ok b, m') := by
  rcases run : x m with ⟨s | a, m₁⟩
  · rw [bind_error run]
    exact ⟨nofun, nofun⟩
  · rw [bind_ok run]
    refine ⟨fun rest => ⟨a, m₁, rfl, rest⟩, ?_⟩
    rintro ⟨_, _, same, rest⟩
    cases same
    exact rest

theorem within_eq_ok {kind : FrameKind} {i : Nat} {body : Nat → Eval β}
    (run : within kind i body m = (.ok b, m')) :
    ∃ m₁, body m.chain.size (m.onChain fun c => c.push kind (some i)) = (.ok b, m₁) := by
  rw [within_apply] at run
  exact ⟨_, Prod.ext (Prod.mk.inj run).1 rfl⟩

theorem deeper_apply (x : Eval α) (m : Machine) :
    deeper x m = ((x { m with depth := m.depth + 1 }).1,
      { (x { m with depth := m.depth + 1 }).2 with
        depth := (x { m with depth := m.depth + 1 }).2.depth - 1 }) := rfl

theorem deeper_eq_ok {y : Eval β} (run : deeper y m = (.ok b, m')) :
    ∃ m₁, y { m with depth := m.depth + 1 } = (.ok b, m₁) := by
  rw [deeper_apply] at run
  exact ⟨_, Prod.ext (Prod.mk.inj run).1 rfl⟩

theorem ofExcept_eq_ok {e : Except Fault β} (run : ofExcept e m = (.ok b, m')) :
    e = .ok b ∧ m' = m := by
  cases e with
  | ok a =>
      cases run
      exact ⟨rfl, rfl⟩
  | error f => cases run

/-- Looking at the machine does nothing to it. -/
theorem get_ignored (x : Eval α) : (do let _ ← get; x) = x := rfl

theorem map_apply (g : α → β) (x : Eval α) (m : Machine) :
    (g <$> x) m = ((x m).1.map g, (x m).2) := by
  rw [← bind_pure_comp, bind_eq_attempt, attempt_bind]
  cases (x m).1 <;> rfl

theorem exists_of_map {g : α → β} {y : Except Signal α × Machine} (run : y.1.map g = .ok b) :
    ∃ a m₁, y = (.ok a, m₁) ∧ g a = b := by
  obtain ⟨_ | a, m₁⟩ := y
  · cases run
  · exact ⟨a, m₁, rfl, Except.ok.inj run⟩

theorem map_within (g : α → β) (kind : FrameKind) (i : Nat) (body : Nat → Eval α) :
    g <$> within kind i body = within kind i fun j => g <$> body j := by
  funext m
  rw [map_apply, within_apply, within_apply, map_apply]

theorem map_deeper (g : α → β) (x : Eval α) : g <$> deeper x = deeper (g <$> x) := by
  funext m
  rw [map_apply, deeper_apply, deeper_apply, map_apply]

end Eval

namespace Evaluation

/-- The operands of an operator, of which the left one is computed already, and not unboxed. -/
def operands (run : Runner) (current left : Evaluated) (right : Expr) (frame : Nat) :
    Eval (Evaluated × Evaluated) := do
  let r ← forked run right frame current
  let l ← unbox run left frame
  let r ← unbox run r frame
  return (l, r)

/-- An operator on operands that are computed and unboxed. -/
def applied (run : Runner) (op : BinaryOp) (l r : Evaluated) (frame : Nat) : Eval Evaluated := do
  match ← delegate run op.symbol l (some r) frame with
  | some result => return result
  | none => return .plain (← Eval.ofExcept (Operation.binary op l.value r.value))

theorem binaryExpr_eq (run : Runner) (op : BinaryOp) (left right : Expr) (frame : Nat) :
    binaryExpr run op left right frame = (do
      let current ← Eval.ofChain fun c => c.current frame
      let l ← forked run left frame current
      let both ← operands run current l right frame
      applied run op both.1 both.2 frame) := by
  simp only [binaryExpr, operands, bind_assoc, pure_bind]
  rfl

variable {run : Runner} {op : BinaryOp} {l r : Evaluated} {frame : Nat}

/-- What is no function to be invoked on access is left as it is. -/
theorem unbox_of_not_onAccess {v : Evaluated} (concrete : v.value.onAccess = false) :
    unbox run v frame = pure v := by
  obtain ⟨value, overrides⟩ := v
  cases value with
  | lambda f => simp_all [unbox, Value.onAccess]
  | _ => rfl

/-- The left operand's override decides. -/
theorem applied_left {o : Override} (bound : l.overrides.find? op.symbol = some o) :
    applied run op l r frame = (do
      let given ← invoke run o.function [l.atRest, r.atRest] frame
      return ⟨given.value, if o.cascade then l.overrides else Overrides.none⟩) := by
  simp [applied, delegate, winner?, bound, Evaluated.atRest, Overrides.activated_of_find? bound]

/-- The built-in rules decide where no operand has an override. -/
theorem applied_neither (left : l.overrides.find? op.symbol = none)
    (right : r.overrides.find? op.symbol = none) :
    applied run op l r frame =
      (return .plain (← Eval.ofExcept (Operation.binary op l.value r.value))) := by
  simp [applied, delegate, winner?, left, right]

end Evaluation

/-- What is left of an object is an object. -/
theorem Value.retain_object (fields : List (String × Value)) (ways : List (List Step)) :
    ∃ kept, (object fields).retain ways = object kept := by
  unfold retain retainAlong populated
  split_ifs <;> exact ⟨_, rfl⟩

theorem Value.reclude_object (fields : List (String × Value)) (ways : List (List Step)) :
    ∃ rest, (object fields).reclude ways = object rest := by
  unfold reclude recludeAlong populated
  split_ifs <;> exact ⟨_, rfl⟩

namespace Operation
variable {op : BinaryOp} {a b v : Value} {l : Lambda}

/-- An operator gives a function only if it is one of the operands. -/
theorem eq_of_binary_lambda (computed : binary op a b = .ok (.lambda l)) :
    a = .lambda l ∨ b = .lambda l := by
  cases op <;> simp only [binary, numeric, logical, compare, equals] at computed
  case add =>
    unfold add at computed
    split at computed
    case h_1 => exact .inr (Except.ok.inj computed)
    case h_2 => exact .inl (Except.ok.inj computed)
    case h_8 | h_9 => split at computed <;> cases computed
    all_goals cases computed
  case divide =>
    unfold divide at computed
    split at computed
    case h_3 fields =>
      split at computed
      · rename_i list _
        obtain ⟨kept, same⟩ := Value.retain_object fields (ways list)
        rw [same] at computed
        cases computed
      · cases computed
    case h_1 | h_4 | h_5 => split at computed <;> cases computed
    all_goals cases computed
  case modulo =>
    unfold modulo at computed
    split at computed
    case h_3 fields =>
      split at computed
      · rename_i list _
        obtain ⟨rest, same⟩ := Value.reclude_object fields (ways list)
        rw [same] at computed
        cases computed
      · cases computed
    case h_1 | h_4 | h_5 => split at computed <;> cases computed
    all_goals cases computed
  all_goals
    split at computed
    all_goals cases computed

/-- From operands that are not to be invoked on access no operator makes a value that is. -/
theorem onAccess_binary (computed : binary op a b = .ok v) (left : a.onAccess = false)
    (right : b.onAccess = false) : v.onAccess = false := by
  cases v with
  | lambda l => rcases eq_of_binary_lambda computed with rfl | rfl <;> assumption
  | _ => rfl

end Operation

/-! ## One application -/

/-- An operator applied in a chain. -/
structure Application where
  /-- Where the right operand comes from. -/
  operand : Expr
  /-- The depth that is left, and the frame. -/
  depth : Nat
  frame : Nat
  /-- The operands once they are unboxed. -/
  left : Evaluated
  right : Evaluated
  /-- The machine when both operands are there. -/
  before : Machine
  after : Machine
  result : Evaluated

namespace Application
variable (op : BinaryOp) (app : Application)

/-- A computed value goes in on the left, once it is unboxed, and on the right what the operand
comes to. -/
structure Takes (previous : Evaluated) : Prop where
  operands : ∃ current m, Evaluation.operands (.ofDepth app.depth) current previous app.operand
    app.frame m = (.ok (app.left, app.right), app.before)
  applied : Evaluation.applied (.ofDepth app.depth) op app.left app.right app.frame app.before =
    (.ok app.result, app.after)

/-- A function decides: it is invoked on the operands, with their overrides put to rest, and its
value goes on with overrides. -/
def Invoked (f : Lambda) (carried : Overrides) : Prop :=
  ∃ given, Evaluation.invoke (.ofDepth app.depth) f [app.left.atRest, app.right.atRest] app.frame
    app.before = (.ok given, app.after) ∧ app.result = ⟨given.value, carried⟩

/-- The built-in rules decide, and no function runs. -/
def BuiltIn : Prop :=
  ∃ v, Operation.binary op app.left.value app.right.value = .ok v ∧ app.result = .plain v ∧
    app.after = app.before

variable {op app} {previous : Evaluated}

/-- What was unboxed is not unboxed again. -/
theorem Takes.left_eq (takes : app.Takes op previous)
    (concrete : previous.value.onAccess = false) : app.left = previous := by
  obtain ⟨current, m, run⟩ := takes.operands
  obtain ⟨r, m₁, -, run⟩ := Eval.bind_eq_ok.mp run
  rw [Evaluation.unbox_of_not_onAccess concrete, pure_bind] at run
  obtain ⟨r, m₂, -, same⟩ := Eval.bind_eq_ok.mp run
  cases same
  rfl

/-- An override of the left operand decides. -/
theorem Takes.invoked (takes : app.Takes op previous) {o : Override} {carried : Overrides}
    (bound : app.left.overrides.find? op.symbol = some o)
    (carries : (if o.cascade then app.left.overrides else Overrides.none) = carried)
    (concrete : app.Invoked o.function carried → app.result.value.onAccess = false) :
    app.Invoked o.function carried ∧ app.result.Bears carried := by
  have run := takes.applied
  rw [Evaluation.applied_left bound, carries] at run
  obtain ⟨given, m, invoked, same⟩ := Eval.bind_eq_ok.mp run
  obtain ⟨ends, after⟩ := Prod.mk.inj same
  have result : app.result = ⟨given.value, carried⟩ := (Except.ok.inj ends).symm
  have decides : app.Invoked o.function carried :=
    ⟨given, invoked.trans (Prod.ext rfl after), result⟩
  exact ⟨decides, concrete decides, congrArg Evaluated.overrides result⟩

/-- Built-in rules decide where neither operand has an override. -/
theorem Takes.builtIn (takes : app.Takes op previous) (bears : app.left.Bears Overrides.none)
    (right : app.right.overrides.find? op.symbol = none)
    (concrete : app.right.value.onAccess = false) :
    app.BuiltIn op ∧ app.result.Bears Overrides.none := by
  have left : app.left.overrides.find? op.symbol = none := by
    rw [bears.2]
    rfl
  have run := takes.applied
  rw [Evaluation.applied_neither left right] at run
  obtain ⟨v, m, computed, same⟩ := Eval.bind_eq_ok.mp run
  obtain ⟨ends, after⟩ := Prod.mk.inj same
  obtain ⟨decided, unchanged⟩ := Eval.ofExcept_eq_ok computed
  have result : app.result = .plain v := (Except.ok.inj ends).symm
  refine ⟨⟨v, decided, result, after.symm.trans unchanged⟩, ?_⟩
  rw [result]
  exact ⟨Operation.onAccess_binary decided bears.1 concrete, rfl⟩

end Application

/-! ## Chains -/

/-- Applications in a row, from a computed value to the result of the last. -/
inductive Applications (op : BinaryOp) : Evaluated → List Application → Evaluated → Prop
  | nil (v : Evaluated) : Applications op v [] v
  | cons {v last : Evaluated} {app : Application} {rest : List Application}
      (first : app.Takes op v) (further : Applications op app.result rest last) :
      Applications op v (app :: rest) last

namespace Applications
variable {op : BinaryOp} {v last : Evaluated} {apps : List Application} {app : Application}

theorem concat (run : Applications op v apps last) (takes : app.Takes op last) :
    Applications op v (apps ++ [app]) app.result := by
  induction run with
  | nil v => exact .cons takes (.nil _)
  | cons first _ ih => exact .cons first (ih takes)

/-- What holds of a value, if it is handed from each application to the next. -/
theorem all {P : Evaluated → Prop} {Q : Application → Prop} (run : Applications op v apps last)
    (start : P v)
    (step : ∀ app ∈ apps, ∀ previous, app.Takes op previous → P previous → Q app ∧ P app.result) :
    (∀ app ∈ apps, Q app) ∧ P last := by
  induction run with
  | nil v => exact ⟨nofun, start⟩
  | cons first _ ih =>
      obtain ⟨here, handed⟩ := step _ (List.mem_cons_self ..) _ first start
      obtain ⟨further, ends⟩ := ih handed fun app member => step app (List.mem_cons_of_mem _ member)
      exact ⟨List.forall_mem_cons.mpr ⟨here, further⟩, ends⟩

/-- Results that are not to be invoked on access are left operands as they are. -/
theorem isChain (run : Applications op v apps last)
    (concrete : ∀ app ∈ apps, app.result.value.onAccess = false) :
    apps.IsChain fun app next => next.left = app.result := by
  induction run with
  | nil => exact .nil
  | cons first further ih =>
      rw [List.forall_mem_cons] at concrete
      cases further with
      | nil => exact .singleton _
      | cons second _ => exact .cons_cons (second.left_eq concrete.1) (ih concrete.2)

/-- A cascading override decides as long as its results are not to be invoked on access. -/
theorem cascading {carried : Overrides} {o : Override} (run : Applications op v apps last)
    (bears : v.Bears carried) (bound : carried.find? op.symbol = some o)
    (cascades : o.cascade = true)
    (concrete : ∀ app ∈ apps, app.Invoked o.function carried → app.result.value.onAccess = false) :
    (∀ app ∈ apps, app.Invoked o.function carried ∧ app.result.Bears carried) ∧
      last.Bears carried := by
  refine run.all (P := (·.Bears carried)) bears fun app member previous takes bears => ?_
  have left : app.left.overrides = carried := (congrArg _ (takes.left_eq bears.1)).trans bears.2
  have decided := takes.invoked (left ▸ bound) ((if_pos cascades).trans left) (concrete app member)
  exact ⟨decided, decided.2⟩

/-- Without overrides, built-in rules decide. -/
theorem builtIn (run : Applications op v apps last) (bears : v.Bears Overrides.none)
    (plain : ∀ app ∈ apps, app.right.overrides.find? op.symbol = none ∧
      app.right.value.onAccess = false) :
    (∀ app ∈ apps, app.BuiltIn op ∧ app.result.Bears Overrides.none) ∧
      last.Bears Overrides.none := by
  refine run.all (P := (·.Bears Overrides.none)) bears fun app member previous takes bears => ?_
  obtain ⟨right, concrete⟩ := plain app member
  have decided := takes.builtIn (takes.left_eq bears.1 ▸ bears) right concrete
  exact ⟨decided, decided.2⟩

end Applications

/-- A chain of one operator from left to right, the operands in reverse, with a record of each
application. -/
def traced (op : BinaryOp) (a : Expr) : Nat → List Expr → Nat → Eval (List Application × Evaluated)
  | left, [], i => do return ([], ← eval left a i)
  | 0, _ :: _, _ => do Eval.fail (depthExceeded (← get).settings.maxDepth)
  | left + 1, x :: earlier, i => Eval.deeper do
    let current ← Eval.ofChain fun c => c.current i
    let sofar ← Eval.within .scope i fun j => do
      Eval.onChain fun c => c.setCurrent j current
      traced op a left earlier j
    let both ← Evaluation.operands (.ofDepth left) current sofar.2 x i
    let before ← get
    let result ← Evaluation.applied (.ofDepth left) op both.1 both.2 i
    let after ← get
    return (sofar.1 ++ [⟨x, left, i, both.1, both.2, before, after, result⟩], result)

section Chains
variable {op : BinaryOp} {a : Expr} {left i : Nat} {m m' : Machine} {v : Evaluated}

theorem eval_foldr_binary (op : BinaryOp) (a : Expr) (left : Nat) (earlier : List Expr) (i : Nat) :
    eval left (earlier.foldr (fun x e => .binary op e x) a) i =
      Prod.snd <$> traced op a left earlier i := by
  induction earlier generalizing left i with
  | nil => simp [traced]
  | cons x earlier ih =>
      cases left with
      | zero => rfl
      | succ left =>
          change Eval.deeper (Evaluation.binaryExpr (.ofDepth left) op _ x i) = _
          rw [Evaluation.binaryExpr_eq, traced, Eval.map_deeper]
          have inner : ∀ current, Evaluation.forked (.ofDepth left)
              (earlier.foldr (fun x e => .binary op e x) a) i current =
                Prod.snd <$> (Eval.within .scope i fun j => do
                  Eval.onChain fun c => c.setCurrent j current
                  traced op a left earlier j) := by
            intro current
            rw [Eval.map_within]
            simp only [map_bind, ← ih]
            rfl
          simp only [inner, map_bind, bind_map_left, map_pure, Eval.get_ignored, bind_pure]

/-- A chain nests to the left, and its record leaves it as it is. -/
theorem eval_foldl_binary (op : BinaryOp) (a : Expr) (left : Nat) (xs : List Expr) (i : Nat) :
    eval left (xs.foldl (.binary op) a) i = Prod.snd <$> traced op a left xs.reverse i := by
  rw [← eval_foldr_binary, List.foldr_reverse]

theorem applications_of_traced {earlier : List Expr} {apps : List Application}
    (ran : traced op a left earlier i m = (.ok (apps, v), m')) :
    apps.map Application.operand = earlier.reverse ∧
      ∃ depth frame m₀ m₁ first, eval depth a frame m₀ = (.ok first, m₁) ∧
        Applications op first apps v := by
  induction earlier generalizing left i m m' apps v with
  | nil =>
      rw [traced] at ran
      obtain ⟨first, m₁, run, same⟩ := Eval.bind_eq_ok.mp ran
      cases same
      exact ⟨rfl, left, i, m, m', v, run, .nil v⟩
  | cons x earlier ih =>
      cases left with
      | zero => cases ran
      | succ left =>
          rw [traced] at ran
          obtain ⟨m₁, ran⟩ := Eval.deeper_eq_ok ran
          obtain ⟨current, m₂, -, ran⟩ := Eval.bind_eq_ok.mp ran
          obtain ⟨sofar, m₃, framed, ran⟩ := Eval.bind_eq_ok.mp ran
          obtain ⟨both, m₄, taken, ran⟩ := Eval.bind_eq_ok.mp ran
          obtain ⟨before, m₅, here, ran⟩ := Eval.bind_eq_ok.mp ran
          obtain ⟨result, m₆, applied, ran⟩ := Eval.bind_eq_ok.mp ran
          obtain ⟨after, m₇, there, ran⟩ := Eval.bind_eq_ok.mp ran
          cases here
          cases there
          cases ran
          obtain ⟨m₈, framed⟩ := Eval.within_eq_ok framed
          obtain ⟨_, m₉, -, inside⟩ := Eval.bind_eq_ok.mp framed
          obtain ⟨operands, depth, frame, m₁₀, m₁₁, first, run, apps⟩ := ih inside
          refine ⟨?_, depth, frame, m₁₀, m₁₁, first, run,
            apps.concat ⟨⟨current, m₃, taken⟩, applied⟩⟩
          rw [List.map_append, operands, List.reverse_cons, List.map_singleton]

/-- **What an override does along a chain.** A chain of one operator that succeeds has a record of
its applications, one for each operand after the first, in their order. Each has the unboxed result
of the one before on its left and its unboxed operand on its right. Suppose that the first left
operand has an override for the operator, and that its function gives nothing that is to be invoked
on access.

If the override cascades, the function is invoked in each application, on the operands at rest, and
each result goes on as it is with the overrides of the first operand; they still apply at the end.
If it does not, the function is invoked in the first application. Built-in rules decide all others,
as long as the operands on their right have no override for the operator and are not to be invoked
on access, once they are unboxed. -/
theorem eval_chain_overridden {xs : List Expr} {first : Application} {rest : List Application}
    {o : Override} (ran : traced op a left xs.reverse i m = (.ok (first :: rest, v), m'))
    (bound : first.left.overrides.find? op.symbol = some o)
    (concrete : ∀ app ∈ first :: rest, ∀ carried, app.Invoked o.function carried →
      app.result.value.onAccess = false) :
    eval left (xs.foldl (.binary op) a) i m = (.ok v, m') ∧
      (first :: rest).map Application.operand = xs ∧
      (∃ depth frame m₀ m₁ start, eval depth a frame m₀ = (.ok start, m₁) ∧
        Applications op start (first :: rest) v) ∧
      (o.cascade = true →
        (∀ app ∈ first :: rest, app.Invoked o.function first.left.overrides) ∧
          (first :: rest).IsChain (fun app next => next.left = app.result) ∧
          v.overrides = first.left.overrides ∧ v.overrides.active = true) ∧
      (o.cascade = false →
        (∀ app ∈ rest, app.right.overrides.find? op.symbol = none ∧
          app.right.value.onAccess = false) →
        first.Invoked o.function Overrides.none ∧ (∀ app ∈ rest, app.BuiltIn op) ∧
          (first :: rest).IsChain (fun app next => next.left = app.result)) := by
  obtain ⟨operands, depth, frame, m₀, m₁, start, run, apps⟩ := applications_of_traced ran
  refine ⟨?_, operands.trans xs.reverse_reverse, ⟨depth, frame, m₀, m₁, start, run, apps⟩, ?_, ?_⟩
  · rw [eval_foldl_binary, Eval.map_apply, ran]
    rfl
  · intro cascades
    cases apps with
    | cons takes further =>
        have head := takes.invoked bound (if_pos cascades)
          (concrete first (List.mem_cons_self ..) _)
        obtain ⟨tail, ends⟩ := further.cascading head.2 bound cascades
          fun app member => concrete app (List.mem_cons_of_mem _ member) _
        have bears : ∀ app ∈ first :: rest, app.result.Bears first.left.overrides :=
          List.forall_mem_cons.mpr ⟨head.2, fun app member => (tail app member).2⟩
        exact ⟨List.forall_mem_cons.mpr ⟨head.1, fun app member => (tail app member).1⟩,
          (Applications.cons takes further).isChain fun app member => (bears app member).1,
          ends.2, ends.2 ▸ Overrides.active_of_find? bound⟩
  · intro stays plain
    cases apps with
    | cons takes further =>
        have head := takes.invoked bound (if_neg (by simp [stays]))
          (concrete first (List.mem_cons_self ..) _)
        obtain ⟨tail, -⟩ := further.builtIn head.2 plain
        have bears : ∀ app ∈ first :: rest, app.result.Bears Overrides.none :=
          List.forall_mem_cons.mpr ⟨head.2, fun app member => (tail app member).2⟩
        exact ⟨head.1, fun app member => (tail app member).1,
          (Applications.cons takes further).isChain fun app member => (bears app member).1⟩

/-- A function of two operands. -/
def Lambda.ofOperands (body : Expr) : Lambda :=
  ⟨0, ⟨[⟨"left", none⟩, ⟨"right", none⟩], body, false, none⟩, []⟩

/-- A machine on which names stand for texts with an override for addition. -/
def Machine.overriding (named : List (String × Override)) : Machine :=
  named.foldl (fun m (name, o) =>
      m.onChain fun c => c.setValue 0 name ⟨.text name, .ofEntries [("+", o)]⟩)
    { chain := ({} : Chain).push .query none }

/-- A cascading override that puts the right operand first, along a chain. -/
theorem chain_overridden_flipped :
    let flip := Lambda.ofOperands (.binary .add (.named "right") (.named "left"))
    let m := Machine.overriding [("a", ⟨flip, true⟩)]
    let xs : List Expr := [.text "b", .text "c"]
    ∃ first second v m',
      traced .add (.named "a") 6 xs.reverse 0 m = (.ok ([first, second], v), m') ∧
      first.left.overrides.find? "+" = some ⟨flip, true⟩ ∧
      (∀ app ∈ [first, second], app.Invoked flip first.left.overrides) ∧
      eval 6 (.binary .add (.binary .add (.named "a") (.text "b")) (.text "c")) 0 m = (.ok v, m') ∧
      v.value = .text "cba" ∧ v.overrides.active = true := by
  intro flip m xs
  have run : (traced .add (.named "a") 6 xs.reverse 0 m).1.map
      (fun r => (r.1.map fun app => (app.left, app.result.value), r.2.value)) =
        .ok ([(⟨.text "a", .ofEntries [("+", ⟨flip, true⟩)]⟩, .text "ba"),
          (⟨.text "ba", .ofEntries [("+", ⟨flip, true⟩)]⟩, .text "cba")], .text "cba") := by
    cbv
  obtain ⟨⟨apps, v⟩, m', ran, seen⟩ := Eval.exists_of_map run
  obtain ⟨shape, ends⟩ := Prod.mk.inj seen
  obtain ⟨first, _, rfl, head, tail⟩ := List.map_eq_cons_iff.mp shape
  obtain ⟨second, _, rfl, next, last⟩ := List.map_eq_cons_iff.mp tail
  obtain rfl := List.map_eq_nil_iff.mp last
  obtain ⟨left, given⟩ := Prod.mk.inj head
  have bound : first.left.overrides.find? "+" = some ⟨flip, true⟩ := by
    rw [left]
    cbv
  have concrete : ∀ app ∈ [first, second], ∀ carried, app.Invoked flip carried →
      app.result.value.onAccess = false := by
    rintro app member - -
    rcases List.mem_pair.mp member with rfl | rfl
    · rw [given]
      rfl
    · rw [(Prod.mk.inj next).2]
      rfl
  obtain ⟨whole, -, -, cascading, -⟩ := eval_chain_overridden ran bound concrete
  obtain ⟨invoked, -, -, active⟩ := cascading rfl
  exact ⟨first, second, v, m', ran, bound, invoked, whole, ends, active⟩

/-- An operand that is to be invoked on access twice is still to be invoked once it was unboxed, and
so is the result of adding it to the empty value. The third application unboxes that anew and finds
an override that no operand had before: built-in addition would have given another text. -/
theorem chain_overridden_midway :
    let drop := Lambda.ofOperands .empty
    let late := Lambda.ofOperands (.text "late")
    let m := { Machine.overriding [("a", ⟨drop, false⟩), ("b", ⟨late, false⟩)] with
      streams := [(0, [.text "x"])] }.onChain fun c => c.setCurrent 0 (.plain (.stream 0))
    let whileLeft (yes no : Expr) : Expr :=
      .conditional (.call "stream" "collect" [.current]) yes (some no)
    let twice (e : Expr) : Expr := .function ⟨[], .function ⟨[], e, true, none⟩, true, none⟩
    let xs : List Expr :=
      [.text "c", twice (whileLeft (.text "b") (.named "b")), whileLeft (.text "c") (.text "c")]
    ∃ first second third v m',
      traced .add (.named "a") 9 xs.reverse 0 m = (.ok ([first, second, third], v), m') ∧
      first.left.overrides.find? "+" = some ⟨drop, false⟩ ∧ first.result = .plain .empty ∧
      (∀ app ∈ [second, third], app.right.overrides.find? "+" = none) ∧
      Operation.binary .add third.left.value third.right.value = .ok (.text "bc") ∧
      third.result.value = .text "late" ∧ ¬ third.BuiltIn .add := by
  intro drop late m whileLeft twice xs
  have run : (traced .add (.named "a") 9 xs.reverse 0 m).1.map
      (fun r => (r.1.map fun app =>
          (app.left.overrides.find? "+", app.right.overrides.find? "+"),
        r.1.head?.map Application.result,
        r.1.getLast?.map fun app => (app.left.value, app.right.value, app.result.value))) =
      .ok ([(some ⟨drop, false⟩, none), (none, none), (some ⟨late, false⟩, none)],
        some (.plain .empty), some (.text "b", .text "c", .text "late")) := by
    cbv
  obtain ⟨⟨apps, v⟩, m', ran, seen⟩ := Eval.exists_of_map run
  obtain ⟨overrides, seen⟩ := Prod.mk.inj seen
  obtain ⟨dropped, ends⟩ := Prod.mk.inj seen
  obtain ⟨first, _, rfl, head, tail⟩ := List.map_eq_cons_iff.mp overrides
  obtain ⟨second, _, rfl, next, tail⟩ := List.map_eq_cons_iff.mp tail
  obtain ⟨third, _, rfl, last, tail⟩ := List.map_eq_cons_iff.mp tail
  obtain rfl := List.map_eq_nil_iff.mp tail
  have values : (third.left.value, third.right.value, third.result.value) =
      (.text "b", .text "c", .text "late") := Option.some.inj ends
  obtain ⟨left, rest⟩ := Prod.mk.inj values
  obtain ⟨right, result⟩ := Prod.mk.inj rest
  have computed : Operation.binary .add third.left.value third.right.value = .ok (.text "bc") := by
    rw [left, right]
    rfl
  refine ⟨first, second, third, v, m', ran, (Prod.mk.inj head).1, Option.some.inj dropped, ?_,
    computed, result, ?_⟩
  · rintro app member
    rcases List.mem_pair.mp member with rfl | rfl
    · exact (Prod.mk.inj next).2
    · exact (Prod.mk.inj last).2
  · rintro ⟨value, builtIn, given, -⟩
    rw [computed, Except.ok.injEq] at builtIn
    rw [given, ← builtIn] at result
    exact absurd (Value.text.inj result) (by decide)

end Chains

end TreeQuery
