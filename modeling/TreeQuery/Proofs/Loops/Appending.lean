import Mathlib
import TreeQuery.Proofs.Loops.Rounds
import TreeQuery.Proofs.Memos.Marked

/-!
# Maps as aggregates

A map does what the aggregate does that starts with an empty array and appends what the body comes
to, as long as there is depth left (`Machine.evaluate_map_collected`). The aggregate evaluates the
body one level deeper, so the two run out of depth at different places. Where the aggregate does not
run out of it, one more level makes no difference to its rounds: evaluation that counts past all
identities when it is out of depth (`Runner.counting`) comes to the same.
-/

set_option autoImplicit false

namespace TreeQuery

/-- The aggregate that collects in an array what a body comes to. -/
def Expr.collected (source body : Expr) : Expr :=
  .aggregate source (.array []) body.appending

/-! ## Depth that is not needed -/

/-- Fails, and uses up more identities than there are up to `last`. -/
def Runner.counting (last : Nat) (_ : Expr) (_ : Nat) : Eval Evaluated := fun m =>
  (.error (.fault (depthExceeded m.settings.maxDepth)), { m with nextId := m.nextId + last + 1 })

/-- A run of a program without functions and itself, as long as no identities are given out beyond
`last`. -/
def Comparison.bounded (settings : Settings) (last : Nat) : Comparison (.functionless none) :=
  { Comparison.functionless settings with
    fits := fun n => n ≤ last
    fits_of_le := fun _ _ => Nat.le_trans
    numbered := fun _ _ => rfl }

variable {s : Settings} {last left left' i : Nat} {source body : Expr} {m : Machine}

theorem Comparison.bounded_verbatim (s : Settings) (last : Nat) :
    (Comparison.bounded s last).Verbatim :=
  ⟨rfl, Setting.image_identity rfl rfl, rfl⟩

theorem Confined.bounded (confined : Confined (.functionless s) m) (last : Nat) :
    Confined (.bounded s last) m :=
  { confined with }

/-- Evaluation with more depth goes like evaluation that does not run out of it. -/
theorem TiedRunner.counting (more : left ≤ left') :
    TiedRunner (.bounded s last) (.backed (Runner.counting last) left) (.ofDepth left') := by
  refine ⟨?_, fun _ _ _ => rfl, fun _ _ _ => rfl⟩
  induction left generalizing left' with
  | zero =>
      intro e allowed i m confined
      have signal : (Setting.functionless none).signal (.fault (depthExceeded m.settings.maxDepth))
          (.fault (depthExceeded m.settings.maxDepth)) := .const fun _ => rfl
      refine .of_runs rfl { confined with grown := { confined.grown with } } ?_ ⟨_, signal⟩
        fun m' tie fits => ?_
      · change m.nextId ≤ m.nextId + last + 1
        omega
      · change m.nextId + last + 1 ≤ last at fits
        omega
  | succ left ih =>
      intro e allowed i m confined
      obtain ⟨left', rfl⟩ : ∃ k, left' = k + 1 := ⟨left' - 1, by omega⟩
      have runner : TiedRunner (.bounded s last) (.backed (Runner.counting last) left)
          (.ofDepth left') := ⟨ih (by omega), fun _ _ _ => rfl, fun _ _ _ => rfl⟩
      have alike : Alike (.functionless none) .shared i i _ (fun r => Evaluation.node r e i)
          (fun r => Evaluation.node r (e.trim true) i) := .node allowed
      rw [Expr.trim_true] at alike
      exact .of_tied rfl (fun _ _ => rfl) ((alike.tied runner rfl).deeper m confined)

/-! ## The loops -/

/-- The loop of the aggregate, with one more level of depth for its rounds than for its source. Its
rounds evaluate the body with the depth that those of the map have. -/
def Evaluation.collecting (left : Nat) (source body : Expr) (i : Nat) : Eval Evaluated := do
  let p ← loopItems (.ofDepth (left + 1)) source i
  foldRounds (fun acc => round (.ofDepth (left + 2)) body.appending i p.1 (some acc))
    (.plain (.array [])) 0 p.2

theorem Evaluation.mapExpr_eq_collecting (staged : Staged s none none .shared i m)
    (first : (Setting.functionless none).Allows source)
    (allowed : (Setting.functionless (some Chain.accumulatorName)).Allows body) :
    mapExpr (.ofDepth (left + 1)) source body i m = collecting left source body i m := by
  have alike : Alike (.functionless none) .shared i i _ (fun r => loopItems r source i) _ :=
    .loopItems first
  have passes := alike.passes (.ofDepth s none (left + 1)) (fun partly => absurd rfl partly) m
    staged
  have onwards : Staged s none none .shared i (loopItems (.ofDepth (left + 1)) source i m).2 :=
    passes.next staged
  have ends : (Setting.functionless none).Ends _ (loopItems (.ofDepth (left + 1)) source i m).1 :=
    passes.ends
  rcases run : loopItems (.ofDepth (left + 1)) source i m with ⟨o, n⟩
  rw [run] at onwards ends
  cases o with
  | error e => exact (Eval.bind_error run).trans (Eval.bind_error run).symm
  | ok p =>
      obtain ⟨p', related⟩ := ends
      have fixed := congrArg Prod.fst (related.inert rfl)
      have free := congrArg Prod.snd (related.inert rfl)
      have mapped : mapExpr (.ofDepth (left + 1)) source body i m =
          (mapRounds (round (.ofDepth (left + 1)) body i p.1 none) 0 p.2 >>= fun vs =>
            pure (.plain (.array vs))) n := Eval.bind_ok run
      have folded : collecting left source body i m =
          foldRounds (fun acc => round (.ofDepth (left + 2)) body.appending i p.1 (some acc))
            (.plain (.array [])) 0 p.2 n := Eval.bind_ok run
      rcases rounds : mapRounds (round (.ofDepth (left + 1)) body i p.1 none) 0 p.2 n with
        ⟨o, after⟩
      rw [mapped, folded, foldRounds_appending fixed allowed 0 p.2 free rfl onwards rounds]
      cases o with
      | error e => exact Eval.bind_error rounds
      | ok vs => exact Eval.bind_ok rounds

theorem Setting.Allows.appending (allowed : (Setting.functionless none).Allows body) :
    (Setting.functionless none).Allows body.appending := by
  intro plain
  have sum : Expr.FunctionFree body.appending := trivial
  have acc : Expr.FunctionFree (.named Chain.accumulatorName) := trivial
  refine .intro sum.functionless fun part member => ?_
  simp only [Expr.appending, Expr.parts, List.mem_cons, List.not_mem_nil, or_false] at member
  rcases member with rfl | rfl
  · exact .leaf acc.functionless rfl
  · exact allowed plain

theorem Tied.collecting (first : (Setting.functionless none).Allows source)
    (allowed : (Setting.functionless none).Allows body) (r' : Runner) :
    Tied (.bounded s last) (.backed (Runner.counting last) (left + 1)) r'
      (Setting.functionless none).result
      (fun r => Evaluation.aggregateExpr r source (.array []) body.appending i)
      (fun _ => Evaluation.collecting left source body i) := by
  intro m confined
  have items : Alike (.functionless none) .shared i i _ (fun r => Evaluation.loopItems r source i)
      (fun r => Evaluation.loopItems r (source.trim true) i) := .loopItems first
  rw [Expr.trim_true] at items
  have before : TiedAt (.bounded s last) (.backed (Runner.counting last) (left + 1)) r' _
      (fun r => Evaluation.loopItems r source i)
      (fun _ => Evaluation.loopItems (.ofDepth (left + 1)) source i) m :=
    .of_tied rfl (fun _ _ => rfl) (items.tied (.counting (Nat.le_refl _)) rfl m confined)
  refine before.bind fun p p' pairs n confined => ?_
  have sources : (Setting.functionless none).value p.1 p'.1 := pairs.map Prod.fst fun _ _ => rfl
  have values : (Setting.functionless none).values p.2 p'.2 := pairs.map Prod.snd fun _ _ => rfl
  have rounds : Alike (.functionless none) .shared i i _
      (fun r => Evaluation.foldRounds
        (fun acc => Evaluation.round r body.appending i p.1 (some acc)) (.plain (.array [])) 0 p.2)
      (fun r => Evaluation.foldRounds
        (fun acc => Evaluation.round r (body.appending.trim true) i p'.1 (some acc))
        (.plain (.array [])) 0 p'.2) :=
    .foldRounds (fun acc acc' index v v' accs same =>
      .round allowed.appending sources (accs.map some fun _ _ => rfl) index same)
      (.const fun _ => rfl) 0 p.2 values
  rw [Expr.trim_true] at rounds
  have start : (Runner.backed (Runner.counting last) (left + 1)) (.array []) i n =
      (.ok (.plain (.array [])), n) := rfl
  exact .of_tied (Eval.bind_ok start) (fun _ _ => rfl)
    (rounds.tied (.counting (Nat.le_succ _)) rfl n confined)

/-- **A map comes to what the aggregate comes to that appends,** and does the same to the machine,
if the aggregate does not run out of depth. -/
theorem eval_collected (staged : Staged s none none .shared i m)
    (first : (Setting.functionless none).Allows source)
    (allowed : (Setting.functionless (some Chain.accumulatorName)).Allows body)
    (deep : Throughout .deepEnough left fun run => run (.collected source body) i m) :
    eval left (.collected source body) i m = eval left (.map source body) i m := by
  obtain _ | _ | left := left
  · rfl
  · rfl
  · let last := (eval (left + 2) (.collected source body) i m).2.nextId
    let inside : Machine := { m with depth := m.depth + 1 }
    have counted : (Runner.backed (Runner.counting last) (left + 2)).eval (.collected source body)
        i m = eval (left + 2) (.collected source body) i m :=
      throughout_deepEnough.mp deep (Runner.counting last)
    have confined : Confined (.bounded s last) inside :=
      (staged.confined.bounded last).atDepth (m.depth + 1)
    have loops : Evaluation.collecting left source body i inside =
        Evaluation.aggregateExpr (.backed (Runner.counting last) (left + 1)) source (.array [])
          body.appending i inside := by
      have tied : TiedAt (.bounded s last) _ (.ofDepth 0) _ _
          (fun _ => Evaluation.collecting left source body i) inside :=
        Tied.collecting first allowed.revealed (.ofDepth 0) inside confined
      exact tied.run_eq (Comparison.bounded_verbatim s last) rfl confined
        (Nat.le_of_eq (congrArg (fun x => x.2.nextId) counted)) fun ⟨_, _, fatal⟩ => fatal
    have rounds : Evaluation.mapExpr (.ofDepth (left + 1)) source body i inside =
        Evaluation.collecting left source body i inside :=
      Evaluation.mapExpr_eq_collecting (staged.atDepth (m.depth + 1)) first allowed
    calc eval (left + 2) (.collected source body) i m
        = (Runner.backed (Runner.counting last) (left + 2)).eval (.collected source body) i m :=
          counted.symm
      _ = Eval.deeper (Evaluation.aggregateExpr (.backed (Runner.counting last) (left + 1)) source
            (.array []) body.appending i) m := rfl
      _ = Eval.deeper (Evaluation.collecting left source body i) m := by
          simp only [Eval.deeper, inside, loops]
      _ = Eval.deeper (Evaluation.mapExpr (.ofDepth (left + 1)) source body i) m := by
          simp only [Eval.deeper, inside, rounds]
      _ = eval (left + 2) (.map source body) i m := rfl

/-! ## Programs -/

/-- At every evaluation that is started, a map without functions, whose body does not refer to the
result so far, does what the aggregate does that appends, if that does not run out of depth. -/
def Watch.appending : Watch where
  starts left _ i n := ∀ source body,
    Expr.All Expr.FunctionFree source → Expr.All Expr.FunctionFree body →
    Expr.All (· ≠ .named Chain.accumulatorName) body →
      (Throughout .deepEnough left fun run => run (.collected source body) i n) →
        TreeQuery.eval left (.map source body) i n =
          TreeQuery.eval left (.collected source body) i n
  opens _ _ _ := True

theorem Staged.appending (staged : Staged s none none .shared i m) (left : Nat) (e : Expr) :
    Watch.appending.starts left e i m := by
  intro source body first free apart deep
  have allowed : (Setting.functionless (some Chain.accumulatorName)).Allows body := by
    intro _
    refine (free.and apart).imp fun e both => ⟨both.1, fun name same => ?_⟩
    cases same
    exact both.2
  exact (eval_collected staged first.functionless allowed deep).symm

theorem Staged.enter {input : Value} (confined : Confined (.functionless s) m) (idle : m.Idle)
    (plain : input.FunctionFree) :
    Staged s none none .shared m.chain.size (m.enter input) := by
  refine ⟨confined.enter plain.unchanged, ⟨m.enter_nested (.of_size idle.size) input, ?_, nofun⟩,
    nofun, fun other => absurd rfl other, nofun, nofun⟩
  rw [m.enter_size]
  exact Nat.lt_succ_self _

end TreeQuery
