import TreeQuery.Proofs.Cursor.InStep

/-!
# Loops and chains in step

The constructs that move the cursor or the current value, and those that go back to a frame further
out. A let-binding is computed in a frame nested in the one that declares it, and sees what is seen
from there. A round over an array has the cursor at its element (`InStep.round`). A step of a chain
moves cursor and current value of the innermost frame together (`Poised.step`), and in between
nothing is evaluated there. So no expression is in the way of `Coincide` (`Coincide.node`).
-/

set_option autoImplicit false

namespace TreeQuery

variable {s : Settings} {w : Runner} {left : Nat} {i : Nat} {v : Evaluated} {m n : Machine}

/-! ## Let-bindings -/

namespace Coincide

variable (runner : RunnerInStep s w left)

include runner

theorem compute {b : Binding} (allowed : Setting.straight.AllowsBinding b) :
    Coincide s w left i v fun r => Evaluation.compute r i b := by
  simp only [Evaluation.compute, allowed.handler rfl]
  exact .within runner fun j => runner.eval b.expr (allowed.part (by simp [Binding.parts])) j v

theorem letConfig {b : Binding} (allowed : Setting.straight.AllowsBinding b) :
    Coincide s w left i v fun r => Evaluation.letConfig r b i := by
  intro m poised
  change Evaluation.letConfig w b i m = Evaluation.letConfig (.ofDepth left) b i m
  cases known : Assoc.get? m.configs b.id with
  | some config => rw [Evaluation.letConfig_known known, Evaluation.letConfig_known known]
  | none =>
      cases given : b.config with
      | none =>
          rw [Evaluation.letConfig_default known given, Evaluation.letConfig_default known given]
      | some e =>
          have part : Setting.straight.Allows e := allowed.part (by simp [Binding.parts, given])
          rw [Evaluation.letConfig_computed known given, Evaluation.letConfig_computed known given]
          exact (runner.eval e part i v).tail (Evaluation.settle b) m poised

theorem memoized {b : Binding} (allowed : Setting.straight.AllowsBinding b)
    (config : BindingConfig) :
    Coincide s w left i v fun r => Evaluation.memoized r i b config := by
  intro m poised
  change Evaluation.memoized w i b config m = Evaluation.memoized (.ofDepth left) i b config m
  cases found : Evaluation.memo? config.reset i b m with
  | some u => rw [Evaluation.memoized_found found, Evaluation.memoized_found found]
  | none =>
      rw [Evaluation.memoized_missing found, Evaluation.memoized_missing found]
      exact (compute runner allowed).tail (Evaluation.memoized.remember i b config) m poised

end Coincide

namespace InStep

theorem letConfig (runner : RunnerInStep s w left) {b : Binding}
    (allowed : Setting.straight.AllowsBinding b) :
    InStep s w left i v (Comparison.straight s).Config fun r => Evaluation.letConfig r b i :=
  (Coincide.letConfig runner allowed).inStep (.letConfig (.straight s left) allowed)
    (.letConfig (.whole left) nofun)

end InStep

theorem Coincide.force (runner : RunnerInStep s w left) {b : Binding}
    (allowed : Setting.straight.AllowsBinding b) :
    Coincide s w left i v fun r => Evaluation.force r i b := by
  simp only [Evaluation.force_eq]
  exact (InStep.letConfig runner allowed).bind fun config _ _ => .memoized runner allowed config

theorem InStep.prefetch (runner : RunnerInStep s w left) {b : Binding}
    (allowed : Setting.straight.AllowsBinding b) :
    InStep s w left i v Eq fun r => Evaluation.prefetch r i b := by
  have coincide : Coincide s w left i v fun r => Evaluation.prefetch r i b := by
    refine (InStep.letConfig runner allowed).bind fun config _ _ => ?_
    split
    · exact (Coincide.force runner allowed).tail fun _ => pure ()
    · exact fun _ _ => rfl
  have alike : Alike .straight .shared i i Setting.straight.result
      (fun r => Evaluation.compute r i b) _ := .compute allowed
  have whole : Alike .whole .shared i i Setting.whole.result
      (fun r => Evaluation.compute r i b) _ := .compute nofun
  rw [b.trim_true] at alike
  exact coincide.inStep (.prefetch (.straight s left) allowed (alike.tied (.straight s left) rfl))
    (.prefetch (.whole left) nofun (whole.sound rfl (.whole left)))

namespace Coincide

variable (runner : RunnerInStep s w left)

include runner

/-- Bindings that do not wait for their first use are computed before anything else. -/
theorem forceEager {x : Runner → Eval Evaluated} (next : Coincide s w left i v x)
    (bindings : List Binding) (allowed : ∀ b ∈ bindings, Setting.straight.AllowsBinding b) :
    Coincide s w left i v fun r => Evaluation.forceEager r i bindings >>= fun _ => x r := by
  induction bindings with
  | nil => exact next
  | cons b rest ih =>
      simp only [Evaluation.forceEager, bind_assoc]
      refine (InStep.prefetch runner (allowed b (List.mem_cons_self ..))).bind fun _ _ _ => ?_
      exact ih fun b member => allowed b (List.mem_cons_of_mem _ member)

/-- A new frame that declares let-bindings. -/
theorem letting {kind : FrameKind} {bindings : List Binding}
    (lets : Setting.straight.AllowsLet bindings) {α : Type} {x : Nat → Runner → Eval α}
    (body : ∀ j, Coincide s w left j v (x j)) :
    Coincide s w left i v fun r => r.within kind i fun j =>
      Evaluation.declareAll j bindings >>= fun _ => x j r := by
  intro m poised
  have inside := body m.chain.size _
    ((Topped.letFrame poised.confined kind i lets).silent poised rfl rfl)
  change w.within kind i (fun j => Evaluation.declareAll j bindings >>= fun _ => x j w) m =
    Eval.within kind i (fun j => Evaluation.declareAll j bindings >>= fun _ =>
      x j (.ofDepth left)) m
  rw [runner.within, Eval.letFrame_apply, Eval.letFrame_apply, inside]

theorem letScope (kind : FrameKind) {bindings : List Binding} {body : Expr}
    (lets : Setting.straight.AllowsLet bindings) (inside : Setting.straight.Allows body) :
    Coincide s w left i v fun r => Evaluation.letScope r kind bindings body none i := by
  simp only [Evaluation.letScope_eq]
  refine letting runner lets fun j => ?_
  have entered : Coincide s w left j v fun r =>
      Evaluation.forceEager r j bindings >>= fun _ => r body j :=
    forceEager runner (runner.eval body inside j v) bindings fun b member => lets.each member
  exact entered.attempt.tail _

theorem nameRef (name : String) :
    Coincide s w left i v fun r => Evaluation.nameRef r name i := by
  intro m poised
  simp only [Evaluation.nameRef_apply]
  cases found : m.chain.resolve? i name with
  | none => rfl
  | some resolved =>
      cases resolved with
      | value u => rfl
      | binding owner b =>
          obtain ⟨live, f, slot, frame, declared, rfl⟩ :=
            Chain.slot_of_resolve? poised.nested found
          have allowed := poised.confined.declares owner f name slot frame declared
          exact force runner allowed m (poised.elsewhere live)

end Coincide

/-! ## Loops -/

/-- What is left to go through, from an index on, if the source is an array. -/
def Value.LeftFrom (source : Value) (index : Nat) (rest : List Value) : Prop :=
  ∀ all, source = .array all → all.drop index = rest

theorem Value.LeftFrom.next {source item : Value} {index : Nat} {rest : List Value}
    (left : source.LeftFrom index (item :: rest)) :
    (∀ all, source = .array all → all[index]? = some item) ∧ source.LeftFrom (index + 1) rest := by
  refine ⟨fun all array => ?_, fun all array => ?_⟩
  · rw [← List.head?_drop, left all array]
    rfl
  · rw [← List.drop_drop, left all array]
    rfl

theorem InStep.drain {id : Nat} {u : Value} (source : Setting.straight.value (.stream id) u) :
    InStep s w left i v Setting.straight.values fun _ => Eval.drain id := by
  have related : Setting.straight.value (.stream id) (.stream id) := ⟨rfl, source.inert⟩
  have coincide : Coincide s w left i v fun _ => Eval.drain id := fun _ _ => rfl
  exact coincide.inStep (.drain related) (.drain id rfl)

theorem Coincide.loopItems (runner : RunnerInStep s w left) {source : Expr}
    (allowed : Setting.straight.Allows source) {β : Type} {f : Value × List Value → Runner → Eval β}
    (next : ∀ u items u' items', Setting.straight.value u u' →
      Setting.straight.values items items' → u.LeftFrom 0 items →
      Coincide s w left i v (f (u, items))) :
    Coincide s w left i v fun r => Evaluation.loopItems r source i >>= fun found => f found r := by
  simp only [Evaluation.loopItems, bind_assoc]
  refine (InStep.run runner allowed).bind fun u u' related => .unboxed related ?_
  have content := related.content
  cases shape : u.value with
  | empty => exact next _ _ _ _ (.const fun _ => rfl) .nil nofun
  | array items =>
      rw [shape] at content
      have elements : Setting.straight.values items
          (items.map (Value.translate Setting.straight.image)) :=
        ⟨rfl, fun plain => Value.array.inj
          ((Value.translate_array Setting.straight.test items).symm.trans (content.inert plain))⟩
      exact next _ _ _ _ content elements fun all same => by cases same; rfl
  | stream id =>
      rw [shape] at content
      exact (InStep.drain content).bind fun items _ values => next _ _ _ _ content values nofun
  | _ =>
      rw [shape] at content
      exact next _ _ _ _ content (.cons content .nil) nofun

/-- The result so far goes under a name of its own, and leaves value and cursor alone. -/
theorem Topped.accumulated (runner : RunnerInStep s w left) {body : Expr}
    (allowed : Setting.straight.Allows body) {f : Frame} (topped : Topped s i m f n)
    (poised : Poised s i v m) {u : Evaluated} (shown : f.Shows v u) {acc acc' : Option Evaluated}
    (accs : Setting.straight.Related (fun τ => Option.map (Evaluated.translate τ)) acc acc') :
    (do
      match acc with
      | some acc => Eval.onChain fun c => c.setValue m.chain.size Chain.accumulatorName acc
      | none => pure ()
      w body m.chain.size : Eval Evaluated) n =
    (do
      match acc with
      | some acc => Eval.onChain fun c => c.setValue m.chain.size Chain.accumulatorName acc
      | none => pure ()
      eval left body m.chain.size : Eval Evaluated) n := by
  cases acc with
  | none => exact runner.eval body allowed _ u n (topped.showing poised shown)
  | some acc =>
      have known : Setting.straight.result acc (acc.translate Setting.straight.image) :=
        ⟨rfl, fun plain => Option.some.inj (accs.inert plain)⟩
      refine runner.eval body allowed _ u _ ((topped.setValue Chain.accumulatorName known).showing
        poised { shown with value := ?_ })
      rw [Assoc.get?_insert, if_neg (by decide), shown.value]

/-- A round over an array has the cursor at the element; any other has none. -/
theorem InStep.round (runner : RunnerInStep s w left) {body : Expr}
    (allowed : Setting.straight.Allows body) {source source' : Value}
    (sources : Setting.straight.value source source') {acc acc' : Option Evaluated}
    (accs : Setting.straight.Related (fun τ => Option.map (Evaluated.translate τ)) acc acc')
    {index : Nat} {item item' : Value} (related : Setting.straight.value item item')
    (placed : ∀ all, source = .array all → all[index]? = some item) :
    InStep s w left i v Setting.straight.result
      fun r => Evaluation.round r body i source acc index item := by
  refine Coincide.allowed (.framed runner fun m poised => ?_)
    (.round allowed sources accs index related)
    (.round (.of_effects rfl body) (.of_effects rfl source) (.of_effects rfl acc) index
      (.of_effects rfl item))
  have pushed := Topped.push poised.confined .loop i
  by_cases array : source.isArray = true
  · have position : Setting.straight.address ((Address.linkedTo [] source).child (.index index))
        ((Address.linkedTo [] source').child (.index index)) := by
      refine sources.map (fun v => (Address.linkedTo [] v).child (.index index)) fun τ v => ?_
      rw [Address.linkedTo_translate, Address.child_translate]
    have topped := (pushed.setCursor position).setValue Chain.currentName related.plainly
    simp only [array, if_true]
    refine topped.accumulated runner allowed poised ⟨rfl, ?_, nofun⟩ accs
    rintro _ ⟨⟩
    have element : ((source.child? (.index index)).getD .empty) = item := by
      cases source with
      | array all =>
          change all[index]?.getD .empty = item
          rw [placed all rfl, Option.getD_some]
      | _ => cases array
    have leads := (Address.leadsTo_linkedTo source).child (.index index)
    rw [element] at leads
    exact leads
  · have topped := pushed.setValue Chain.currentName related.plainly
    simp only [array]
    exact topped.accumulated runner allowed poised ⟨rfl, nofun, fun _ other => absurd rfl other⟩ accs

namespace Coincide

variable (runner : RunnerInStep s w left)

include runner

theorem mapRounds {body : Expr} (allowed : Setting.straight.Allows body) {source source' : Value}
    (sources : Setting.straight.value source source') (items : List Value) {items' : List Value}
    (related : Setting.straight.values items items') {index : Nat}
    (remaining : source.LeftFrom index items) :
    Coincide s w left i v fun r =>
      Evaluation.mapRounds (Evaluation.round r body i source none) index items := by
  induction items generalizing items' index with
  | nil => exact fun _ _ => rfl
  | cons item rest ih =>
      obtain ⟨item', rest', -, first, others⟩ := related.uncons
      obtain ⟨placed, onwards⟩ := remaining.next
      have further := ih others onwards
      refine (InStep.round runner allowed sources (.const fun _ => rfl) first placed).catching
        fun o _ => ?_
      cases o with
      | ok u => exact further.tail _
      | error signal =>
          cases signal with
          | continueLoop => exact further
          | _ => exact fun _ _ => rfl

theorem mapExpr {source body : Expr} (first : Setting.straight.Allows source)
    (inside : Setting.straight.Allows body) :
    Coincide s w left i v fun r => Evaluation.mapExpr r source body i := by
  refine .loopItems runner first fun u items u' items' sources values remaining => ?_
  exact (mapRounds runner inside sources items values remaining).tail _

theorem foldRounds {body : Expr} (allowed : Setting.straight.Allows body) {source source' : Value}
    (sources : Setting.straight.value source source') (items : List Value) {items' : List Value}
    (related : Setting.straight.values items items') {index : Nat}
    (remaining : source.LeftFrom index items) {acc acc' : Evaluated}
    (sofar : Setting.straight.result acc acc') :
    Coincide s w left i v fun r => Evaluation.foldRounds
      (fun acc => Evaluation.round r body i source (some acc)) acc index items := by
  induction items generalizing items' index acc acc' with
  | nil => exact fun _ _ => rfl
  | cons item rest ih =>
      obtain ⟨item', rest', -, first, others⟩ := related.uncons
      obtain ⟨placed, onwards⟩ := remaining.next
      have accs : Setting.straight.Related (fun τ => Option.map (Evaluated.translate τ)) (some acc)
          (some acc') := sofar.map some fun _ _ => rfl
      refine (InStep.round runner allowed sources accs first placed).catching fun o ends => ?_
      cases o with
      | ok u =>
          obtain ⟨u', result⟩ := ends
          exact ih others onwards result
      | error signal =>
          cases signal with
          | continueLoop => exact ih others onwards sofar
          | _ => exact fun _ _ => rfl

theorem aggregateExpr {source initial body : Expr} (first : Setting.straight.Allows source)
    (start : Setting.straight.Allows initial) (inside : Setting.straight.Allows body) :
    Coincide s w left i v fun r => Evaluation.aggregateExpr r source initial body i := by
  refine .loopItems runner first fun u items u' items' sources values remaining => ?_
  exact (InStep.run runner start).bind fun acc acc' sofar =>
    foldRounds runner inside sources items values remaining sofar

end Coincide

/-! ## Chains -/

/-- The innermost frame, which is not that of a round. -/
def Chain.Innermost (c : Chain) (i : Nat) : Prop :=
  c.size = i + 1 ∧ ∀ f, c.frame? i = some f → f.kind ≠ .loop

/-- A step that navigates gives what there is at the current value. -/
theorem Poised.navigated (poised : Poised s i v m) {e : Expr} {f : Value → Value}
    (node : ∀ r, Evaluation.node r e i =
      Evaluation.currentUnboxed r i >>= fun u => pure (.plain (f u.value)))
    {u : Evaluated} (run : eval left e i m = (.ok u, n)) : u.value = f v.value := by
  cases left with
  | zero => cases run
  | succ left =>
      obtain ⟨v', related⟩ := poised.result
      have unboxed : Evaluation.currentUnboxed (.ofDepth left) i { m with depth := m.depth + 1 } =
          (.ok v, { m with depth := m.depth + 1 }) := by
        change Evaluation.unbox _ (m.chain.current i) i _ = _
        rw [poised.current, Setting.straight_free.unbox related]
        rfl
      have here : Evaluation.node (.ofDepth left) e i { m with depth := m.depth + 1 } =
          (.ok (.plain (f v.value)), { m with depth := m.depth + 1 }) := by
        rw [node, Eval.bind_ok unboxed]
        rfl
      have outcome := congrArg Prod.fst run
      change (Evaluation.node (.ofDepth left) e i { m with depth := m.depth + 1 }).1 = .ok u at outcome
      rw [here] at outcome
      cases outcome
      rfl

/-- The machine after the cursor and the current value of a frame were set. -/
def Machine.moveTo (m : Machine) (i : Nat) (a : Address) (u : Evaluated) : Machine :=
  (m.onChain fun c => c.setCursor i a).onChain fun c => c.setCurrent i u

theorem Machine.frame?_moveTo (m : Machine) (i : Nat) (a : Address) (u : Evaluated) (j : Nat) :
    (m.moveTo i a u).chain.frame? j = if j = i then (m.chain.frame? j).map fun f =>
      { f with cursor := some a, values := Assoc.insert f.values Chain.currentName u }
    else m.chain.frame? j := by
  simp only [moveTo, onChain, Chain.setCursor, Chain.setCurrent, Chain.setValue,
    Chain.frame?_update]
  split
  · rw [Option.map_map]
    rfl
  · rfl

theorem Confined.moveTo (confined : Confined (.straight s) m) {a a' : Address} {u u' : Evaluated}
    (address : Setting.straight.address a a') (result : Setting.straight.result u u') :
    Confined (.straight s) (m.moveTo i a u) :=
  (confined.setCursor i address).setValue i Chain.currentName result

/-- Cursor and current value of the innermost frame may move together. -/
theorem Poised.moveTo (poised : Poised s i v m) (innermost : m.chain.Innermost i) {a a' : Address}
    {u u' : Evaluated} (address : Setting.straight.address a a')
    (result : Setting.straight.result u u') (leads : m.chain.Addressed i → a.LeadsTo u.value)
    (onwards : ∀ b, m.chain.cursor? i = some b → a.LeadsTo u.value ∨ a.GoesOnFrom b) :
    Poised s i u (m.moveTo i a u) ∧ (m.moveTo i a u).chain.Innermost i := by
  obtain ⟨f, found⟩ := Chain.exists_frame? poised.live
  let g : Frame := { f with
    cursor := some a
    values := Assoc.insert f.values Chain.currentName u }
  have foundToo : (m.moveTo i a u).chain.frame? i = some g := by
    rw [Machine.frame?_moveTo, if_pos rfl, found]
    rfl
  have size : (m.moveTo i a u).chain.size = i + 1 := by
    rw [← innermost.1]
    simp [Machine.moveTo, Machine.onChain, Chain.setCursor, Chain.setCurrent, Chain.setValue]
  have pointed : (m.chain.setCursor i a).Nested := poised.nested.update i fun _ => rfl
  have nested : (m.moveTo i a u).chain.Nested := pointed.update i fun _ => rfl
  have value : Assoc.get? g.values Chain.currentName = some u := by
    rw [Assoc.get?_insert, if_pos rfl]
  have same : Chain.SameBelow i m.chain (m.moveTo i a u).chain := by
    refine .of_eq poised.nested nested (Nat.le_of_lt poised.live) fun j below => ?_
    rw [Machine.frame?_moveTo, if_neg (Nat.ne_of_lt below)]
  have addressed : a.LeadsTo u.value → (m.moveTo i a u).chain.Addressed i :=
    .of_own nested foundToo rfl value
  have level := poised.level.moved same size found foundToo rfl (innermost.2 f found)
    (Chain.cursor?_own nested foundToo rfl) (fun before => addressed (leads before))
    fun b seen => (onwards b seen).imp_left addressed
  refine ⟨⟨poised.confined.moveTo address result, nested, by omega, level,
    Chain.current_own nested foundToo value⟩, size, fun g' found' => ?_⟩
  cases foundToo.symm.trans found'
  exact innermost.2 f found

theorem Balanced.innermost (balanced : Balanced i m n) (innermost : m.chain.Innermost i) :
    n.chain.Innermost i := by
  refine ⟨balanced.size.trans innermost.1, fun g found => ?_⟩
  have live : i < m.chain.size := by rw [innermost.1]; omega
  obtain ⟨f, before⟩ := Chain.exists_frame? live
  obtain ⟨f', after, undisturbed⟩ := balanced.frame i f before
  cases found.symm.trans after
  rw [undisturbed.kind]
  exact innermost.2 f before

/-- **A step of a chain moves cursor and current value together.** -/
theorem Poised.step (poised : Poised s i v m) (innermost : m.chain.Innermost i) {e : Expr}
    (allowed : Setting.straight.Allows e) {u : Evaluated} (run : eval left e i m = (.ok u, n)) :
    let cursor := Evaluation.cursorAfter e (m.chain.cursor? i) v.value u.value
    Poised s i u (n.moveTo i cursor u) ∧ (n.moveTo i cursor u).chain.Innermost i := by
  intro cursor
  have whole : Alike .whole .shared i i Setting.whole.result (fun r => r e i) _ :=
    .run (.of_effects rfl e)
  have balanced : Balanced i m (eval left e i m).2 :=
    (whole.balanced poised.nested poised.live left).1
  have ran := InStep.run (i := i) (v := v) (.plain s left) allowed
  have after : Poised s i v (eval left e i m).2 := ran.poised m poised
  have ends : Setting.straight.Ends Setting.straight.result (eval left e i m).1 := ran.ends m poised
  rw [run] at balanced after ends
  obtain ⟨u', result⟩ := ends
  obtain ⟨v', before⟩ := poised.result
  obtain ⟨a', cursors⟩ := poised.cursor
  have inert := Alike.cursorAfter e cursors before.content result.content
  have still := balanced.innermost innermost
  have navigates : cursor = .linkedTo [] u.value ∨ ∃ a step, m.chain.cursor? i = some a ∧
      cursor = a.child step ∧ u.value = (v.value.child? step).getD .empty := by
    refine Evaluation.cursorAfter_eq ?_ ?_
    · rintro key rfl
      exact poised.navigated (f := Value.memberOf key) (fun _ => rfl) run
    · rintro position rfl
      exact poised.navigated (f := fun v => (v.element? position).getD .empty) (fun _ => rfl) run
  rcases navigates with anew | ⟨a, step, seen, child, there⟩
  · have leads : cursor.LeadsTo u.value := by
      rw [anew]
      exact Address.leadsTo_linkedTo u.value
    exact after.moveTo still inert result (fun _ => leads) fun _ _ => .inl leads
  · refine after.moveTo still inert result (fun addressed => ?_) fun b here => .inr ?_
    · have leads := addressed a ((balanced.cursor i).trans seen)
      rw [after.current] at leads
      rw [child, there]
      exact leads.child step
    · rw [balanced.cursor, seen] at here
      cases here
      rw [child]
      exact a.goesOnFrom_child step

namespace Coincide

variable (runner : RunnerInStep s w left)

include runner

/-- The steps of a chain, in a frame of their own. -/
theorem chainSteps (steps : List Expr) (allowed : ∀ e ∈ steps, Setting.straight.Allows e)
    (poised : Poised s i v m) (innermost : m.chain.Innermost i) (result : Evaluated) :
    Evaluation.chainSteps w i result steps m =
      Evaluation.chainSteps (.ofDepth left) i result steps m := by
  induction steps generalizing m v result with
  | nil => rfl
  | cons e rest ih =>
      obtain rfl := poised.current
      have here := allowed e (List.mem_cons_self ..)
      have same : w e i m = eval left e i m := runner.eval e here i _ m poised
      let onwards (r : Runner) (u : Evaluated) : Eval Evaluated := fun n =>
        Evaluation.chainSteps r i u rest (n.moveTo i
          (Evaluation.cursorAfter e (m.chain.cursor? i) (m.chain.current i).value u.value) u)
      change (w e i >>= onwards w) m = (eval left e i >>= onwards (.ofDepth left)) m
      rcases run : eval left e i m with ⟨_ | u, n⟩
      · exact (Eval.bind_error (same.trans run)).trans (Eval.bind_error run).symm
      · obtain ⟨moved, still⟩ := poised.step innermost here run
        refine (Eval.bind_ok (same.trans run)).trans (Eq.trans ?_ (Eval.bind_ok run).symm)
        exact ih (fun e member => allowed e (List.mem_cons_of_mem _ member)) moved still u

theorem chainExpr (steps : List Expr) (allowed : ∀ e ∈ steps, Setting.straight.Allows e) :
    Coincide s w left i v fun r => Evaluation.chainExpr r steps i := by
  refine .framed runner fun m poised => ?_
  have topped := Topped.push poised.confined .scope i
  refine chainSteps runner steps allowed (topped.silent poised rfl rfl) ⟨topped.size, ?_⟩ _
  intro f found loop
  cases topped.found.symm.trans found
  cases loop

end Coincide

/-! ## Patterns -/

/-- A pattern that is not decided by expressions makes no use of them. -/
theorem Pattern.matchAt_fixed {μ : Type → Type} [Monad μ] (first second : Probe μ)
    (parts : List PatternPart) (fixed : ∀ part ∈ parts, part.Fixed) :
    matchAt first parts = matchAt second parts := by
  induction parts with
  | nil =>
      funext v
      simp only [matchAt]
  | cons part rest ih =>
      have others := ih fun part member => fixed part (List.mem_cons_of_mem _ member)
      have here := fixed part (List.mem_cons_self ..)
      funext v
      cases part with
      | computed e | filter predicates => exact here.elim
      | _ => simp only [matchAt, others]

theorem Coincide.patternExpr (parts : List PatternPart) (fixed : ∀ part ∈ parts, part.Fixed) :
    Coincide s w left i v fun r => Evaluation.patternExpr r parts i := by
  refine .currentUnboxed fun v' related => ?_
  simp only [Pattern.find, Pattern.matchAt_fixed (Evaluation.probe _ i)
    (Evaluation.probe (.ofDepth left) i) parts fixed]
  exact fun _ _ => rfl

/-! ## Every expression -/

theorem Coincide.node (runner : RunnerInStep s w left) {e : Expr}
    (allowed : Setting.straight.Allows e) :
    Coincide s w left i v fun r => Evaluation.node r e i := by
  have part : ∀ {sub}, sub ∈ e.parts → Setting.straight.Allows sub := fun member =>
    allowed.part member
  have straight : e.Straight := allowed.root rfl
  cases e with
  | array es => exact (items runner es fun e member => part member).tail _
  | object es =>
      exact (members runner es (fun m member => part (List.mem_map_of_mem member)) []).tail _
  | named name => exact nameRef runner name
  | member key | element position => exact .currentUnboxed fun _ _ _ _ => rfl
  | chain steps => exact chainExpr runner steps fun e member => part member
  | binary op first second =>
      exact binaryExpr runner op (part (by simp [Expr.parts])) (part (by simp [Expr.parts]))
  | unary op operand => exact unaryExpr runner op (part (by simp [Expr.parts]))
  | call library name args =>
      exact callExpr runner library name args fun e member => part member
  | function d | invoke target args => exact straight.elim
  | scope body handler =>
      cases straight
      exact .within runner fun j => runner.eval body (part (List.mem_cons_self ..)) j v
  | letIn bindings body handler | select bindings body handler =>
      obtain ⟨rfl, -⟩ := straight
      exact letScope runner _ (fun plain => ⟨_, allowed plain, rfl⟩) (part (List.mem_cons_self ..))
  | conditional condition yes no =>
      exact conditionalExpr runner (part (by simp [Expr.parts])) (part (by simp [Expr.parts]))
        fun e member => part (by simp [Expr.parts, Option.mem_def.mp member])
  | map source body =>
      exact mapExpr runner (part (by simp [Expr.parts])) (part (by simp [Expr.parts]))
  | aggregate source initial body =>
      exact aggregateExpr runner (part (by simp [Expr.parts])) (part (by simp [Expr.parts]))
        (part (by simp [Expr.parts]))
  | stop reason value => exact (runner.eval value (part (by simp [Expr.parts])) i v).tail _
  | raise kind code message payload =>
      exact raiseExpr runner kind code (part (by simp [Expr.parts]))
        fun e member => part (by simp [Expr.parts, Option.mem_def.mp member])
  | pattern parts => exact patternExpr parts straight
  | sink input component => exact sinkExpr runner (part (by simp [Expr.parts])) component
  | _ => exact fun _ _ => rfl

end TreeQuery
