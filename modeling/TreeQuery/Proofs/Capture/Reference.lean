import Mathlib
import TreeQuery.Proofs.Capture.Abreast
import TreeQuery.Proofs.Memos.Marked
import TreeQuery.Proofs.Tree

/-!
# Names inside functions

A function is made with the named values in sight and invoked in a frame of its own, where these
values stand innermost; let-bindings are found through the frames. So a name means the same inside a
function as outside, but for one case: where a let-binding hides a value of the same name, the
function has the value (`eval_wrapped`, `wrapped_past_binding`).
-/

set_option autoImplicit false

namespace TreeQuery

/-- A function without parameters that refers to a name, invoked where it is made. -/
def Expr.wrapped (name : String) (onAccess : Bool) : Expr :=
  .invoke (.function ⟨[], .named name, onAccess, none⟩) []

/-- A let-binding stands for the name, and there is a value of the same name further out. -/
def Chain.Hides (c : Chain) (i : Nat) (name : String) : Prop :=
  (∃ owner b, c.resolve? i name = some (.binding owner b)) ∧ ∃ v, c.lookup? i name = some v

/-! ## What a function is made with -/

namespace Chain

variable {c : Chain} {i : Nat} {name : String}

/-- Values that were there before hide those that are added. -/
theorem get?_addHidden (seen more : Assoc String Evaluated) (name : String) :
    Assoc.get? (addHidden seen more) name =
      (Assoc.get? seen name).or (Assoc.get? more name) := by
  induction more generalizing seen with
  | nil => simp [addHidden, Assoc.get?]
  | cons entry rest ih =>
      obtain ⟨k, v⟩ := entry
      have onwards : addHidden seen ((k, v) :: rest) =
          addHidden (if Assoc.contains seen k then seen else seen ++ [(k, v)]) rest := rfl
      rw [onwards, ih]
      by_cases taken : Assoc.contains seen k
      · rw [if_pos taken]
        by_cases here : k = name
        · obtain ⟨u, found⟩ := Option.isSome_iff_exists.mp taken
          rw [← here, found, Option.some_or, Option.some_or]
        · simp [Assoc.get?, here]
      · rw [if_neg taken, Assoc.get?_append]
        by_cases here : k = name
        · simp [Assoc.get?, here]
        · simp [Assoc.get?, here]

theorem nodup_addHidden {seen : Assoc String Evaluated} (distinct : (Assoc.keys seen).Nodup)
    (more : Assoc String Evaluated) : (Assoc.keys (addHidden seen more)).Nodup := by
  refine List.foldlRecOn more _ (motive := fun acc => (Assoc.keys acc).Nodup) distinct ?_
  intro acc before entry _
  split
  · exact before
  · rename_i fresh
    have absent : entry.1 ∉ Assoc.keys acc := by
      rw [← Assoc.get?_eq_none_iff, ← Option.not_isSome_iff_eq_none]
      exact fresh
    have keys : Assoc.keys (acc ++ [entry]) = Assoc.keys acc ++ [entry.1] := List.map_append
    rw [keys, List.nodup_append]
    refine ⟨before, List.nodup_singleton _, fun key member other last same => ?_⟩
    rw [List.mem_singleton] at last
    exact absent (last ▸ same ▸ member)

/-- A name among the values in sight is what it is when looked up. -/
theorem get?_visible (c : Chain) (i : Nat) (name : String) :
    Assoc.get? (c.visible i) name = c.lookup? i name := by
  have walk : ∀ (step : Assoc String Evaluated → Nat → Assoc String Evaluated)
      (find : Nat → Option Evaluated) (positions : List Nat) (seen : Assoc String Evaluated),
      (∀ acc j, Assoc.get? (step acc j) name = (Assoc.get? acc name).or (find j)) →
        Assoc.get? (positions.foldl step seen) name =
          (Assoc.get? seen name).or (positions.findSome? find) := by
    intro step find positions seen each
    induction positions generalizing seen with
    | nil => simp
    | cons j rest ih =>
        rw [List.foldl_cons, ih, each, List.findSome?_cons]
        cases Assoc.get? seen name <;> cases find j <;> rfl
  rw [visible, lookup?, search, walk _ fun j => (c.frame? j).bind fun f => Assoc.get? f.values name]
  · rfl
  · intro acc j
    cases c.frame? j with
    | none => exact (Option.or_none).symm
    | some f => exact get?_addHidden acc f.values name

theorem nodup_visible (c : Chain) (i : Nat) : (Assoc.keys (c.visible i)).Nodup := by
  refine List.foldlRecOn (c.ancestors i) _ (motive := fun acc => (Assoc.keys acc).Nodup)
    List.nodup_nil ?_
  intro acc before j _
  cases c.frame? j with
  | none => exact before
  | some f => exact nodup_addHidden before f.values

/-- A name that has a value in sight stands for it, unless a let-binding hides it. -/
theorem resolve?_of_lookup? {v : Evaluated} (found : c.lookup? i name = some v)
    (clear : ¬ c.Hides i name) : c.resolve? i name = some (.value v) := by
  have walk : ∀ positions : List Nat,
      (positions.findSome? fun j => (c.frame? j).bind fun f => Assoc.get? f.values name) = some v →
      ∃ resolved, (positions.findSome? fun j => (c.frame? j).bind fun f =>
          (Assoc.get? f.values name).elim
            ((Assoc.get? f.lets name).map fun slot => Resolved.binding j slot.binding)
            fun u => some (.value u)) = some resolved ∧
        (resolved = .value v ∨ ∃ owner b, resolved = .binding owner b) := by
    intro positions there
    induction positions with
    | nil => cases there
    | cons j rest ih =>
        rw [List.findSome?_cons] at there
        cases frame : c.frame? j with
        | none =>
            rw [frame] at there
            rw [List.findSome?_cons, frame]
            exact ih there
        | some f =>
            rw [frame] at there
            simp only [List.findSome?_cons, frame, Option.bind_some] at there ⊢
            cases value : Assoc.get? f.values name with
            | some u =>
                rw [value] at there
                cases there
                exact ⟨_, rfl, .inl rfl⟩
            | none =>
                rw [value] at there
                cases declared : Assoc.get? f.lets name with
                | some slot => exact ⟨_, rfl, .inr ⟨_, _, rfl⟩⟩
                | none => exact ih there
  have either : ∃ resolved, c.resolve? i name = some resolved ∧
      (resolved = .value v ∨ ∃ owner b, resolved = .binding owner b) := by
    obtain ⟨resolved, here, kinds⟩ := walk (c.ancestors i) found
    refine ⟨resolved, ?_, kinds⟩
    rw [← here, resolve?, search]
    congr
    funext j
    congr
    funext f
    cases Assoc.get? f.values name <;> rfl
  obtain ⟨resolved, here, rfl | ⟨owner, b, rfl⟩⟩ := either
  · exact here
  · exact absurd ⟨⟨owner, b, here⟩, v, found⟩ clear

/-! ## The frame of an invoked function -/

theorem update_update (c : Chain) (i : Nat) (f g : Frame → Frame) :
    (c.update i f).update i g = c.update i fun x => g (f x) := by
  refine ext_frame? fun j => ?_
  simp only [frame?_update]
  split
  · cases c.frame? j <;> rfl
  · rfl

/-- The frames with a new one on top that holds values. -/
def filled (c : Chain) (kind : FrameKind) (i : Nat) (values : Assoc String Evaluated) : Chain :=
  (c.push kind (some i)).update c.size fun f => { f with values := Assoc.insertAll f.values values }

theorem frame?_filled (c : Chain) (kind : FrameKind) (i : Nat) (values : Assoc String Evaluated) :
    (c.filled kind i values).frame? c.size =
      some { kind, parent := some i, values := Assoc.ofEntries values } := by
  rw [filled, frame?_update, if_pos rfl, frame?_push, if_pos rfl]
  rfl

theorem Nested.filled {c : Chain} (nested : c.Nested) {i : Nat} (live : i < c.size)
    (kind : FrameKind) (values : Assoc String Evaluated) : (c.filled kind i values).Nested :=
  (nested.push (by simpa using live) kind).update _ fun _ => rfl

/-- The frames below do not see it. -/
theorem Nested.beside_filled {c : Chain} (nested : c.Nested) (kind : FrameKind) (i : Nat)
    (values : Assoc String Evaluated) : c.Beside c.size (c.filled kind i values) :=
  (nested.beside_push kind (some i)).update_other _

theorem resolve?_below (nested : c.Nested) (live : i < c.size) (kind : FrameKind)
    (values : Assoc String Evaluated) (name : String) :
    (c.filled kind i values).resolve? i name = c.resolve? i name := by
  have beside := (nested.beside_filled kind i values).resolve? nested i name
  rw [past_below live] at beside
  rw [beside]
  cases found : c.resolve? i name with
  | none => rfl
  | some resolved =>
      cases resolved with
      | value v => rfl
      | binding owner b =>
          obtain ⟨below, -⟩ := slot_of_resolve? nested found
          rw [Option.map_some, Resolved.past, past_below below]

/-- Inside the new frame its own values come first. -/
theorem resolve?_filled (nested : c.Nested) (live : i < c.size) (kind : FrameKind)
    {values : Assoc String Evaluated} (distinct : (Assoc.keys values).Nodup) (name : String) :
    (c.filled kind i values).resolve? c.size name =
      (Assoc.get? values name).elim (c.resolve? i name) fun v => some (.value v) := by
  have kept : Assoc.ofEntries values = values := Assoc.insertAll_of_nodup distinct
  rw [resolve?_cons (nested.filled live kind values) (c.frame?_filled kind i values), kept]
  cases Assoc.get? values name with
  | some v => rfl
  | none => exact resolve?_below nested live kind values name

end Chain

namespace Evaluation

theorem setCaptured_apply (i : Nat) (captured : Assoc String Evaluated) (m : Machine) :
    setCaptured i captured m = (.ok (), m.onChain fun c => c.update i fun f =>
      { f with values := Assoc.insertAll f.values captured }) := by
  induction captured generalizing m with
  | nil =>
      have same : (m.chain.update i fun f => { f with values := Assoc.insertAll f.values [] }) =
          m.chain := by
        refine Chain.ext_frame? fun j => ?_
        rw [Chain.frame?_update]
        split
        · cases m.chain.frame? j <;> rfl
        · rfl
      rw [Machine.onChain, same]
      rfl
  | cons entry rest ih =>
      obtain ⟨name, v⟩ := entry
      have step : setCaptured i ((name, v) :: rest) m =
          setCaptured i rest (m.onChain fun c => c.setValue i name v) := rfl
      rw [step, ih]
      simp only [Machine.onChain, Chain.setValue, Chain.update_update]
      rfl

end Evaluation

/-! ## References -/

/-- A machine on which one more identity was given out. -/
def Machine.counted (m : Machine) : Machine :=
  { m with nextId := m.nextId + 1 }

/-- The machine in which the body of a function starts that is invoked where it is made. -/
def Machine.invoked (m : Machine) (i : Nat) : Machine :=
  { m.counted with chain := m.chain.filled .function i (m.chain.visible i), depth := m.depth + 1 }

variable {m : Machine} {i : Nat} {name : String}

theorem eval_wrapped_start (left i : Nat) (name : String) (onAccess : Bool) (m : Machine) :
    (eval (left + 2) (.wrapped name onAccess) i m).1 =
      (eval (left + 1) (.named name) m.chain.size (m.invoked i)).1 := by
  let l : Lambda := ⟨m.nextId, ⟨[], .named name, onAccess, none⟩, m.chain.visible i⟩
  let start : Machine := { m.counted with depth := m.depth + 1 }
  have invoked : (eval (left + 2) (.wrapped name onAccess) i m).1 =
      (Evaluation.invoke (.ofDepth (left + 1)) l [] i start).1 := rfl
  have body : Evaluation.invoke (.ofDepth (left + 1)) l [] i =
      Eval.within .function i fun j =>
        Evaluation.setCaptured j l.captured >>= fun _ => eval (left + 1) (.named name) j := rfl
  have entered : (Evaluation.setCaptured m.chain.size l.captured >>= fun _ =>
      eval (left + 1) (.named name) m.chain.size)
        (start.onChain fun c => c.push .function (some i)) =
          eval (left + 1) (.named name) m.chain.size (m.invoked i) :=
    Eval.bind_ok (Evaluation.setCaptured_apply m.chain.size l.captured _)
  rw [invoked, body, Eval.within_apply]
  change (_ : Except Signal Evaluated × Machine).1 = _
  rw [← entered]
  rfl

/-- A value in sight is what a function finds. -/
theorem eval_wrapped_value (nested : m.chain.Nested) (live : i < m.chain.size) {v : Evaluated}
    (found : m.chain.lookup? i name = some v) (left : Nat) (onAccess : Bool) :
    (eval (left + 2) (.wrapped name onAccess) i m).1 = .ok v := by
  have resolved : (m.invoked i).chain.resolve? m.chain.size name = some (.value v) := by
    have inside := Chain.resolve?_filled nested live .function (m.chain.nodup_visible i) name
    rw [Chain.get?_visible, found] at inside
    exact inside
  have rule := Evaluation.nameRef_apply (.ofDepth left) name m.chain.size
    { m.invoked i with depth := (m.invoked i).depth + 1 }
  rw [resolved] at rule
  rw [eval_wrapped_start]
  exact congrArg Prod.fst rule

/-- Where there is no value in sight, a function finds what is found outside, with one level of
depth less. -/
theorem eval_wrapped_binding (nested : m.chain.Nested) (live : i < m.chain.size)
    (missing : m.chain.lookup? i name = none) (left : Nat) (onAccess : Bool) :
    (eval (left + 2) (.wrapped name onAccess) i m).1 =
      (eval (left + 1) (.named name) i m.counted).1 := by
  have resolved : (m.invoked i).chain.resolve? m.chain.size name =
      (m.invoked i).chain.resolve? i name := by
    have inside := Chain.resolve?_filled nested live .function (m.chain.nodup_visible i) name
    rw [Chain.get?_visible, missing] at inside
    exact inside.trans (Chain.resolve?_below nested live .function _ name).symm
  have inward : eval (left + 1) (.named name) m.chain.size (m.invoked i) =
      eval (left + 1) (.named name) i (m.invoked i) := by
    change Eval.deeper (Evaluation.nameRef (.ofDepth left) name m.chain.size) (m.invoked i) =
      Eval.deeper (Evaluation.nameRef (.ofDepth left) name i) (m.invoked i)
    simp only [Eval.deeper, Evaluation.nameRef_apply, resolved]
  have beside : m.counted.Beside m.chain.size (m.invoked i) :=
    .intro (m.depth + 1) (nested.beside_filled .function i (m.chain.visible i))
  have ready : Ready .whole .shared i m.counted := ⟨nested, live, fun plain => by cases plain⟩
  have outcome := ((AbreastRunner.ofDepth m.chain.size (left + 1)).eval (.named name) i _ _ ready
    beside).outcome
  rw [past_below live] at outcome
  rw [eval_wrapped_start, inward]
  exact outcome.eq_whole

/-- **A name means the same inside a function as outside, unless a let-binding hides a value.** A
function of no parameters whose body is a name is invoked where it is made, with enough depth. If a
value of that name is in sight, it is what comes out, even where a let-binding hides it. If no
let-binding hides a value, the outcome is that of the name itself, once the identity that the
function takes is given out. -/
theorem eval_wrapped (left : Nat) (m : Machine) (i : Nat) (name : String) (onAccess : Bool)
    (nested : m.chain.Nested) (live : i < m.chain.size)
    (deep : Throughout .deepEnough left fun run => run (.wrapped name onAccess) i m) :
    (∀ v, m.chain.lookup? i name = some v →
        (eval left (.wrapped name onAccess) i m).1 = .ok v) ∧
      (¬ m.chain.Hides i name → (eval left (.wrapped name onAccess) i m).1 =
        (eval left (.named name) i m.counted).1) := by
  have enough : ∀ more, eval left (.wrapped name onAccess) i m =
      eval (left + more) (.wrapped name onAccess) i m := by
    intro more
    have same := throughout_deepEnough.mp deep (eval more)
    rw [Runner.backed_eval] at same
    exact same.symm
  have valued : ∀ v, m.chain.lookup? i name = some v →
      (eval left (.wrapped name onAccess) i m).1 = .ok v := by
    intro v found
    rw [enough 2]
    exact eval_wrapped_value nested live found left onAccess
  refine ⟨valued, fun clear => ?_⟩
  cases left with
  | zero => rfl
  | succ left =>
      cases found : m.chain.lookup? i name with
      | some v =>
          have rule := Evaluation.nameRef_apply (.ofDepth left) name i
            { m.counted with depth := m.depth + 1 }
          rw [show m.counted.chain = m.chain from rfl, Chain.resolve?_of_lookup? found clear] at rule
          rw [valued v found]
          exact (congrArg Prod.fst rule).symm
      | none =>
          rw [enough 1]
          exact eval_wrapped_binding nested live found left onAccess

/-- Two let-bindings, one of which refers to the other, and a function inside. -/
def letMachine : Machine :=
  { chain := (((({} : Chain).push .query none).push .letIn (some 0)).update 1 fun f =>
      { f with lets := declareIn f.lets [⟨0, "x", .array [.named "y"], none, none⟩,
        ⟨1, "y", .text "a", none, none⟩] }).push .function (some 1) }

theorem eval_wrapped_nested :
    letMachine.chain.Nested ∧ ¬ letMachine.chain.Hides 2 "x" ∧
      (eval 6 (.wrapped "x" false) 2 letMachine).1 =
        (eval 6 (.named "x") 2 letMachine.counted).1 ∧
      (eval 6 (.wrapped "x" false) 2 letMachine).1 = .ok (.plain (.array [.text "a"])) := by
  have nested : letMachine.chain.Nested := by
    have outer : ((({} : Chain).push .query none).push .letIn (some 0)).Nested := by
      refine ((Chain.Nested.of_size rfl).push ?_ _).push ?_ _
      all_goals simp [Chain.size, Chain.push]
    refine (outer.update 1 ?_).push ?_ _
    · exact fun _ => rfl
    · simp [Chain.size, Chain.push, Chain.update]
  have live : 2 < letMachine.chain.size := by decide
  have missing : letMachine.chain.lookup? 2 "x" = none := by cbv
  have clear : ¬ letMachine.chain.Hides 2 "x" := by
    rintro ⟨-, v, found⟩
    cases missing.symm.trans found
  have deep : Throughout .deepEnough 6 fun run => run (.wrapped "x" false) 2 letMachine :=
    throughout_deepEnough.mpr fun other => by cbv
  exact ⟨nested, clear, (eval_wrapped 6 letMachine 2 "x" false nested live deep).2 clear, by cbv⟩

/-- A function finds the argument of the function around it, past the let-binding that hides it. -/
theorem wrapped_past_binding :
    let around (body : Expr) : Program :=
      ⟨.invoke (.function ⟨[⟨"x", none⟩], .letIn [⟨0, "x", .text "let", none, none⟩] body none,
        false, none⟩) [.text "argument"], none⟩
    (Machine.evaluate {} (around (.wrapped "x" false)) .empty).1 = .ok (.text "argument") ∧
      (Machine.evaluate {} (around (.named "x")) .empty).1 = .ok (.text "let") := by
  cbv

end TreeQuery
