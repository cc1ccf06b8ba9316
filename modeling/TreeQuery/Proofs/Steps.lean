import TreeQuery.Evaluate
import TreeQuery.Proofs.Chain
import TreeQuery.Proofs.Lockstep.Expressions

/-!
# Computations step by step

What a computation does to a given machine: how steps follow each other, how a new frame comes and
goes, and what happens when the value of a let-binding is needed. A binding is computed in three
steps: its configuration is settled (`letConfig`), what is remembered of it is looked up, and if
there is nothing, it is computed and remembered (`Evaluation.force_eq`).
-/

set_option autoImplicit false

namespace TreeQuery

namespace Eval

variable {α β : Type} {x : Eval α} {f : α → Eval β} {m m' : Machine}

theorem bind_ok {a : α} (run : x m = (.ok a, m')) : (x >>= f) m = f a m' := by
  change ExceptT.bindCont f (x m).1 (x m).2 = f a m'
  rw [run]
  rfl

theorem bind_error {s : Signal} (run : x m = (.error s, m')) :
    (x >>= f) m = (.error s, m') := by
  change ExceptT.bindCont f (x m).1 (x m).2 = (.error s, m')
  rw [run]
  rfl

theorem attempt_bind (f : Except Signal α → Eval β) :
    (attempt x >>= f) m = f (x m).1 (x m).2 := rfl

theorem get_bind (f : Machine → Eval β) : (get >>= f) m = f m m := rfl

/-- What comes next gets the value; a signal is passed on. -/
def passOn (f : α → Eval β) : Except Signal α → Eval β
  | .ok a => f a
  | .error s => throw s

theorem bind_eq_attempt (x : Eval α) (f : α → Eval β) : x >>= f = attempt x >>= passOn f := by
  funext m
  rcases run : x m with ⟨_ | a, after⟩
  · rw [bind_error run, attempt_bind, run]
    rfl
  · rw [bind_ok run, attempt_bind, run]
    rfl

/-- The same for computations with the evaluation of parts left open. -/
theorem bind_eq_attempt_open (x : Runner → Eval α) (f : α → Runner → Eval β) :
    (fun r => x r >>= fun a => f a r) = fun r => attempt (x r) >>= fun o => passOn (f · r) o :=
  funext fun r => bind_eq_attempt (x r) (f · r)

theorem within_apply (kind : FrameKind) (parent : Nat) (body : Nat → Eval α) (m : Machine) :
    within kind parent body m =
      ((body m.chain.size (m.onChain fun c => c.push kind (some parent))).1,
        (body m.chain.size (m.onChain fun c => c.push kind (some parent))).2.onChain
          fun c => c.truncate m.chain.size) := rfl

end Eval

/-! ## Declaring let-bindings -/

/-- The slots after bindings were declared one after the other. -/
def declareIn (lets : Assoc String LetSlot) (bindings : List Binding) : Assoc String LetSlot :=
  bindings.foldl (fun lets b => Assoc.insert lets b.name { binding := b }) lets

theorem Chain.ext_frame? {c d : Chain} (same : ∀ j, c.frame? j = d.frame? j) : c = d := by
  obtain ⟨frames⟩ := c
  obtain ⟨frames'⟩ := d
  exact congrArg Chain.mk (Array.ext_getElem? same)

theorem Chain.foldl_declare (c : Chain) (i : Nat) (bindings : List Binding) :
    bindings.foldl (fun c b => c.declare i b) c =
      c.update i fun f => { f with lets := declareIn f.lets bindings } := by
  induction bindings generalizing c with
  | nil =>
      refine Chain.ext_frame? fun j => ?_
      simp only [List.foldl_nil, Chain.frame?_update, declareIn]
      split
      · cases c.frame? j <;> rfl
      · rfl
  | cons b rest ih =>
      rw [List.foldl_cons, ih]
      refine Chain.ext_frame? fun j => ?_
      simp only [Chain.declare, Chain.frame?_update, declareIn, List.foldl_cons]
      split
      · cases c.frame? j <;> rfl
      · rfl

theorem get?_declareIn {lets : Assoc String LetSlot} {bindings : List Binding} {name : String}
    {slot : LetSlot} (found : Assoc.get? (declareIn lets bindings) name = some slot) :
    Assoc.get? lets name = some slot ∨
      ∃ b ∈ bindings, b.name = name ∧ slot = { binding := b } := by
  induction bindings generalizing lets with
  | nil => exact .inl found
  | cons b rest ih =>
      rcases ih found with earlier | ⟨b', member, named, rfl⟩
      · rw [Assoc.get?_insert] at earlier
        split at earlier
        · rename_i here
          cases earlier
          exact .inr ⟨b, List.mem_cons_self .., here, rfl⟩
        · exact .inl earlier
      · exact .inr ⟨b', List.mem_cons_of_mem _ member, named, rfl⟩

/-- What is only declared is not remembered yet. -/
theorem memo_declareIn {bindings : List Binding} (name : String) (slot : LetSlot)
    (found : Assoc.get? (declareIn [] bindings) name = some slot) : slot.memo = none := by
  rcases get?_declareIn found with earlier | ⟨b, member, named, rfl⟩
  · cases earlier
  · rfl

theorem get?_declareIn_of_mem {lets : Assoc String LetSlot} {bindings : List Binding}
    (distinct : (bindings.map Binding.name).Nodup) {b : Binding} (member : b ∈ bindings) :
    Assoc.get? (declareIn lets bindings) b.name = some { binding := b } := by
  have later : ∀ (rest : List Binding) (lets : Assoc String LetSlot),
      b.name ∉ rest.map Binding.name → Assoc.get? lets b.name = some { binding := b } →
        Assoc.get? (declareIn lets rest) b.name = some { binding := b } := by
    intro rest
    induction rest with
    | nil => exact fun _ _ found => found
    | cons b' rest ih =>
        intro lets fresh found
        simp only [List.map_cons, List.mem_cons, not_or] at fresh
        refine ih _ fresh.2 ?_
        rw [Assoc.get?_insert, if_neg (Ne.symm fresh.1), found]
  induction bindings generalizing lets with
  | nil => cases member
  | cons b' rest ih =>
      rw [List.map_cons, List.nodup_cons] at distinct
      rcases List.mem_cons.mp member with rfl | further
      · exact later rest _ distinct.1 (by rw [Assoc.get?_insert, if_pos rfl])
      · exact ih distinct.2 further

/-- The machine with a new frame on top that declares let-bindings. -/
def Machine.letFrame (m : Machine) (kind : FrameKind) (i : Nat) (bindings : List Binding) :
    Machine :=
  (m.onChain fun c => c.push kind (some i)).onChain fun c =>
    c.update m.chain.size fun f => { f with lets := declareIn f.lets bindings }

theorem Eval.letFrame_apply {α : Type} (kind : FrameKind) (i : Nat) (bindings : List Binding)
    (x : Nat → Eval α) (m : Machine) :
    (Eval.within kind i fun j => do
      Evaluation.declareAll j bindings
      x j) m =
      ((x m.chain.size (m.letFrame kind i bindings)).1,
        (x m.chain.size (m.letFrame kind i bindings)).2.onChain
          fun c => c.truncate m.chain.size) := by
  rw [Eval.within_apply, Evaluation.declareAll_eq]
  simp only [Chain.foldl_declare]
  rfl

theorem Machine.frame?_push (m : Machine) (kind : FrameKind) (i : Nat) :
    (m.onChain fun c => c.push kind (some i)).chain.frame? m.chain.size =
      some { kind, parent := some i } := by
  simp [onChain, Chain.frame?_push]

theorem Machine.frame?_letFrame (m : Machine) (kind : FrameKind) (i : Nat)
    (bindings : List Binding) (j : Nat) : (m.letFrame kind i bindings).chain.frame? j =
      if j = m.chain.size then
        some { kind, parent := some i, lets := declareIn [] bindings }
      else m.chain.frame? j := by
  simp only [letFrame, onChain, Chain.frame?_update, Chain.frame?_push]
  split <;> rfl

theorem Machine.frame?_letFrame_top (m : Machine) (kind : FrameKind) (i : Nat)
    (bindings : List Binding) : (m.letFrame kind i bindings).chain.frame? m.chain.size =
      some { kind, parent := some i, lets := declareIn [] bindings } := by
  rw [frame?_letFrame, if_pos rfl]

/-! ## Computing let-bindings -/

namespace Evaluation
variable {r : Runner} {b : Binding} {i : Nat} {m : Machine}

/-- The machine that remembers the configuration of a binding. -/
def settled (b : Binding) (config : BindingConfig) (m : Machine) : Machine :=
  { m with configs := Assoc.insert m.configs b.id config }

theorem letConfig_known {config : BindingConfig} (known : Assoc.get? m.configs b.id = some config) :
    letConfig r b i m = (.ok config, m) := by
  rw [letConfig, Eval.get_bind, known]
  rfl

theorem letConfig_default (fresh : Assoc.get? m.configs b.id = none) (plain : b.config = none) :
    letConfig r b i m =
      (.ok ⟨m.settings.reset, m.settings.timing, Overrides.none⟩,
        settled b ⟨m.settings.reset, m.settings.timing, Overrides.none⟩ m) := by
  rw [letConfig, Eval.get_bind, fresh, plain]
  rfl

/-- Settles the configuration that a value describes. -/
def settle (b : Binding) (v : Evaluated) : Eval BindingConfig := fun m =>
  match configOf m.settings v.value with
  | .ok config => (.ok config, settled b config m)
  | .error e => (.error (.fault e.toFault), m)

theorem settle_eq (b : Binding) : (fun v : Evaluated => do
    let config ← Eval.ofExcept
      ((configOf (← get).settings v.value).mapError OptionError.toFault)
    modify fun m => { m with configs := Assoc.insert m.configs b.id config }
    return config) = settle b := by
  funext v m
  change (Eval.ofExcept ((configOf m.settings v.value).mapError OptionError.toFault) >>= _) m = _
  unfold settle
  cases configOf m.settings v.value <;> rfl

theorem letConfig_computed {e : Expr} (fresh : Assoc.get? m.configs b.id = none)
    (given : b.config = some e) : letConfig r b i m = (r e i >>= settle b) m := by
  rw [letConfig, Eval.get_bind, fresh, given, ← settle_eq]

/-- A computed value with the overrides of the configuration, if there are any. -/
def dressed (config : BindingConfig) (v : Evaluated) : Evaluated :=
  if config.overrides.isEmpty then v else { v with overrides := config.overrides }

/-- What is remembered of a binding, or else its computed value, which is then remembered. -/
def memoized (r : Runner) (owner : Nat) (b : Binding) (config : BindingConfig) : Eval Evaluated :=
  fun m =>
    match memo? config.reset owner b m with
    | some v => (.ok v, m)
    | none => (compute r owner b >>= remember owner b config) m
where
  /-- Remembers the value of a binding, with the overrides of its configuration. -/
  remember (owner : Nat) (b : Binding) (config : BindingConfig) (computed : Evaluated) :
      Eval Evaluated := fun m =>
    (.ok (dressed config computed),
      storeMemo config.reset owner b (dressed config computed) m)

theorem memoized_found {config : BindingConfig} {v : Evaluated}
    (found : memo? config.reset i b m = some v) : memoized r i b config m = (.ok v, m) := by
  simp only [memoized, found]

theorem memoized_missing {config : BindingConfig} (missing : memo? config.reset i b m = none) :
    memoized r i b config m = (compute r i b >>= memoized.remember i b config) m := by
  simp only [memoized, missing]

/-- Where nothing is remembered, the value is computed each time. -/
theorem memoized_always (r : Runner) (owner : Nat) (b : Binding) (timing : Timing) :
    memoized r owner b ⟨.always, timing, Overrides.none⟩ = compute r owner b := by
  funext m
  change (compute r owner b >>= memoized.remember owner b _) m = compute r owner b m
  rcases run : compute r owner b m with ⟨_ | v, after⟩
  · exact Eval.bind_error run
  · exact Eval.bind_ok run

theorem force_eq (r : Runner) (owner : Nat) (b : Binding) :
    force r owner b = letConfig r b owner >>= memoized r owner b := by
  unfold force
  congr 1
  funext config m
  rw [Eval.get_bind, memoized]
  cases memo? config.reset owner b m <;> rfl

/-- Once the configuration is settled, what is remembered counts. -/
theorem force_settled {owner : Nat} {config : BindingConfig} {n : Machine}
    (settled : letConfig r b owner m = (.ok config, n)) :
    force r owner b m = memoized r owner b config n := by
  rw [force_eq]
  exact Eval.bind_ok settled

theorem prefetch_settled {config : BindingConfig} {n : Machine}
    (settled : letConfig r b i m = (.ok config, n)) :
    prefetch r i b m = (if config.timing = .eager then discard (force r i b) else pure ()) n :=
  Eval.bind_ok settled

/-- What a name stands for, once it is found. -/
theorem nameRef_apply (r : Runner) (name : String) (i : Nat) (m : Machine) :
    nameRef r name i m = match m.chain.resolve? i name with
      | some (.value v) => (.ok v, m)
      | some (.binding owner b) => force r owner b m
      | none => (.ok (.plain .empty), m) := by
  change (match m.chain.resolve? i name with
    | some (.value v) => (pure v : Eval Evaluated)
    | some (.binding owner b) => force r owner b
    | none => pure (.plain .empty)) m = _
  cases m.chain.resolve? i name with
  | none => rfl
  | some resolved => cases resolved <;> rfl

end Evaluation

/-! ## Effects -/

namespace Eval

/-- Keeps the result of a function that is invoked on access. -/
def keepForced (id : Nat) (done : Evaluated) : Eval Evaluated := fun m =>
  (.ok done, { m with forced := Assoc.insert m.forced id done })

theorem once_apply (id : Nat) (x : Eval Evaluated) (m : Machine) :
    once id x m = match Assoc.get? m.forced id with
      | some done => (.ok done, m)
      | none => (x >>= keepForced id) m := by
  change (match Assoc.get? m.forced id with
    | some done => (pure done : Eval Evaluated)
    | none => _) m = _
  cases Assoc.get? m.forced id <;> rfl

theorem deliver_apply (component : String) (v : Value) (m : Machine) :
    deliver component v m = match Assoc.get? m.outlets component with
      | none => (.error (.fault (LoadError.unknownComponent component).toFault), m)
      | some outlet =>
        ((m.deliver outlet v).1.mapError fun e => .fault e.toFault, (m.deliver outlet v).2) := by
  change (match Assoc.get? m.outlets component with
    | none => (fail (LoadError.unknownComponent component).toFault : Eval Value)
    | some outlet => _) m = _
  cases Assoc.get? m.outlets component with
  | none => rfl
  | some outlet =>
      rcases delivered : m.deliver outlet v with ⟨answer, after⟩
      simp only [delivered]
      cases answer <;> rfl

end Eval

namespace Evaluation

theorem withStore_apply {α : Type}
    (operation : Nat → Store.Backend → Except StoreError α × Store.Backend) (library name : String)
    (m : Machine) : withStore operation library name m = match m.store with
      | none => (.error (.fault
          ((Fault.of .component "no state store configured").withCode "NO_STATE_STORE")), m)
      | some s =>
        ((operation s.attempts s.backend).1.mapError fun e =>
            .fault ((Library.CallError.store e).toFault library name),
          { m with store := some { s with backend := (operation s.attempts s.backend).2 } }) := by
  change (match m.store with
    | none => (Eval.fail
        ((Fault.of .component "no state store configured").withCode "NO_STATE_STORE") : Eval α)
    | some s => _) m = _
  cases m.store with
  | none => rfl
  | some s =>
      rcases run : operation s.attempts s.backend with ⟨result, backend⟩
      simp only [run]
      cases result <;> rfl

theorem markHandled_apply (i : Nat) (flag : Bool) (m : Machine) :
    markHandled i flag m = match m.chain.nearest? i .handler with
      | none => (.error (.fault ((Fault.of .function "called outside of an exception handler").inFunction
          "error" "handled")), m)
      | some j => (.ok (.bool flag), m.onChain fun c => c.setHandled j flag) := by
  change (match m.chain.nearest? i .handler with
    | none => (Eval.fail ((Fault.of .function "called outside of an exception handler").inFunction
        "error" "handled") : Eval Value)
    | some j => _) m = _
  cases m.chain.nearest? i .handler <;> rfl

end Evaluation

end TreeQuery
