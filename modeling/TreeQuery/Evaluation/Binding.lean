import TreeQuery.Evaluation.Handler

/-!
# Let-bindings

The configuration of a let-binding is resolved once. Its value is computed in the frame that declares
it, and is remembered as long as its reset policy says.
-/

set_option autoImplicit false

namespace TreeQuery.Evaluation

variable (run : Runner)

def overrideOf (symbol : String) (entry : Value) : Except OptionError Override :=
  match entry.member? "function" with
  | some (.lambda l) => .ok ⟨l, ((entry.member? "cascade").bind Value.bool?).getD false⟩
  | other => .error (.invalidType ("bind." ++ symbol ++ ".function") "a Lambda"
      ((other.map Value.typeName).getD "Empty"))

def overridesOf : List (String × Value) → Except OptionError (List (String × Override))
  | [] => .ok []
  | (symbol, entry) :: rest =>
    if isOverridable symbol then do
      let o ← overrideOf symbol entry
      let others ← overridesOf rest
      .ok ((symbol, o) :: others)
    else .error (.invalidValue "bind" symbol)

/-- An option that names a policy, or the default. -/
def policyOf {α : Type} (o : Options) (option : String) (default : α)
    (ofName? : String → Option α) : Except OptionError α :=
  match o.get? option with
  | none => .ok default
  | some v => match v.text?.bind ofName? with
    | some p => .ok p
    | none => .error (.invalidValue option v.display)

/-- The configuration that a value describes. -/
def configOf (settings : Settings) (v : Value) : Except OptionError BindingConfig := do
  let o ← Options.ofValue v
  o.only ["reset", "evaluate", "bind"]
  let reset ← policyOf o "reset" settings.reset ResetPolicy.ofName?
  let timing ← policyOf o "evaluate" settings.timing Timing.ofName?
  match o.get? "bind" with
  | none => .ok ⟨reset, timing, Overrides.none⟩
  | some (.object entries) => do
    let entries ← overridesOf entries
    .ok ⟨reset, timing, Overrides.ofEntries entries⟩
  | some other => .error (.invalidType "bind" "an Object" other.typeName)

/-- The configuration of a let-binding, resolved the first time it is needed. -/
def letConfig (b : Binding) (frame : Nat) : Eval BindingConfig := do
  match Assoc.get? (← get).configs b.id with
  | some config => return config
  | none =>
    let config ← match b.config with
      | none => do
        let s := (← get).settings
        pure ⟨s.reset, s.timing, Overrides.none⟩
      | some e => do
        let v := (← run e frame).value
        Eval.ofExcept ((configOf (← get).settings v).mapError OptionError.toFault)
    modify fun m => { m with configs := Assoc.insert m.configs b.id config }
    return config

/-- What is remembered of a let-binding under a policy. -/
def memo? (reset : ResetPolicy) (owner : Nat) (b : Binding) (m : Machine) : Option Evaluated :=
  match reset with
  | .afterScope => m.chain.memo? owner b.name
  | .afterQuery => Assoc.get? m.perQuery b.id
  | .never => Assoc.get? m.persistent b.id
  | .always => none

def storeMemo (reset : ResetPolicy) (owner : Nat) (b : Binding) (v : Evaluated) (m : Machine) :
    Machine :=
  match reset with
  | .afterScope => m.onChain fun c => c.storeMemo owner b.name v
  | .afterQuery => { m with perQuery := Assoc.insert m.perQuery b.id v }
  | .never => { m with persistent := Assoc.insert m.persistent b.id v }
  | .always => m

/-- Computes a let-binding in a frame nested in the one that declares it. -/
def compute (owner : Nat) (b : Binding) : Eval Evaluated :=
  run.within .binding owner fun i => guarded run i b.handler (run b.expr i)

/-- The value of a let-binding that the frame `owner` declares: remembered, or computed there and
then remembered. Overrides of the configuration replace those of the value. -/
def force (owner : Nat) (b : Binding) : Eval Evaluated := do
  let config ← letConfig run b owner
  match memo? config.reset owner b (← get) with
  | some v => return v
  | none =>
    let computed ← compute run owner b
    let v : Evaluated :=
      if config.overrides.isEmpty then computed else { computed with overrides := config.overrides }
    modify (storeMemo config.reset owner b v)
    return v

def declareAll (i : Nat) : List Binding → Eval Unit
  | [] => return
  | b :: rest => do
    Eval.onChain fun c => c.declare i b
    declareAll i rest

/-- Computes a binding that is not to wait for its first use. -/
def prefetch (i : Nat) (b : Binding) : Eval Unit := do
  let config ← letConfig run b i
  if config.timing = .eager then discard (force run i b) else return

def forceEager (i : Nat) : List Binding → Eval Unit
  | [] => return
  | b :: rest => do
    prefetch run i b
    forceEager i rest

/-- A scope with let-bindings. A select takes the value with which it is stopped. -/
def letScope (kind : FrameKind) (bindings : List Binding) (body : Expr)
    (handler : Option Handler) (frame : Nat) : Eval Evaluated :=
  run.within kind frame fun i => do
    let outcome ← Eval.attempt (guarded run i handler do
      declareAll i bindings
      forceEager run i bindings
      run body i)
    match outcome with
    | .ok v => return v
    | .error (.stop reason v) =>
      if kind = .select then return .plain v else throw (.stop reason v)
    | .error signal => throw signal

/-! ## Names and navigation -/

def nameRef (name : String) (frame : Nat) : Eval Evaluated := do
  match ← Eval.ofChain fun c => c.resolve? frame name with
  | some (.value v) => return v
  | some (.binding owner b) => force run owner b
  | none => return .plain .empty

end TreeQuery.Evaluation
