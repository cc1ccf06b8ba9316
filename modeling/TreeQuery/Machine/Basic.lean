import TreeQuery.Component
import TreeQuery.Machine.Chain
import TreeQuery.Store

/-!
# The machine

The state that evaluations share: the chain of frames, what is remembered about let-bindings,
the components with their buffers, the store, what is left in streams, and the results of functions
that were invoked on access. An evaluation is a computation over this state that ends in a value or
a signal; the state it leaves is there in both cases.
-/

set_option autoImplicit false

namespace TreeQuery

/-- The resolved configuration of a let-binding. -/
structure BindingConfig where
  reset : ResetPolicy
  timing : Timing
  overrides : Overrides

/-- A component in place, and the buffer it fills. The buffer outlives the component. -/
structure Outlet where
  component : Component
  buffer : Nat

structure Machine where
  settings : Settings := {}
  chain : Chain := {}
  /-- How many evaluations are under way, one inside the other. -/
  depth : Nat := 0
  /-- Configurations by the identity of the binding. -/
  configs : Assoc Nat BindingConfig := []
  /-- Memos that are kept across evaluations. -/
  persistent : Assoc Nat Evaluated := []
  /-- Memos that are kept to the end of an evaluation. -/
  perQuery : Assoc Nat Evaluated := []
  outlets : Assoc String Outlet := []
  buffers : Assoc Nat (List Value) := []
  store : Option Store := none
  /-- Results of functions that were invoked on access, by the identity of the function. -/
  forced : Assoc Nat Evaluated := []
  /-- What is left in each stream. -/
  streams : Assoc Nat (List Value) := []
  /-- The first identity that is not in use. -/
  nextId : Nat := 0

namespace Machine

def onChain (f : Chain → Chain) (m : Machine) : Machine :=
  { m with chain := f m.chain }

/-- Puts a component in place under a name, with an empty buffer. -/
def install (m : Machine) (name : String) (component : Component) : Machine :=
  { m with
    outlets := Assoc.insert m.outlets name ⟨component, m.nextId⟩
    buffers := Assoc.insert m.buffers m.nextId []
    nextId := m.nextId + 1 }

def buffer (m : Machine) (id : Nat) : List Value :=
  (Assoc.get? m.buffers id).getD []

/-- Gives a value to a component in place, which answers; its buffer takes what the component has
collected then. -/
def deliver (m : Machine) (outlet : Outlet) (v : Value) : Except ComponentError Value × Machine :=
  match outlet.component.produce (m.buffer outlet.buffer) v with
  | (answer, collected) =>
    (answer, { m with buffers := Assoc.insert m.buffers outlet.buffer collected })

/-- The same from outside of programs, where only errors matter. -/
def produce (m : Machine) (outlet : Outlet) (v : Value) : Except ComponentError Unit × Machine :=
  match m.deliver outlet v with
  | (answer, after) => (answer.map fun _ => (), after)

/-- Drops what is kept across evaluations: memos and configurations. -/
def forgetMemos (m : Machine) : Machine :=
  { m with persistent := [], configs := [] }

def stream (m : Machine) (id : Nat) : List Value :=
  (Assoc.get? m.streams id).getD []

end Machine

/-- A computation over the machine. -/
abbrev Eval (α : Type) := ExceptT Signal (StateM Machine) α

namespace Eval

def fail {α : Type} (f : Fault) : Eval α :=
  throw (.fault f)

def ofExcept {α : Type} : Except Fault α → Eval α
  | .ok a => pure a
  | .error f => fail f

/-- Makes the outcome a value, so that signals can be looked at. -/
def attempt {α : Type} (x : Eval α) : Eval (Except Signal α) :=
  fun m => match x m with
    | (outcome, after) => (.ok outcome, after)

def onChain (f : Chain → Chain) : Eval Unit :=
  modify (Machine.onChain f)

def ofChain {α : Type} (f : Chain → α) : Eval α := do
  return f (← get).chain

/-- Runs a computation in a new frame, and drops this frame and all above it whatever the outcome. -/
def within {α : Type} (kind : FrameKind) (parent : Nat) (body : Nat → Eval α) : Eval α :=
  fun m =>
    let i := m.chain.size
    match body i (m.onChain fun c => c.push kind (some parent)) with
    | (outcome, after) => (outcome, after.onChain fun c => c.truncate i)

/-- Counts one more evaluation as under way until the computation ends, whatever the outcome. -/
def deeper {α : Type} (body : Eval α) : Eval α :=
  fun m =>
    match body { m with depth := m.depth + 1 } with
    | (outcome, after) => (outcome, { after with depth := after.depth - 1 })

/-- The result kept for a function that is invoked on access, or else the computed one, which is then
kept. -/
def once (id : Nat) (compute : Eval Evaluated) : Eval Evaluated := do
  match Assoc.get? (← get).forced id with
  | some done => return done
  | none =>
    let done ← compute
    modify fun m => { m with forced := Assoc.insert m.forced id done }
    return done

/-- Hands a value to the component in place under a name, for its answer. -/
def deliver (component : String) (v : Value) : Eval Value := do
  let m ← get
  match Assoc.get? m.outlets component with
  | none => fail (LoadError.unknownComponent component).toFault
  | some outlet =>
    let (answer, after) := m.deliver outlet v
    set after
    match answer with
    | .error e => fail e.toFault
    | .ok w => return w

/-- Takes what is left in a stream. -/
def drain (id : Nat) : Eval (List Value) := do
  let m ← get
  set { m with streams := Assoc.insert m.streams id [] }
  return m.stream id

/-- An identity that was not in use before. -/
def freshId : Eval Nat := do
  let m ← get
  set { m with nextId := m.nextId + 1 }
  return m.nextId

end Eval

end TreeQuery
