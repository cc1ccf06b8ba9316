import TreeQuery.Proofs.Translation.Chains

/-!
# Machines without handlers

`Machine.erase` takes the handlers out of all that a machine holds: out of the let-bindings that its
frames declare and out of the functions in its values, memos, configurations, buffers and streams.
Every identity stays. What a computation reads off a machine and what it does to one commutes with
this, as it does with any translation.
-/

set_option autoImplicit false

namespace TreeQuery

/-- The translation that takes the handlers out of functions. -/
abbrev Translation.erasing : Translation := .trimming false

def LetSlot.erase (s : LetSlot) : LetSlot :=
  ⟨s.binding.trim false, s.memo.map (Evaluated.translate .erasing)⟩

def Frame.erase (f : Frame) : Frame :=
  { f with
    values := Assoc.mapValues (Evaluated.translate .erasing) f.values
    lets := Assoc.mapValues LetSlot.erase f.lets
    cursor := f.cursor.map (Address.translate .erasing) }

def Chain.erase (c : Chain) : Chain :=
  ⟨c.frames.map Frame.erase⟩

def Machine.erase (m : Machine) : Machine :=
  { m with
    chain := m.chain.erase
    configs := Assoc.mapValues (BindingConfig.translate .erasing) m.configs
    persistent := Assoc.mapValues (Evaluated.translate .erasing) m.persistent
    perQuery := Assoc.mapValues (Evaluated.translate .erasing) m.perQuery
    buffers := Assoc.mapValues (List.map (Value.translate .erasing)) m.buffers
    forced := Assoc.mapValues (Evaluated.translate .erasing) m.forced
    streams := Assoc.mapValues (List.map (Value.translate .erasing)) m.streams }

def Resolved.erase : Resolved → Resolved
  | .value v => .value (v.translate .erasing)
  | .binding owner b => .binding owner (b.trim false)

/-- Erasing goes through the frames like any translation. -/
theorem Chain.erase_eq (c : Chain) : c.erase = c.under (Binding.trim false) .erasing := rfl

namespace Chain

@[simp] theorem size_erase (c : Chain) : c.erase.size = c.size :=
  c.size_under _ _

theorem current_erase (c : Chain) (i : Nat) :
    c.erase.current i = (c.current i).translate .erasing :=
  c.current_under _ _ i

theorem cursor?_erase (c : Chain) (i : Nat) :
    c.erase.cursor? i = (c.cursor? i).map (Address.translate .erasing) :=
  c.cursor?_under _ _ i

theorem resolve?_erase (c : Chain) (i : Nat) (name : String) :
    c.erase.resolve? i name = (c.resolve? i name).map Resolved.erase := by
  have same : Resolved.erase = Resolved.under (Binding.trim false) .erasing := by
    funext resolved
    cases resolved <;> rfl
  rw [same]
  exact c.resolve?_under _ _ i name

theorem nearest?_erase (c : Chain) (i : Nat) (kind : FrameKind) :
    c.erase.nearest? i kind = c.nearest? i kind :=
  c.nearest?_under _ _ i kind

theorem isHandled_erase (c : Chain) (i : Nat) : c.erase.isHandled i = c.isHandled i :=
  c.isHandled_under _ _ i

theorem visible_erase (c : Chain) (i : Nat) :
    c.erase.visible i = Assoc.mapValues (Evaluated.translate .erasing) (c.visible i) :=
  c.visible_under _ _ i

theorem erase_push (c : Chain) (kind : FrameKind) (parent : Option Nat) :
    (c.push kind parent).erase = c.erase.push kind parent :=
  c.under_push _ _ kind parent

theorem erase_truncate (c : Chain) (n : Nat) : (c.truncate n).erase = c.erase.truncate n :=
  c.under_truncate _ _ n

theorem erase_setValue (c : Chain) (i : Nat) (name : String) (v : Evaluated) :
    (c.setValue i name v).erase = c.erase.setValue i name (v.translate .erasing) :=
  c.under_setValue _ _ i name v

theorem erase_setCursor (c : Chain) (i : Nat) (a : Address) :
    (c.setCursor i a).erase = c.erase.setCursor i (a.translate .erasing) :=
  c.under_setCursor _ _ i a

theorem erase_setHandled (c : Chain) (i : Nat) (flag : Bool) :
    (c.setHandled i flag).erase = c.erase.setHandled i flag :=
  c.under_setHandled _ _ i flag

theorem erase_storeMemo (c : Chain) (i : Nat) (name : String) (v : Evaluated) :
    (c.storeMemo i name v).erase = c.erase.storeMemo i name (v.translate .erasing) :=
  c.under_storeMemo _ _ i name v

end Chain

/-! ## Machines -/

namespace Machine

@[simp] theorem chain_erase (m : Machine) : m.erase.chain = m.chain.erase := rfl

/-- A change to the chain that commutes with erasing does so in the machine. -/
theorem erase_onChain {f f' : Chain → Chain} (commutes : ∀ c : Chain, (f c).erase = f' c.erase)
    (m : Machine) : (m.onChain f).erase = m.erase.onChain f' := by
  simp only [Machine.onChain, Machine.erase, commutes]

theorem erase_push (m : Machine) (kind : FrameKind) (i : Nat) :
    (m.onChain fun c => c.push kind (some i)).erase =
      m.erase.onChain fun c => c.push kind (some i) :=
  erase_onChain (fun c => c.erase_push kind (some i)) m

theorem erase_truncate (m : Machine) (n : Nat) :
    (m.onChain fun c => c.truncate n).erase = m.erase.onChain fun c => c.truncate n :=
  erase_onChain (fun c => c.erase_truncate n) m

theorem stream_erase (m : Machine) (id : Nat) :
    m.erase.stream id = (m.stream id).map (Value.translate .erasing) := by
  simp only [stream, Machine.erase, Assoc.get?_mapValues]
  cases Assoc.get? m.streams id <;> rfl

theorem buffer_erase (m : Machine) (id : Nat) :
    m.erase.buffer id = (m.buffer id).map (Value.translate .erasing) := by
  simp only [buffer, Machine.erase, Assoc.get?_mapValues]
  cases Assoc.get? m.buffers id <;> rfl

theorem deliver_erase (m : Machine) (outlet : Outlet) (v : Value) :
    m.erase.deliver outlet (v.translate .erasing) =
      ((m.deliver outlet v).1.map (Value.translate .erasing), (m.deliver outlet v).2.erase) := by
  rw [deliver, buffer_erase, outlet.component.uniform, deliver]
  simp only [Machine.erase, Assoc.insert_mapValues]

theorem letFrame_erase (m : Machine) (kind : FrameKind) (i : Nat) (bindings : List Binding) :
    m.erase.letFrame kind i (bindings.map (Binding.trim false)) =
      (m.letFrame kind i bindings).erase := by
  have chains := m.chain.letFrame_under (Binding.name_trim false) .erasing kind i bindings
  simp only [letFrame, onChain, erase, Chain.erase_eq, chains]

end Machine

namespace Evaluation

theorem settled_erase (b : Binding) (config : BindingConfig) (m : Machine) :
    settled (b.trim false) (config.translate .erasing) m.erase = (settled b config m).erase := by
  simp only [settled, Machine.erase, Binding.id_trim, Assoc.insert_mapValues]

theorem memo?_erase (reset : ResetPolicy) (owner : Nat) (b : Binding) (m : Machine) :
    memo? reset owner (b.trim false) m.erase =
      (memo? reset owner b m).map (Evaluated.translate .erasing) := by
  cases reset with
  | afterScope =>
      rw [memo?, Binding.name_trim]
      exact m.chain.memo?_under _ _ owner b.name
  | afterQuery =>
      rw [memo?, Binding.id_trim]
      exact Assoc.get?_mapValues _ m.perQuery b.id
  | never =>
      rw [memo?, Binding.id_trim]
      exact Assoc.get?_mapValues _ m.persistent b.id
  | always => rfl

theorem storeMemo_erase (reset : ResetPolicy) (owner : Nat) (b : Binding) (v : Evaluated)
    (m : Machine) : storeMemo reset owner (b.trim false) (v.translate .erasing) m.erase =
      (storeMemo reset owner b v m).erase := by
  cases reset with
  | afterScope =>
      rw [storeMemo, Binding.name_trim]
      exact (Machine.erase_onChain (fun c => c.erase_storeMemo owner b.name v) m).symm
  | afterQuery => simp only [storeMemo, Machine.erase, Binding.id_trim, Assoc.insert_mapValues]
  | never => simp only [storeMemo, Machine.erase, Binding.id_trim, Assoc.insert_mapValues]
  | always => rfl

end Evaluation

end TreeQuery
