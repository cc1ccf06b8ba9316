import TreeQuery.Value.Basic

/-!
# Memo slots

A slot that is computed when it is first needed, and keeps the result until it is reset. A
computation that fails leaves the slot as it was.
-/

set_option autoImplicit false

namespace TreeQuery

structure Memo where
  value : Option Evaluated := none

namespace Memo

def isReady (s : Memo) : Bool :=
  s.value.isSome

/-- The kept value, or the result of the computation, which is then kept. -/
def force {ε : Type} (s : Memo) (compute : Unit → Except ε Evaluated) :
    Except ε Evaluated × Memo :=
  match s.value with
  | some v => (.ok v, s)
  | none => match compute () with
    | .ok v => (.ok v, ⟨some v⟩)
    | .error e => (.error e, s)

def reset (_ : Memo) : Memo :=
  {}

end Memo

end TreeQuery
