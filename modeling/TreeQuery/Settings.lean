import TreeQuery.Json.Record
import TreeQuery.Options

/-!
# Settings

The settings of an evaluator, and those of retrying against a store that may be out of reach. Both
can be read from JSON, where every member has a default, and are then checked for their ranges.
-/

set_option autoImplicit false

namespace TreeQuery

structure Settings where
  /-- How many evaluations may be nested. -/
  maxDepth : Nat := 302
  /-- The policies of let-bindings that name none. -/
  reset : ResetPolicy := .afterScope
  timing : Timing := .lazy
  deriving DecidableEq

namespace Settings

def validate (s : Settings) : Except OptionError Unit :=
  checkRange "maxDepth" (Float.ofNat s.maxDepth) 1 10000

def ofJson? (j : Json) : Option Settings := do
  let record ← j.record? ["maxDepth", "defaultReset", "defaultEvaluate"]
  let maxDepth ← Json.field? record "maxDepth" (some 302) (Json.natBelow? (twoTo 64))
  let reset ← Json.field? record "defaultReset" (some .afterScope)
    fun j => j.name?.bind ResetPolicy.ofName?
  let timing ← Json.field? record "defaultEvaluate" (some .lazy)
    fun j => j.name?.bind Timing.ofName?
  some { maxDepth, reset, timing }

def parse (text : String) : Except OptionError Settings :=
  match (Json.parse? text).bind ofJson? with
  | none => .error .malformed
  | some s => do
    s.validate
    .ok s

end Settings

/-- A double raised to a whole power by repeated squaring, the lowest bit first; the fuel bounds the
bits. -/
def squaredPower : Nat → Float → Float → Nat → Float
  | 0, acc, _, _ => acc
  | fuel + 1, acc, base, power =>
    let acc := if power % 2 = 1 then acc * base else acc
    if power / 2 = 0 then acc else squaredPower fuel acc (base * base) (power / 2)

/-- A double raised to a power of 32 bits. -/
def wholePower (base : Float) (power : Int32) : Float :=
  let magnitude := squaredPower 33 1.0 base power.toInt.natAbs
  if power < 0 then 1.0 / magnitude else magnitude

/-- How often and after what waits an operation is tried again. Waits are in milliseconds. -/
structure RetryPolicy where
  maxAttempts : Nat := 5
  initialBackoff : Nat := 50
  multiplier : Float := 2.0
  maxBackoff : Nat := 2000

namespace RetryPolicy

/-- Tries again at once. -/
def immediate (maxAttempts : Nat) : RetryPolicy :=
  ⟨maxAttempts, 0, 1.0, 0⟩

def isDefault (p : RetryPolicy) : Bool :=
  let d : RetryPolicy := {}
  p.maxAttempts == d.maxAttempts && p.initialBackoff == d.initialBackoff
    && p.multiplier == d.multiplier && p.maxBackoff == d.maxBackoff

def validate (p : RetryPolicy) : Except OptionError Unit := do
  checkRange "maxAttempts" (Float.ofNat p.maxAttempts) 1 100
  checkRange "multiplier" p.multiplier 1 10

def ofJson? (j : Json) : Option RetryPolicy := do
  let record ← j.record? ["maxAttempts", "initialBackoffMs", "multiplier", "maxBackoffMs"]
  let maxAttempts ← Json.field? record "maxAttempts" (some 5) (Json.natBelow? (twoTo 32))
  let initialBackoff ← Json.field? record "initialBackoffMs" (some 50) (Json.natBelow? (twoTo 64))
  let multiplier ← Json.field? record "multiplier" (some 2.0) Json.float?
  let maxBackoff ← Json.field? record "maxBackoffMs" (some 2000) (Json.natBelow? (twoTo 64))
  some { maxAttempts, initialBackoff, multiplier, maxBackoff }

def parse (text : String) : Except OptionError RetryPolicy :=
  match (Json.parse? text).bind ofJson? with
  | none => .error .malformed
  | some p => do
    p.validate
    .ok p

/-- The wait before a retry, counted from zero: it grows by the multiplier each time, up to the
largest wait. -/
def backoff (p : RetryPolicy) (retry : UInt32) : Nat :=
  let factor := wholePower p.multiplier retry.toInt32
  let wait := Float.ofNat p.initialBackoff * factor
  let cap := Float.ofNat p.maxBackoff
  let capped := if wait.isNaN then cap else if cap < wait then cap else wait
  if 0.0 < capped then capped.toUInt64.toNat else 0

end RetryPolicy

end TreeQuery
