import TreeQuery.Evaluate

/-!
# Feeding a program

A context joins a program with a machine and counts its runs. A feed runs the program on a fixed list
of values, a number of times over. Outcomes go to the sink of the context, if it has one, whether
they are values or errors; an error does not end the feed.
-/

set_option autoImplicit false

namespace TreeQuery

/-- A program on a machine. The sink holds what was delivered, in order. -/
structure Context where
  program : Program
  machine : Machine
  runs : Nat := 0
  sink : Option (List (Except Fault Value)) := none

namespace Context

/-- Evaluates the program on an input and delivers the outcome. -/
def run (c : Context) (input : Value) : Except Fault Value × Context :=
  match c.machine.evaluate c.program input with
  | (outcome, machine) =>
    (outcome, { c with
      machine
      runs := c.runs + 1
      sink := c.sink.map (· ++ [outcome]) })

end Context

structure Feed where
  values : List Value := []
  rounds : Nat := 1
  running : Bool := false

namespace Feed

/-- Reads the options `values` and `repeat`. The number of rounds is set before the values are
looked at. -/
def configure (f : Feed) (options : Value) : Except OptionError Unit × Feed :=
  let rounds := do
    let o ← Options.ofValue options
    o.only ["values", "repeat"]
    let rounds ← o.integer "repeat" 1 1000 1
    .ok (o, rounds.toNat)
  match rounds with
  | .error e => (.error e, f)
  | .ok (o, rounds) =>
    let f := { f with rounds }
    match o.array? "values" with
    | .error e => (.error e, f)
    | .ok none => (.ok (), f)
    | .ok (some values) => (.ok (), { f with values })

/-- Runs the program on values, one after the other, unless the feed has stopped; and tells whether
it came to the end of them. -/
def pass (f : Feed) : List Value → Context → Bool × Context
  | [], c => (true, c)
  | v :: rest, c => if f.running then f.pass rest (c.run v).2 else (false, c)

/-- Passes over all values, up to the first that does not come to the end. -/
def passes (f : Feed) : Nat → Context → Context
  | 0, c => c
  | n + 1, c => match f.pass f.values c with
    | (true, c) => f.passes n c
    | (false, c) => c

/-- Runs the program on all values in each round; the feed is not running afterwards. -/
def start (f : Feed) (c : Context) : Feed × Context :=
  let f := { f with running := true }
  ({ f with running := false }, f.passes f.rounds c)

def stop (f : Feed) : Feed :=
  { f with running := false }

end Feed

end TreeQuery
