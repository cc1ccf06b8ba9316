import TreeQuery.Value.Basic

/-!
# The chain of frames

Evaluation runs in frames. A frame belongs to one construct of the program, knows the frame it is
nested in by position, and holds named values, declared let-bindings with their memos, the cursor
and, for the frame of a handler, whether the error counts as handled. What is not found in a frame
is looked up in the frame it is nested in.
-/

set_option autoImplicit false

namespace TreeQuery

inductive FrameKind where
  /-- The outermost frame of one evaluation. -/
  | query
  | scope
  | letIn
  /-- The computation of one let-binding. -/
  | binding
  | function
  | select
  /-- The body of a handler. -/
  | handler
  /-- One round of a loop. -/
  | loop
  deriving DecidableEq, Repr

namespace FrameKind

def all : List FrameKind :=
  [query, scope, letIn, binding, function, select, handler, loop]

def name : FrameKind → String
  | .query => "from"
  | .scope => "scope"
  | .letIn => "let"
  | .binding => "binding"
  | .function => "function"
  | .select => "select"
  | .handler => "exception"
  | .loop => "loop"

def ofName? (s : String) : Option FrameKind :=
  all.find? fun k => k.name == s

end FrameKind

/-- A declared let-binding and the value that was computed for it, if any. -/
structure LetSlot where
  binding : Binding
  memo : Option Evaluated := none

structure Frame where
  kind : FrameKind
  parent : Option Nat
  values : Assoc String Evaluated := []
  lets : Assoc String LetSlot := []
  handled : Bool := false
  cursor : Option Address := none

/-- What a name stands for. -/
inductive Resolved where
  | value (v : Evaluated)
  /-- A let-binding that the frame at this position declares. -/
  | binding (owner : Nat) (b : Binding)

/-- The live frames; a frame is known by its position. -/
structure Chain where
  frames : Array Frame := #[]

namespace Chain

/-- The name under which the current value is kept. -/
def currentName : String := "@"

/-- The name of the error in the body of a handler. -/
def errorName : String := "error"

/-- The name of the result so far in an aggregate. -/
def accumulatorName : String := "acc"

def size (c : Chain) : Nat :=
  c.frames.size

def frame? (c : Chain) (i : Nat) : Option Frame :=
  c.frames[i]?

/-- Adds a frame; its position is the size before. -/
def push (c : Chain) (kind : FrameKind) (parent : Option Nat) : Chain :=
  ⟨c.frames.push { kind, parent }⟩

/-- Drops the frames from a position on. -/
def truncate (c : Chain) (n : Nat) : Chain :=
  ⟨c.frames.take n⟩

/-- The last frame and the chain without it. -/
def pop? (c : Chain) : Option (Frame × Chain) :=
  c.frames.back?.map (·, ⟨c.frames.pop⟩)

/-- Changes the frame at a position, if there is one. -/
def update (c : Chain) (i : Nat) (f : Frame → Frame) : Chain :=
  ⟨c.frames.modify i f⟩

def parent? (c : Chain) (i : Nat) : Option Nat :=
  (c.frame? i).bind Frame.parent

/-- The position and those it is nested in; the fuel bounds their number. -/
def outward (c : Chain) : Nat → Nat → List Nat
  | 0, _ => []
  | fuel + 1, i => i :: match c.parent? i with
    | some p => outward c fuel p
    | none => []

/-- A live position and those it is nested in, from the inside out. -/
def ancestors (c : Chain) (i : Nat) : List Nat :=
  match c.frame? i with
  | some _ => c.outward (c.size + 1) i
  | none => []

/-- The first frame from the inside out in which something is found. -/
def search {α : Type} (c : Chain) (i : Nat) (find : Nat → Frame → Option α) : Option α :=
  (c.ancestors i).findSome? fun j => (c.frame? j).bind (find j)

/-! ## Values -/

def setValue (c : Chain) (i : Nat) (name : String) (v : Evaluated) : Chain :=
  c.update i fun f => { f with values := Assoc.insert f.values name v }

def setCurrent (c : Chain) (i : Nat) (v : Evaluated) : Chain :=
  c.setValue i currentName v

/-- A named value, from the inside out. -/
def lookup? (c : Chain) (i : Nat) (name : String) : Option Evaluated :=
  c.search i fun _ f => Assoc.get? f.values name

/-- The nearest current value; empty if there is none. -/
def current (c : Chain) (i : Nat) : Evaluated :=
  (c.lookup? i currentName).getD (.plain .empty)

/-- A named value or let-binding. The innermost frame that has either decides, and in one frame a
value hides a let-binding. -/
def resolve? (c : Chain) (i : Nat) (name : String) : Option Resolved :=
  c.search i fun j f =>
    match Assoc.get? f.values name with
    | some v => some (.value v)
    | none => (Assoc.get? f.lets name).map fun slot => .binding j slot.binding

/-- Adds the values whose names are not taken yet. -/
def addHidden (seen : Assoc String Evaluated) (more : Assoc String Evaluated) :
    Assoc String Evaluated :=
  more.foldl (fun acc entry =>
    if Assoc.contains acc entry.1 then acc else acc ++ [entry]) seen

/-- All named values in sight, inner ones hiding outer ones. -/
def visible (c : Chain) (i : Nat) : Assoc String Evaluated :=
  (c.ancestors i).foldl (fun acc j =>
    match c.frame? j with
    | some f => addHidden acc f.values
    | none => acc) []

/-! ## Let-bindings -/

/-- Declares a let-binding without a memo; an earlier one of the same name is replaced. -/
def declare (c : Chain) (i : Nat) (b : Binding) : Chain :=
  c.update i fun f => { f with lets := Assoc.insert f.lets b.name { binding := b } }

def memo? (c : Chain) (i : Nat) (name : String) : Option Evaluated :=
  (c.frame? i).bind fun f => (Assoc.get? f.lets name).bind LetSlot.memo

/-- Remembers the value of a declared let-binding. -/
def storeMemo (c : Chain) (i : Nat) (name : String) (v : Evaluated) : Chain :=
  c.update i fun f =>
    { f with lets := Assoc.modify f.lets name fun slot => { slot with memo := some v } }

/-! ## Cursor and handlers -/

/-- The nearest cursor. -/
def cursor? (c : Chain) (i : Nat) : Option Address :=
  c.search i fun _ f => f.cursor

def setCursor (c : Chain) (i : Nat) (a : Address) : Chain :=
  c.update i fun f => { f with cursor := some a }

/-- The nearest position of a kind, the given one included. -/
def nearest? (c : Chain) (i : Nat) (kind : FrameKind) : Option Nat :=
  c.search i fun j f => if f.kind = kind then some j else none

def setHandled (c : Chain) (i : Nat) (handled : Bool) : Chain :=
  c.update i fun f => { f with handled }

def isHandled (c : Chain) (i : Nat) : Bool :=
  ((c.frame? i).map Frame.handled).getD false

end Chain

end TreeQuery
