import TreeQuery.Bytes.Parsing
import TreeQuery.Settings
import TreeQuery.Value.Interchange

/-!
# Keyed state

A store keeps values under keys across evaluations. Values travel as text: bytes as base64 after the
tag `r`, all others as JSON after the tag `j`. The backend is a map from keys to texts that can be
told to refuse its next operations; a refused operation is tried again up to a number of attempts.
-/

set_option autoImplicit false

namespace TreeQuery

inductive StoreError where
  /-- The backend is out of reach; worth another attempt. -/
  | transient (reason : String)
  | backend (reason : String)
  | codec (key reason : String)
  | exhausted (attempts : Nat) (last : String)
  deriving DecidableEq, Repr

namespace StoreError

def message : StoreError → String
  | .transient reason => "state backend unavailable: " ++ reason
  | .backend reason => "state backend failed: " ++ reason
  | .codec key reason => "malformed stored value for '" ++ key ++ "': " ++ reason
  | .exhausted attempts last => "gave up after " ++ toString attempts ++ " attempts: " ++ last

def code : StoreError → String
  | .transient _ => "TRANSIENT"
  | .backend _ => "BACKEND"
  | .codec _ _ => "CODEC"
  | .exhausted _ _ => "EXHAUSTED"

def toFault (e : StoreError) : Fault :=
  ((Fault.of .component e.message).withCode e.code).withPayload
    (.object [("code", .text e.code)])

end StoreError

namespace Store

/-! ## The stored text -/

def encode : Value → String
  | .bytes b => "r" ++ Bytes.toBase64 b
  | v => "j" ++ v.compactJson

/-- The value of a text stored under a key. -/
def decode (key text : String) : Except StoreError Value :=
  match text.toList with
  | 'r' :: rest =>
    match Bytes.parseBase64 (String.ofList rest) with
    | .ok b => .ok (.bytes b)
    | .error e => .error (.codec key e.message)
  | 'j' :: rest =>
    match Value.parseJson? (String.ofList rest) with
    | some v => .ok v
    | none => .error (.codec key "malformed JSON")
  | c :: _ => .error (.codec key ("unknown tag '" ++ c.toString ++ "'"))
  | [] => .error (.codec key "empty payload")

/-! ## The backend -/

/-- Texts under keys, and how many of the next operations will be refused. -/
structure Backend where
  entries : Assoc String String := []
  failures : Nat := 0

namespace Backend

def failNext (b : Backend) (count : Nat) : Backend :=
  { b with failures := count }

def size (b : Backend) : Nat :=
  b.entries.length

def entry? (b : Backend) (key : String) : Option String :=
  Assoc.get? b.entries key

/-- An operation that is refused while failures are pending. -/
def attempt {α : Type} (operation : Backend → α × Backend) (b : Backend) :
    Except StoreError α × Backend :=
  if b.failures = 0 then
    let (result, after) := operation b
    (.ok result, after)
  else (.error (.transient "connection refused"), { b with failures := b.failures - 1 })

def read (key : String) (b : Backend) : Option String × Backend :=
  (b.entry? key, b)

def write (key text : String) (b : Backend) : Unit × Backend :=
  ((), { b with entries := Assoc.insert b.entries key text })

/-- Tries again after each transient failure, as long as attempts are left. -/
def retrying {α : Type} (operation : Backend → Except StoreError α × Backend) (attempts : Nat) :
    (left : Nat) → (last : String) → Backend → Except StoreError α × Backend
  | 0, last, b => (.error (.exhausted attempts last), b)
  | left + 1, _, b =>
    match operation b with
    | (.error (.transient reason), after) => retrying operation attempts left reason after
    | other => other

/-- At least one attempt is made. -/
def withRetry {α : Type} (attempts : Nat) (operation : Backend → α × Backend) (b : Backend) :
    Except StoreError α × Backend :=
  retrying (attempt operation) (max attempts 1) (max attempts 1) "" b

def set (attempts : Nat) (key : String) (v : Value) (b : Backend) :
    Except StoreError Unit × Backend :=
  withRetry attempts (write key (encode v)) b

/-- The stored value. A key without one gives the default, which is then stored, or empty. -/
def get (attempts : Nat) (key : String) (default : Option Value) (b : Backend) :
    Except StoreError Value × Backend :=
  match withRetry attempts (read key) b with
  | (.error e, after) => (.error e, after)
  | (.ok (some text), after) => (decode key text, after)
  | (.ok none, after) =>
    match default with
    | none => (.ok .empty, after)
    | some v =>
      if v.isEmpty then (.ok .empty, after)
      else match set attempts key v after with
        | (.ok (), after) => (.ok v, after)
        | (.error e, after) => (.error e, after)

end Backend

end Store

/-- A backend and the number of attempts made against it. -/
structure Store where
  backend : Store.Backend := {}
  attempts : Nat

end TreeQuery
