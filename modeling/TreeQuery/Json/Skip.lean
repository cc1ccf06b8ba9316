import TreeQuery.Json.Reader

/-!
# Passing over JSON text

A member that nobody asks for is passed over by its grammar alone: its numbers may be of any size,
its containers may be nested at will and its escapes need not pair up. `parseRecords?` reads a list
of records in this way and keeps the members that are declared.
-/

set_option autoImplicit false

namespace TreeQuery.Json

/-- Passes over a text up to and including its closing quote. -/
def skipText : Reader Unit
  | [] => none
  | '"' :: rest => some ((), rest)
  | '\\' :: 'u' :: a :: b :: c :: d :: rest =>
    match hex4? a b c d with
    | some _ => skipText rest
    | none => none
  | '\\' :: l :: rest =>
    match escaped? l with
    | some _ => skipText rest
    | none => none
  | c :: rest => if c = '\\' ∨ c.toNat < 32 then none else skipText rest

def skipQuoted : Reader Unit
  | '"' :: rest => skipText rest
  | _ => none

def skipNumber : Reader Unit := fun cs => do
  let (_, rest) ← readWhole cs
  let (_, rest) ← readFraction rest
  let (_, rest) ← readExponent rest
  some ((), rest)

/-- Passes over one value; the fuel bounds the nesting. -/
def skipValue : Nat → Reader Unit
  | 0, _ => none
  | fuel + 1, cs =>
    match skipBlank cs with
    | 'n' :: 'u' :: 'l' :: 'l' :: rest => some ((), rest)
    | 't' :: 'r' :: 'u' :: 'e' :: rest => some ((), rest)
    | 'f' :: 'a' :: 'l' :: 's' :: 'e' :: rest => some ((), rest)
    | '"' :: rest => skipText rest
    | '-' :: rest => skipNumber rest
    | '[' :: rest =>
      match skipBlank rest with
      | ']' :: rest => some ((), rest)
      | rest => (readItems (skipValue fuel) rest.length rest).map fun (_, rest) => ((), rest)
    | '\x7b' :: rest =>
      match skipBlank rest with
      | '\x7d' :: rest => some ((), rest)
      | rest =>
        (readMembers skipQuoted (fun _ => skipValue fuel) rest.length rest).map
          fun (_, rest) => ((), rest)
    | rest => skipNumber rest

/-- Reads a declared member and passes over any other. Each level of nesting takes at least one
character, so the length of the text bounds them. -/
def readDeclared (declared : List String) (nesting : Nat) (key : String) : Reader (Option Json) :=
  fun cs =>
    if declared.contains key then (readValue nesting cs).map fun (j, rest) => (some j, rest)
    else (skipValue (cs.length + 1) cs).map fun (_, rest) => (none, rest)

/-- Reads a record, of which an object keeps its declared members. -/
def readRecord (declared : List String) (nesting : Nat) : Reader Json := fun cs =>
  match nesting, skipBlank cs with
  | nesting + 1, '\x7b' :: rest =>
    match skipBlank rest with
    | '\x7d' :: rest => some (.object [], rest)
    | rest =>
      (readMembers readQuoted (readDeclared declared nesting) rest.length rest).map
        fun (members, rest) =>
          (.object (members.filterMap fun (key, j) => j.map (key, ·)), rest)
  | _, _ => readValue nesting cs

/-- Reads an array of records. -/
def readRecords (declared : List String) (nesting : Nat) : Reader (List Json) := fun cs =>
  match nesting, skipBlank cs with
  | nesting + 1, '[' :: rest =>
    match skipBlank rest with
    | ']' :: rest => some ([], rest)
    | rest => readItems (readRecord declared nesting) rest.length rest
  | _, _ => none

/-- The records of a text, each with its declared members. -/
def parseRecords? (declared : List String) (s : String) : Option (List Json) :=
  readAll? (readRecords declared maxNesting) s

end TreeQuery.Json
