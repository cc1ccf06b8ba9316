import TreeQuery.Text.Alphanumeric
import TreeQuery.Text.Quoted

/-!
# Steps of an address

An address into a tree of objects and arrays is a list of steps, each a key or an index. Its text
starts with a tilde; a key of letters, digits, `_` and `-` is written plain after a dot, any other
key quoted, and an index in brackets.
-/

set_option autoImplicit false

namespace TreeQuery

inductive Step where
  | key (name : String)
  | index (position : Nat)
  deriving DecidableEq, Repr

/-- The quoted and escaped form of a key. -/
def quotedKey (key : String) : String :=
  Text.quote .display key

/-- Whether a key can stand in an address without quotes. -/
def isPlainKey (key : String) : Bool :=
  !key.toList.isEmpty && key.toList.all fun c => Text.isAlphanumeric c || c == '_' || c == '-'

namespace Step

def text : Step → String
  | .key name => "." ++ if isPlainKey name then name else quotedKey name
  | .index position => "[" ++ toString position ++ "]"

end Step

/-- The text of an address. -/
def addressText (steps : List Step) : String :=
  "~" ++ String.join (steps.map Step.text)

end TreeQuery
