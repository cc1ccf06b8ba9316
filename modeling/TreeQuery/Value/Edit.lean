import TreeQuery.Value.Basic

/-!
# Edits in place

Values are never shared, so an edit of one value cannot be seen in another. Each edit gives none for
a value of the wrong type.
-/

set_option autoImplicit false

namespace TreeQuery.Value

/-- Adds an element at the end of an array. -/
def push? : Value → Value → Option Value
  | .array items, v => some (.array (items ++ [v]))
  | _, _ => none

/-- Sets a member of an object. -/
def insert? : Value → String → Value → Option Value
  | .object fields, key, v => some (.object (Assoc.insert fields key v))
  | _, _, _ => none

/-- Adds bytes at the end of a byte sequence. -/
def appendBytes? : Value → Bytes → Option Value
  | .bytes b, more => some (.bytes (b ++ more))
  | _, _ => none

end TreeQuery.Value
