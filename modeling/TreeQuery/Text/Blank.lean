/-!
# Blank characters and trimming

A character is blank when it has the Unicode property White_Space. `trim` removes the blanks at
both ends of a text and keeps everything between them.
-/

set_option autoImplicit false

namespace TreeQuery.Text

/-- The property White_Space, which is a fixed set of twenty-five characters. -/
def isBlank (c : Char) : Bool :=
  let n := c.toNat
  (9 ≤ n && n ≤ 13) || n == 0x20 || n == 0x85 || n == 0xA0 || n == 0x1680
    || (0x2000 ≤ n && n ≤ 0x200A) || n == 0x2028 || n == 0x2029 || n == 0x202F || n == 0x205F
    || n == 0x3000

def trimChars (cs : List Char) : List Char :=
  ((cs.dropWhile isBlank).reverse.dropWhile isBlank).reverse

/-- The text without the blanks at either end. -/
def trim (s : String) : String :=
  String.ofList (trimChars s.toList)

end TreeQuery.Text
