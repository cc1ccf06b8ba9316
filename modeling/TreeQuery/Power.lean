/-!
# Powers of two and of ten

The two bases that exact arithmetic on doubles and their decimal texts needs.
-/

set_option autoImplicit false

namespace TreeQuery

def twoTo (n : Nat) : Nat :=
  Nat.pow 2 n

def tenTo (n : Nat) : Nat :=
  Nat.pow 10 n

end TreeQuery
