import Rollup.Word

namespace Rollup

namespace Word

/-- A sum that has no result when it does not fit, as have the difference and
the product below. -/
def add? (a b : Nat) : Option Nat := if a + b < limit then some (a + b) else none

def sub? (a b : Nat) : Option Nat := if b ≤ a then some (a - b) else none

theorem add?_eq {a b : Nat} (fits : a + b < limit) : add? a b = some (a + b) := if_pos fits

theorem sub?_eq {a b : Nat} (enough : b ≤ a) : sub? a b = some (a - b) := if_pos enough

end Word

end Rollup
