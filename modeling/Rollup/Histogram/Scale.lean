import Rollup.Duration

namespace Rollup

/-- How durations are sorted into cells: `cells` of equal width cover the
time from zero up to `top`, and the last one also takes all that is longer. -/
structure Scale where
  top : Duration
  cells : Nat
deriving DecidableEq

namespace Scale

/-- No cell at all, or cells thinner than a nanosecond. -/
structure Unusable where
  top : Duration
  cells : Nat
deriving DecidableEq

def Unusable.message (e : Unusable) : String :=
  "can't split " ++ e.top.text ++ " into " ++ Nat.repr e.cells ++ " histogram buckets"

def create (top : Duration) (cells : Nat) : Except Unusable Scale :=
  if cells = 0 ∨ top.val < cells then .error ⟨top, cells⟩ else .ok ⟨top, cells⟩

/-- Ten seconds in 512 cells. -/
def standard : Scale := ⟨Duration.ofSecs 10, 512⟩

def width (s : Scale) : Duration := s.top.share s.cells

/-- The cell that a duration falls into. -/
def cellOf (s : Scale) (d : Duration) : Nat := min (d.val / max s.width.val 1) (s.cells - 1)

/-- The number of different cell numbers that a start is computed from. -/
def cellNumbers : Nat := 4294967296

/-- Where a cell starts. A number past every cell counts from zero again. -/
def startOf? (s : Scale) (cell : Nat) : Option Duration := s.width.times? (cell % cellNumbers)

/-- Where a cell stops; the last one stops where the scale does. -/
def stopOf? (s : Scale) (cell : Nat) : Option Duration :=
  if s.cells ≤ cell + 1 then some s.top else s.width.times? (cell + 1)

/-- The durations of a cell, from its start to just before its end. There is
no answer for numbers so large that the start is no duration. -/
def range? (s : Scale) (cell : Nat) : Option (Duration × Duration) := do
  let start ← s.startOf? cell
  let stop ← s.stopOf? cell
  return (start, stop)

/-- The range of one of the scale's own cells, all of which have one. -/
def range (s : Scale) (cell : Nat) : Duration × Duration := (s.range? cell).getD (s.top, s.top)

/-- Told to callers who ask for the range of a cell that has none. -/
def overflowMessage : String := "overflow when multiplying duration by scalar"

end Scale

end Rollup
