import Rollup.Histogram
import Rollup.Sums

namespace Rollup

/-- The sums over some requests or timers, and how their durations spread. -/
structure Summary where
  sums : Sums
  histogram : Histogram
deriving DecidableEq

namespace Summary

def empty (scale : Scale) : Summary := ⟨0, .empty scale⟩

def isEmpty (s : Summary) : Bool := s.sums = 0 ∧ s.histogram.isEmpty

def add (s : Summary) (sums : Sums) (samples : List Sample) : Summary :=
  ⟨s.sums + sums, s.histogram.observeAll samples⟩

/-- Takes sums and samples back, all of them or none. -/
def sub? (s : Summary) (sums : Sums) (samples : List Sample) : Option Summary := do
  let left ← s.sums.sub? sums
  let histogram ← s.histogram.forgetAll? samples
  return ⟨left, histogram⟩

/-- The largest weight of one sample. -/
def weightCap : Nat := 4294967295

/-- One sample for each cell in use, at the start of the cell. A count that
is larger than a weight can be is cut to the largest weight. -/
def cellSamples (s : Summary) : List Sample :=
  s.histogram.cells.map fun (cell, count) => ⟨(s.histogram.scale.range cell).1, min count weightCap⟩

/-- Takes back all that another summary holds, or nothing. -/
def subAll? (s other : Summary) : Option Summary := s.sub? other.sums other.cellSamples

end Summary

end Rollup
