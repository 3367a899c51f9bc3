import Rollup.Histogram.Scale
import Rollup.SortedMap

namespace Rollup

/-- How often each number was counted. Numbers that were not counted are
left out, so equal counts make equal tallies. Counts have no bound, as the two
of `Sums` have none. -/
structure Tally where
  counts : SortedMap Nat Nat
  positive : ∀ e ∈ counts.entries, 0 < e.2
deriving DecidableEq

namespace Tally

def empty : Tally := ⟨.empty, fun _ member => nomatch member⟩

def count (t : Tally) (i : Nat) : Nat := (t.counts.find? i).getD 0

/-- Sets one count. A count of zero takes the number out. -/
def set (t : Tally) (i n : Nat) : Tally :=
  if zero : n = 0 then
    ⟨t.counts.erase i, fun e member => t.positive e (List.mem_filter.mp member).1⟩
  else
    ⟨t.counts.insert i n, fun e member => by
      rcases SortedMap.mem_insertEntry member with rfl | old
      · exact Nat.pos_of_ne_zero zero
      · exact t.positive e old⟩

def add (t : Tally) (i n : Nat) : Tally := t.set i (t.count i + n)

/-- Takes `n` counts of `i` back, if there are that many. -/
def sub? (t : Tally) (i n : Nat) : Option Tally :=
  if n ≤ t.count i then some (t.set i (t.count i - n)) else none

def total (t : Tally) : Nat := t.counts.values.foldr (· + ·) 0

theorem total_set (t : Tally) (i n : Nat) : (t.set i n).total + t.count i = t.total + n := by
  unfold set
  split
  · rename_i zero
    rw [zero]
    exact SortedMap.sum_erase t.counts.sorted i
  · exact SortedMap.sum_insertEntry t.counts.sorted i n

theorem total_add (t : Tally) (i n : Nat) : (t.add i n).total = t.total + n := by
  have both := t.total_set i (t.count i + n)
  unfold add
  omega

theorem total_of_sub? {t left : Tally} {i n : Nat} (taken : t.sub? i n = some left) : left.total = t.total - n := by
  have both := t.total_set i (t.count i - n)
  unfold sub? at taken
  split at taken
  · cases taken
    omega
  · cases taken

/-- The first number whose count, together with those of all smaller
numbers, reaches `rank`. -/
def atRank? (rank : Nat) : List (Nat × Nat) → Option Nat
  | [] => none
  | (i, n) :: rest => if rank ≤ n then some i else atRank? (rank - n) rest

end Tally

/-- A number of equal observations of a duration. -/
structure Sample where
  value : Duration
  weight : Nat
deriving DecidableEq

/-- Observed durations, counted by the cells of a scale, and how many there are
in all. -/
structure Histogram where
  scale : Scale
  tally : Tally
  total : Nat
  total_eq : total = tally.total
deriving DecidableEq

namespace Histogram

def empty (scale : Scale) : Histogram := ⟨scale, .empty, 0, rfl⟩

def isEmpty (h : Histogram) : Bool := h.total == 0

def count (h : Histogram) (cell : Nat) : Nat := h.tally.count cell

/-- Counts the observations of a sample in their cell. -/
def observe (h : Histogram) (sample : Sample) : Histogram where
  scale := h.scale
  tally := h.tally.add (h.scale.cellOf sample.value) sample.weight
  total := h.total + sample.weight
  total_eq := by rw [h.total_eq, Tally.total_add]

/-- Takes observations back, unless fewer are there. -/
def forget? (h : Histogram) (sample : Sample) : Option Histogram :=
  match taken : h.tally.sub? (h.scale.cellOf sample.value) sample.weight with
  | none => none
  | some tally => some {
    scale := h.scale
    tally
    total := h.total - sample.weight
    total_eq := by rw [h.total_eq, Tally.total_of_sub? taken] }

def observeAll (h : Histogram) (samples : List Sample) : Histogram := samples.foldl observe h

/-- Takes all samples back one after the other, or none of them. -/
def forgetAll? (h : Histogram) (samples : List Sample) : Option Histogram := samples.foldlM forget? h

/-- Takes observations back in place, and tells whether it did. If fewer are
there nothing changes. -/
def forget (h : Histogram) (sample : Sample) : Histogram × Bool :=
  match h.forget? sample with
  | some left => (left, true)
  | none => (h, false)

/-- Goes on taking samples back in place once the `taken` ones are out. At the
first that isn't there those are put back. -/
def forgetOn (h : Histogram) (taken : List Sample) : List Sample → Histogram × Bool
  | [] => (h, true)
  | sample :: rest =>
    match h.forget sample with
    | (left, true) => left.forgetOn (taken ++ [sample]) rest
    | (left, false) => (left.observeAll taken, false)

/-- Takes all samples back in place, and tells whether it did. -/
def forgetAll (h : Histogram) (samples : List Sample) : Histogram × Bool := h.forgetOn [] samples

/-- The cells that hold observations, in order, with their counts. -/
def cells (h : Histogram) : List (Nat × Nat) := h.tally.counts.entries

/-- The upper edge of the cell with the observation of that rank, counted
from one in order of duration; the nearest rank where there is none. -/
def valueAtRank (h : Histogram) (rank : Nat) : Duration :=
  if h.total = 0 then 0
  else match Tally.atRank? (max 1 (min rank h.total)) h.cells with
    | some cell => (h.scale.range cell).2
    | none => h.scale.top

/-- A share of the observations as a rank: the next whole number above it.
A share outside of zero to a hundred counts as the nearer of the two, and
one that is no number as rank zero. -/
def percentileRank (percentile : Float) (total : Nat) : Nat :=
  let share := percentile / 100
  let share := if share < 0 then 0 else share
  let share := if share > 1 then 1 else share
  (share * Float.ofNat total).ceil.toUInt64.toNat

def percentile (h : Histogram) (p : Float) : Duration := h.valueAtRank (percentileRank p h.total)

def median (h : Histogram) : Duration := h.percentile 50

end Histogram

end Rollup
