import Rollup.Record

namespace Rollup

/-- The timers of all kept requests, oldest first, in a ring of slots. They
are numbered without end: `base` is the number of the oldest one and `head`
its slot, and a run that passes the last slot goes on in the first. -/
structure TimerRing where
  growStep : Nat
  shrinkFactor : Nat
  capacity : Nat
  head : Nat
  base : Nat
  timers : List Timer
deriving DecidableEq

namespace TimerRing

def empty (growStep shrinkFactor : Nat) : TimerRing where
  growStep := max growStep 1
  shrinkFactor := max shrinkFactor 1
  capacity := max growStep 1
  head := 0
  base := 0
  timers := []

def size (ring : TimerRing) : Nat := ring.timers.length

/-- The number that the next timer gets. -/
def next (ring : TimerRing) : Nat := ring.base + ring.size

/-- How many steps of `growStep` slots hold `n` timers. -/
def steps (ring : TimerRing) (n : Nat) : Nat := (n + ring.growStep - 1) / ring.growStep

/-- Makes room for `n` more timers. New slots come in whole steps, and the
timers are laid out from the first slot on. -/
def reserve (ring : TimerRing) (n : Nat) : TimerRing :=
  if ring.size + n ≤ ring.capacity then ring
  else { ring with
    capacity := ring.capacity + ring.steps (ring.size + n - ring.capacity) * ring.growStep
    head := 0 }

/-- Puts timers behind the newest one. -/
def append (ring : TimerRing) (timers : List Timer) : TimerRing := { ring with timers := ring.timers ++ timers }

/-- Gives slots back once more than `shrinkFactor` steps of them are spare. -/
def shrink (ring : TimerRing) : TimerRing :=
  if ring.capacity ≤ ring.growStep ∨ ring.capacity - ring.size ≤ ring.shrinkFactor * ring.growStep then ring
  else { ring with
    capacity := max (ring.steps ring.size) 1 * ring.growStep
    head := 0 }

/-- Drops the timers numbered below `stop`. -/
def dropBelow (ring : TimerRing) (stop : Nat) : TimerRing :=
  let dropped := min (stop - ring.base) ring.size
  shrink { ring with
    head := (ring.head + dropped) % ring.capacity
    base := ring.base + dropped
    timers := ring.timers.drop dropped }

/-- The two runs of slots in use, up to the last slot and from the first. -/
def runs (ring : TimerRing) : List Timer × List Timer :=
  (ring.timers.take (ring.capacity - ring.head), ring.timers.drop (ring.capacity - ring.head))

/-- The part of two runs that a span covers, where `base` is the number of
the first timer. What lies outside of the runs is left out. -/
def cut (runs : List Timer × List Timer) (base : Nat) (span : Span) : List Timer × List Timer :=
  let size := runs.1.length + runs.2.length
  let start := min (span.start - base) size
  let stop := min (start + span.length) size
  if stop ≤ runs.1.length then (runs.1.extract start stop, [])
  else if runs.1.length ≤ start then (runs.2.extract (start - runs.1.length) (stop - runs.1.length), [])
  else (runs.1.drop start, runs.2.take (stop - runs.1.length))

/-- The timers of a span, in order. -/
def read (ring : TimerRing) (span : Span) : List Timer :=
  let (front, back) := cut ring.runs ring.base span
  front ++ back

end TimerRing

end Rollup
