import Rollup.Grouping

namespace Rollup

/-- The requests or timers with one tuple of grouping values. A request
counts once in it, however many of its timers are there. -/
structure Bucket where
  summary : Summary
  values : List String
  lastAdded : Option Nat
  lastRemoved : Option Nat
deriving DecidableEq

namespace Bucket

def fresh (scale : Scale) (values : List String) : Bucket := ⟨.empty scale, values, none, none⟩

def count (b : Bucket) : Nat := b.summary.sums.count

/-- The sums of a contribution by request `id`, where `last` is the request
before it: a second contribution in a row does not count again. -/
def countedOnce (last : Option Nat) (id : Nat) (sums : Sums) : Sums :=
  if last = some id then { sums with count := 0 } else sums

/-- The bucket with a contribution put in, and the sums that went in. -/
def add (b : Bucket) (id : Nat) (c : Contribution) : Bucket × Sums :=
  let sums := countedOnce b.lastAdded id c.sums
  ({ b with summary := b.summary.add sums c.samples, lastAdded := some id }, sums)

/-- The bucket with a contribution taken out, and the sums that came out;
nothing if the bucket does not hold that much. -/
def remove? (b : Bucket) (id : Nat) (c : Contribution) : Option (Bucket × Sums) :=
  let sums := countedOnce b.lastRemoved id c.sums
  (b.summary.sub? sums c.samples).map fun summary =>
    ({ b with summary, lastRemoved := some id }, sums)

end Bucket

end Rollup
