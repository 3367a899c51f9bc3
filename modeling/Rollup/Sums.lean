import Rollup.Submission

namespace Rollup

/-- What a report adds up over requests or timers. The times and sizes stop at
the largest value of their kind. The two counts have no bound, where words of
64 bits would wrap; `Breakdown.counts_fit_words` tells when they would not. -/
@[ext]
structure Sums where
  count : Nat
  hits : Nat
  time : Duration
  userTime : Duration
  systemTime : Duration
  documentSize : ByteCount
  memoryFootprint : ByteCount
deriving DecidableEq

namespace Sums

instance : Zero Sums := ⟨⟨0, 0, 0, 0, 0, 0, 0⟩⟩

instance : Inhabited Sums := ⟨0⟩

instance : Add Sums := ⟨fun a b => {
  count := a.count + b.count
  hits := a.hits + b.hits
  time := a.time + b.time
  userTime := a.userTime + b.userTime
  systemTime := a.systemTime + b.systemTime
  documentSize := a.documentSize + b.documentSize
  memoryFootprint := a.memoryFootprint + b.memoryFootprint }⟩

/-- What is left of `a` without `b`, if every one of the sums holds that
much. -/
def sub? (a b : Sums) : Option Sums :=
  if b.count ≤ a.count ∧ b.hits ≤ a.hits then do
    let time ← a.time.sub? b.time
    let userTime ← a.userTime.sub? b.userTime
    let systemTime ← a.systemTime.sub? b.systemTime
    let documentSize ← a.documentSize.sub? b.documentSize
    let memoryFootprint ← a.memoryFootprint.sub? b.memoryFootprint
    return {
      count := a.count - b.count
      hits := a.hits - b.hits
      time, userTime, systemTime, documentSize, memoryFootprint }
  else none

end Sums

end Rollup
