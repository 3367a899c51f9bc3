import Rollup.Settings

namespace Rollup.Settings

/-- A value that a setting is never given, by the change that refuses it. -/
inductive Misuse
  | shortRetention
  | mergeInterval (given : Duration)
  | noWindow
  | noInbox
  | noGrowStep
  | noShrinkFactor
  | noCells
  | thinCells (topMs cells : Nat)
  | noLanes
  | noWords
  | noWorkerName
  | noName
deriving DecidableEq

def Misuse.message : Misuse → String
  | .shortRetention => "retention must be at least a second"
  | .mergeInterval given => "merge_interval must be in the range (0, 1 minute), not " ++ given.text
  | .noWindow => "assertion failed: size > 0"
  | .noInbox => "assertion failed: capacity > 0"
  | .noGrowStep => "assertion failed: grow_step > 0"
  | .noShrinkFactor => "assertion failed: shrink_factor > 0"
  | .noCells => "assertion failed: buckets > 0"
  | .thinCells topMs cells => (Fault.resolution topMs cells).message
  | .noLanes => "assertion failed: threads > 0"
  | .noWords => "assertion failed: max > 0"
  | .noWorkerName => "assertion failed: !name.is_empty()"
  | .noName => "assertion failed: !name.is_empty()"

/-- One setting given a new value. -/
inductive Change
  | retention (d : Duration)
  | mergeInterval (d : Duration)
  | windowCapacity (n : Nat)
  | inboxCapacity (n : Nat)
  | timerRing (growStep shrinkFactor : Nat)
  | idleTimeout (d : Option Duration)
  | histogram (top : Duration) (cells : Nat)
  | lanes (n : Nat)
  | mostWords (n : Nat)
  | workerName (name : String)
  | name (name : String)
deriving DecidableEq

/-- Makes a change. Times are kept in whole seconds or milliseconds, and
those that must not be zero are kept as one of them at least. -/
def change (s : Settings) : Change → Except Misuse Settings
  | .retention d =>
    if d < Duration.ofSecs 1 then .error .shortRetention else .ok { s with retentionSecs := d.secs }
  | .mergeInterval d =>
    if 0 < d ∧ d < Duration.ofSecs 60 then .ok { s with mergeIntervalMs := max d.millis 1 }
    else .error (.mergeInterval d)
  | .windowCapacity n => if n = 0 then .error .noWindow else .ok { s with windowCapacity := n }
  | .inboxCapacity n => if n = 0 then .error .noInbox else .ok { s with inboxCapacity := n }
  | .timerRing growStep shrinkFactor =>
    if growStep = 0 then .error .noGrowStep
    else if shrinkFactor = 0 then .error .noShrinkFactor
    else .ok { s with timerGrowStep := growStep, timerShrinkFactor := shrinkFactor }
  | .idleTimeout d => .ok { s with idleSecs := d.map fun d => max d.secs 1 }
  | .histogram top cells =>
    let topMs := min top.millis longestMs
    if cells = 0 then .error .noCells
    else if topMs < cells then .error (.thinCells topMs cells)
    else .ok { s with histogramTopMs := topMs, histogramCells := cells }
  | .lanes n => if n = 0 then .error .noLanes else .ok { s with lanes := n }
  | .mostWords n => if n = 0 then .error .noWords else .ok { s with mostWords := n }
  | .workerName name => if name.isEmpty then .error .noWorkerName else .ok { s with workerName := name }
  | .name name => if name.isEmpty then .error .noName else .ok { s with name }

/-- Makes changes one after the other, up to the first that is refused. -/
def changes (s : Settings) (cs : List Change) : Except Misuse Settings := cs.foldlM change s

end Rollup.Settings
