import Rollup.Histogram.Scale
import Rollup.Vocabulary

namespace Rollup

/-- What an operator sets: how long requests are kept, how much room there
is for what, and how reports measure time. -/
structure Settings where
  retentionSecs : Nat := 900
  mergeIntervalMs : Nat := 10
  windowCapacity : Nat := 1000000
  inboxCapacity : Nat := 65536
  timerGrowStep : Nat := 262144
  timerShrinkFactor : Nat := 5
  idleSecs : Option Nat := some 600
  histogramTopMs : Nat := 10000
  histogramCells : Nat := 512
  lanes : Nat := 1
  mostWords : Nat := Vocabulary.widest
  workerName : String := "reqstats-driver"
  name : String := "reqstats"
deriving DecidableEq

namespace Settings

def standard : Settings := {}

/-- Why settings can't be used. -/
inductive Fault
  | zero (field : String)
  | scale (cause : Scale.Unusable)
  | resolution (topMs cells : Nat)
deriving DecidableEq

def Fault.message : Fault → String
  | .zero field => s!"`{field}` must not be zero"
  | .scale cause => "invalid histogram: " ++ cause.message
  | .resolution topMs cells => s!"{cells} histogram buckets over {topMs}ms are narrower than a millisecond"

/-- The longest time that can be set in milliseconds. -/
def longestMs : Nat := 18446744073709551615

def retention (s : Settings) : Duration := Duration.ofSecs s.retentionSecs

def mergeInterval (s : Settings) : Duration := Duration.ofMillis s.mergeIntervalMs

/-- How long a report may go without being asked for; no time at all means
for ever. -/
def idleTimeout (s : Settings) : Option Duration :=
  (s.idleSecs.filter (0 < ·)).map Duration.ofSecs

/-- Filters and report ids speak of whole milliseconds, so cells are not
thinner than that. -/
def checkResolution (topMs cells : Nat) : Except Fault Unit :=
  if topMs < cells then .error (.resolution topMs cells) else .ok ()

/-- The scale of every histogram. -/
def scale (s : Settings) : Except Fault Scale :=
  match Scale.create (Duration.ofMillis s.histogramTopMs) s.histogramCells with
  | .error cause => .error (.scale cause)
  | .ok scale =>
    match checkResolution s.histogramTopMs s.histogramCells with
    | .error fault => .error fault
    | .ok _ => .ok scale

/-- The settings that must not be zero, in the order they are looked at. -/
def positiveFields (s : Settings) : List (String × Nat) := [
  ("retention_secs", s.retentionSecs),
  ("merge_interval_ms", s.mergeIntervalMs),
  ("request_pool_size", s.windowCapacity),
  ("staging_capacity", s.inboxCapacity),
  ("timer_pool_grow_step", s.timerGrowStep),
  ("timer_pool_shrink_factor", s.timerShrinkFactor),
  ("report_parallelism", s.lanes),
  ("max_interned", s.mostWords),
  ("driver_thread_name", s.workerName.utf8ByteSize),
  ("name", s.name.utf8ByteSize)]

/-- Refuses a number or name that is missing, and a scale that is no use. -/
def check (s : Settings) : Except Fault Unit :=
  match s.positiveFields.find? (·.2 = 0) with
  | some (field, _) => .error (.zero field)
  | none =>
    match s.scale with
    | .error fault => .error fault
    | .ok _ => .ok ()

end Settings

end Rollup
