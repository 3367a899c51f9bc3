import Rollup.SortedMap

namespace Rollup

/-- A number that is published for others to watch; it only ever grows. -/
inductive Metric
  | accepted
  | malformed
  | inboxDropped
  | displaced
  | expired
deriving DecidableEq

namespace Metric

def all : List Metric := [.accepted, .malformed, .inboxDropped, .displaced, .expired]

def name : Metric → String
  | .accepted => "reqstats_requests_accepted"
  | .malformed => "reqstats_requests_malformed"
  | .inboxDropped => "reqstats_requests_staging_dropped"
  | .displaced => "reqstats_requests_force_evicted"
  | .expired => "reqstats_requests_expired"

def description : Metric → String
  | .accepted => "Requests moved from staging into the pool"
  | .malformed => "Requests dropped because their arrays didn't agree"
  | .inboxDropped => "Requests dropped from a full staging queue"
  | .displaced => "Requests evicted, or never pooled, because the pool was full"
  | .expired => "Requests that aged out of the retention window"

end Metric

/-- The published numbers by name. One that was never raised is not there. -/
abbrev Recorder := SortedMap String Nat

namespace Recorder

def value (r : Recorder) (metric : Metric) : Nat := (r.find? metric.name).getD 0

def increment (r : Recorder) (metric : Metric) (n : Nat) : Recorder :=
  if n = 0 then r else r.insert metric.name (r.value metric + n)

end Recorder

/-- What happened to requests, and how many reports were torn down, since the
start. -/
structure Counters where
  accepted : Nat := 0
  malformed : Nat := 0
  inboxDropped : Nat := 0
  displaced : Nat := 0
  expired : Nat := 0
  tornDown : Nat := 0
deriving DecidableEq

/-- What one merge did. -/
structure Merge where
  appended : Nat := 0
  malformed : Nat := 0
  expired : Nat := 0
  displaced : Nat := 0
  tornDown : Nat := 0
deriving DecidableEq

def Counters.record (c : Counters) (merge : Merge) : Counters where
  accepted := c.accepted + merge.appended
  malformed := c.malformed + merge.malformed
  inboxDropped := c.inboxDropped
  displaced := c.displaced + merge.displaced
  expired := c.expired + merge.expired
  tornDown := c.tornDown + merge.tornDown

/-- Publishes what a merge did to requests. -/
def Recorder.record (r : Recorder) (merge : Merge) : Recorder :=
  let r := Recorder.increment r .accepted merge.appended
  let r := Recorder.increment r .malformed merge.malformed
  let r := Recorder.increment r .expired merge.expired
  Recorder.increment r .displaced merge.displaced

end Rollup
