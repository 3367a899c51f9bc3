import Rollup.Monitor.Counters
import Rollup.Monitor.Inbox
import Rollup.Monitor.Lanes
import Rollup.Roster
import Rollup.Settings
import Rollup.Window

namespace Rollup

/-- The whole state: submissions that wait, the window of kept requests, and
reports that each describe the requests of the window. -/
structure Monitor where
  settings : Settings
  scale : Scale
  inbox : Inbox
  window : Window
  roster : Roster
  counters : Counters
  recorder : Recorder
deriving DecidableEq

namespace Monitor

/-- An empty state with the standard reports, if the settings are fit. -/
def create (settings : Settings) (now : Instant) : Except Settings.Fault Monitor :=
  match settings.check with
  | .error fault => .error fault
  | .ok _ => settings.scale.map fun scale => {
      settings, scale
      inbox := .empty settings.inboxCapacity
      window := .empty settings.windowCapacity settings.timerGrowStep settings.timerShrinkFactor
        settings.mostWords
      roster := .create scale now
      counters := {}
      recorder := .empty }

/-- Takes a submission in. One that has to go for it is counted. -/
def submit (m : Monitor) (s : Submission) : Monitor :=
  let dropped := if m.inbox.isFull then 1 else 0
  { m with
    inbox := m.inbox.push s
    counters := { m.counters with inboxDropped := m.counters.inboxDropped + dropped }
    recorder := Recorder.increment m.recorder .inboxDropped dropped }

def submitAll (m : Monitor) (submissions : List Submission) : Monitor := submissions.foldl submit m

/-- Applies a change to the numbers of every live report, one lane of reports
after the other. -/
def updateReports (m : Monitor) (f : Breakdown → Breakdown) : Monitor :=
  let lanes := Lanes.split m.settings.lanes (m.roster.live.map (·.serial))
  { m with roster := lanes.foldl (fun roster lane => lane.foldl (Roster.update f) roster) m.roster }

/-- Takes the `n` oldest requests out of the reports and out of the window. -/
def evict (m : Monitor) (n : Nat) : Monitor :=
  if n = 0 then m
  else
    let leaving := m.window.oldest n
    let m := m.updateReports (·.removeAll leaving)
    { m with window := m.window.dropOldest n }

/-- How many requests are too old at `now`. When the clock can't name the
moment that retention reaches back to, none is. -/
def expiring (m : Monitor) (now : Instant) : Nat := (now.before? m.settings.retention).elim 0 m.window.countOlder

/-- Appends submissions to a window and counts those it refuses. -/
def appendAll (w : Window) (now : Instant) : List Submission → Window × Nat
  | [] => (w, 0)
  | s :: rest =>
    match w.append s now with
    | .ok (w, _) => appendAll w now rest
    | .error _ =>
      let (w, refused) := appendAll w now rest
      (w, refused + 1)

/-- Brings sound submissions into the window and the reports. More than fit
into the window are lost from the front, and the oldest requests make room
for the others. -/
def absorb (m : Monitor) (now : Instant) (batch : List Submission) : Monitor × Merge :=
  let lost := batch.length - m.window.capacity
  let batch := batch.drop lost
  let room := m.window.capacity - min m.window.size m.window.capacity
  let evicted := batch.length - room
  let m := m.evict evicted
  let (window, refused) := appendAll m.window now batch
  let appended := batch.length - refused
  let arrived := window.fromPosition m.window.size
  let m := { m with window }
  let m := if appended = 0 then m else m.updateReports (·.addAll arrived)
  (m, { appended, malformed := refused, displaced := lost + evicted })

/-- Tears down the reports that nobody asked for in time, and tells how many.
Without a timeout there are none, nor when the clock can't name the moment
that it reaches back to. -/
def tearDownIdle (m : Monitor) (now : Instant) : Monitor × Nat :=
  match m.settings.idleTimeout.bind now.before? with
  | none => (m, 0)
  | some cutoff =>
    let roster := m.roster.retire cutoff
    ({ m with roster }, roster.retired.length - m.roster.retired.length)

def record (m : Monitor) (merge : Merge) : Monitor :=
  { m with counters := m.counters.record merge, recorder := Recorder.record m.recorder merge }

/-- The last part of a merge, with the submissions already taken out of the
inbox: those that are sound come into the window, idle reports go, and all is
counted, `expired` requests that aged out before included. -/
def finishMerge (m : Monitor) (now : Instant) (expired : Nat) (taken : List Submission) : Monitor × Merge :=
  let (sound, faulty) := taken.partition (·.isSound)
  let (m, merge) := m.absorb now sound
  let (m, tornDown) := m.tearDownIdle now
  let merge := { merge with malformed := faulty.length + merge.malformed, expired, tornDown }
  (m.record merge, merge)

/-- Lets old requests go, then brings in the submissions that wait, one
inbox full of them at most. -/
def merge (m : Monitor) (now : Instant) : Monitor × Merge :=
  let expired := m.expiring now
  let m := m.evict expired
  let (taken, inbox) := m.inbox.popMany m.inbox.capacity
  finishMerge { m with inbox } now expired taken

/-- Notes that a client asked for a report. -/
def touch (m : Monitor) (report : Report) (now : Instant) : Monitor × Nat :=
  ({ m with roster := m.roster.modify report.serial (·.touch now) }, report.serial)

/-- The report for a query, by its serial number. It is made if there is none
yet, and then starts with the requests of the window. -/
def ask (m : Monitor) (now : Instant) (q : Query) : Except Query.Fault (Monitor × Nat) :=
  match m.roster.find? q.id with
  | some report => .ok (m.touch report now)
  | none => do
    let grouping ← q.grouping m.window.lexicon.names
    match Breakdown.create grouping q.filter m.scale with
    | .error cause => .error (.filter cause)
    | .ok breakdown =>
      let report := Report.fresh m.roster.nextSerial q (breakdown.addAll m.window.views) now
      return ({ m with roster := m.roster.insert report }, report.serial)

/-- The report of an id. An id that a report goes by is not read at all. -/
def lookup (m : Monitor) (now : Instant) (id : String) : Except Query.Fault (Monitor × Nat) :=
  match m.roster.find? id with
  | some report => .ok (m.touch report now)
  | none =>
    match Query.parse id with
    | .error fault => .error fault
    | .ok q => m.ask now q

def report? (m : Monitor) (serial : Nat) : Option Report := m.roster.bySerial? serial

/-- What a monitor tells about itself. -/
structure Overview where
  counters : Counters
  waiting : Nat
  window : Window.Usage
  standing : Nat
  onDemand : Nat
  interval : Option (Instant × Instant)
deriving DecidableEq

def overview (m : Monitor) : Overview where
  counters := m.counters
  waiting := m.inbox.size
  window := m.window.usage
  standing := m.roster.standing.length
  onDemand := m.roster.onDemand.size
  interval := m.window.interval?

/-- The published numbers, each under its name and that of the engine. -/
def published (m : Monitor) : List (String × Nat) :=
  m.recorder.entries.map fun (name, value) => (name ++ "\x7bengine=" ++ m.settings.name ++ "\x7d", value)

end Monitor

end Rollup
