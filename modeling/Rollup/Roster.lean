import Rollup.Breakdown
import Rollup.Instant
import Rollup.Query.Id

namespace Rollup

/-- A report that is kept up to date. Its serial number tells it apart from
every other report, also from an earlier one for the same query. -/
structure Report where
  serial : Nat
  query : Query
  breakdown : Breakdown
  created : Instant
  lastAsked : Nat
deriving DecidableEq

namespace Report

def fresh (serial : Nat) (query : Query) (breakdown : Breakdown) (now : Instant) : Report :=
  { serial, query, breakdown, created := now, lastAsked := now.stamp }

def id (r : Report) : String := r.query.id

/-- Notes that a client asked for the report. The note never moves back. -/
def touch (r : Report) (now : Instant) : Report := { r with lastAsked := max r.lastAsked now.stamp }

/-- The latest time that a client asked for the report, or its creation. -/
def askedAt (r : Report) : Instant := ⟨r.lastAsked⟩

def idleSince (r : Report) (cutoff : Instant) : Bool := r.lastAsked < cutoff.stamp

end Report

/-- All reports: the standing ones in their fixed order, those made on demand
by id, and those torn down, which keep the numbers they had then. -/
structure Roster where
  standing : List Report
  onDemand : SortedMap String Report
  retired : List Report
  nextSerial : Nat
deriving DecidableEq

namespace Roster

/-- The standard reports, empty. -/
def create (scale : Scale) (now : Instant) : Roster where
  standing := StandardReport.all.zipIdx.map fun (report, serial) =>
    .fresh serial (.ofStandard report) (.empty report.grouping .any scale) now
  onDemand := .empty
  retired := []
  nextSerial := StandardReport.all.length

/-- The report that is kept up to date under an id. -/
def find? (r : Roster) (id : String) : Option Report :=
  (r.standing.find? (·.id = id)).or (r.onDemand.find? id)

/-- The reports that are kept up to date: the standing ones, then the others
in the order of their ids. -/
def live (r : Roster) : List Report := r.standing ++ r.onDemand.values

/-- The report of a serial number, also if it was torn down. -/
def bySerial? (r : Roster) (serial : Nat) : Option Report := (r.live ++ r.retired).find? (·.serial = serial)

def insert (r : Roster) (report : Report) : Roster :=
  { r with onDemand := r.onDemand.insert report.id report, nextSerial := r.nextSerial + 1 }

/-- Changes the one live report of a serial number. -/
def modify (r : Roster) (serial : Nat) (f : Report → Report) : Roster :=
  let change report := if report.serial = serial then f report else report
  { r with standing := r.standing.map change, onDemand := r.onDemand.mapValues change }

/-- Changes the numbers of one live report. -/
def update (f : Breakdown → Breakdown) (r : Roster) (serial : Nat) : Roster :=
  r.modify serial fun report => { report with breakdown := f report.breakdown }

/-- Tears down the reports made on demand that nobody asked for since
`cutoff`. -/
def retire (r : Roster) (cutoff : Instant) : Roster :=
  { r with
    onDemand := r.onDemand.filter fun _ report => !report.idleSince cutoff
    retired := r.retired ++ r.onDemand.values.filter (·.idleSince cutoff) }

end Roster

end Rollup
