import Rollup.Key
import Rollup.Record
import Rollup.Summary

namespace Rollup

/-- What one request, or one timer of it, adds to a bucket. -/
structure Contribution where
  sums : Sums
  samples : List Sample
deriving DecidableEq

namespace Contribution

/-- Two contributions of the same request to the same bucket, as one. The
request still counts once. -/
def merge (a b : Contribution) : Contribution where
  sums := { a.sums + b.sums with count := max a.sums.count b.sums.count }
  samples := a.samples ++ b.samples

/-- A whole request: one hit, and its time as the one observation. -/
def ofRequest (r : Record) : Contribution where
  sums := {
    count := 1
    hits := 1
    time := r.time
    userTime := r.userTime
    systemTime := r.systemTime
    documentSize := r.documentSize
    memoryFootprint := r.memoryFootprint }
  samples := [⟨r.time, 1⟩]

/-- One timer: an observation of an equal share of its value for each hit. A
timer that says it was never hit counts as hit once. -/
def ofTimer (t : Timer) : Contribution :=
  let hits := max t.hits 1
  { sums := {
      count := 1
      hits
      time := t.value
      userTime := t.userTime
      systemTime := t.systemTime
      documentSize := 0
      memoryFootprint := 0 }
    samples := [⟨t.value.share hits, hits⟩] }

end Contribution

/-- Which tags a grouping looks at. -/
inductive TagSource
  | timers
  | request
deriving DecidableEq

/-- What a grouping by tags keeps apart besides the values of the tags. -/
inductive Scope
  | everywhere
  | perScript
  | perScriptHostServer
  | perHost
deriving DecidableEq

/-- How a report assigns requests, or their timers, to buckets. -/
inductive Grouping
  | totals
  | byAttributes (attributes : List Attribute)
  | byTags (source : TagSource) (names : List Nat) (scope : Scope)
deriving DecidableEq

namespace Grouping

/-- Why a grouping can't be used. -/
inductive Fault
  | noAttributes
  | noTags
  | tooManyTags (got : Nat)
  | duplicateTag (position : Nat)
deriving DecidableEq

def mostTags : Nat := 8

def Fault.message : Fault → String
  | .noAttributes => "grouping needs at least one attribute"
  | .noTags => "tag grouping needs at least one tag"
  | .tooManyTags got => s!"{got} tags requested, at most {mostTags} supported"
  | .duplicateTag position => s!"tag `#{position}` listed twice"

/-- The position of the first tag that also stands further left. -/
def firstRepeat? (names : List Nat) : Option Nat :=
  (List.range names.length).find? fun i => (names[i]?).any (names.take i).contains

def ofAttributes (attributes : List Attribute) : Except Fault Grouping :=
  if attributes.isEmpty then .error .noAttributes else .ok (.byAttributes attributes)

/-- Between one and eight different tags. -/
def ofTags (source : TagSource) (names : List Nat) (scope : Scope) : Except Fault Grouping :=
  if names.isEmpty then .error .noTags
  else if mostTags < names.length then .error (.tooManyTags names.length)
  else match firstRepeat? names with
    | some position => .error (.duplicateTag position)
    | none => .ok (.byTags source names scope)

/-- Whether buckets lie in groups, by script or by host. -/
def nested : Grouping → Bool
  | .totals => false
  | .byAttributes _ => false
  | .byTags _ _ scope => scope ≠ .everywhere

/-- The key of the bucket for some tag values, in the scope of a request. -/
def Scope.key (scope : Scope) (r : Record) (values : List String) : BucketKey :=
  match scope with
  | .everywhere => .flat (Key.ofComponents values)
  | .perScript => .nested (Key.ofComponents [r.script]) (Key.ofComponents values)
  | .perScriptHostServer =>
    .nested (Key.ofComponents [r.script]) (Key.ofComponents (r.host :: r.server :: values))
  | .perHost => .nested (Key.ofComponents [r.host]) (Key.ofComponents values)

/-- The values of all the tags, if every one of them is there. -/
def tagValues? (v : View) (tags : List Tag) (names : List Nat) : Option (List String) :=
  names.mapM fun name => (Tag.lookup? tags name).map v.lexicon.values.wordD

/-- What a request adds to which buckets, in the order of its timers. A
request or timer that lacks one of the tags adds nothing. -/
def contributions (v : View) : Grouping → List (BucketKey × Contribution)
  | .totals => []
  | .byAttributes attributes =>
    [(.flat (Key.ofComponents (attributes.map v.record.attributeText)), .ofRequest v.record)]
  | .byTags .request names scope =>
    match tagValues? v v.record.tags names with
    | none => []
    | some values => [(Scope.key scope v.record values, .ofRequest v.record)]
  | .byTags .timers names scope =>
    v.timers.filterMap fun timer =>
      (tagValues? v timer.tags names).map fun values => (Scope.key scope v.record values, .ofTimer timer)

end Grouping

end Rollup
