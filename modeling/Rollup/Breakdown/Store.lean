import Rollup.Breakdown.Bucket

namespace Rollup

/-- Buckets by their inner key. -/
abbrev Group := SortedMap String Bucket

/-- The buckets of a report: none at all, one group of them, or a group for
each outer key. -/
inductive Store
  | totalsOnly
  | flat (group : Group)
  | nested (groups : SortedMap String Group)
deriving DecidableEq

namespace Store

def empty (grouping : Grouping) : Store :=
  match grouping with
  | .totals => .totalsOnly
  | grouping => if grouping.nested then .nested .empty else .flat .empty

/-- The group that a key lies in; a key that names none lies in that of the
empty text. -/
def groupOf (key : BucketKey) : String := key.outer.getD ""

/-- Where there is one group the inner key alone decides. -/
def find? (s : Store) (key : BucketKey) : Option Bucket :=
  match s with
  | .totalsOnly => none
  | .flat group => group.find? key.inner
  | .nested groups => (groups.find? (groupOf key)).bind (·.find? key.inner)

/-- Puts a bucket under its key, in a new group if there is no such group. -/
def insert (s : Store) (key : BucketKey) (bucket : Bucket) : Store :=
  match s with
  | .totalsOnly => .totalsOnly
  | .flat group => .flat (group.insert key.inner bucket)
  | .nested groups =>
    let group := (groups.find? (groupOf key)).getD .empty
    .nested (groups.insert (groupOf key) (group.insert key.inner bucket))

/-- Takes a bucket out, and its group with it if that is left empty. -/
def erase (s : Store) (key : BucketKey) : Store :=
  match s with
  | .totalsOnly => .totalsOnly
  | .flat group => .flat (group.erase key.inner)
  | .nested groups =>
    match groups.find? (groupOf key) with
    | none => .nested groups
    | some group =>
      let group := group.erase key.inner
      if group.isEmpty then .nested (groups.erase (groupOf key))
      else .nested (groups.insert (groupOf key) group)

def flatEntries (group : Group) : List (BucketKey × Bucket) :=
  group.entries.map fun (inner, bucket) => (.flat inner, bucket)

def groupEntries (outer : String) (group : Group) : List (BucketKey × Bucket) :=
  group.entries.map fun (inner, bucket) => (.nested outer inner, bucket)

/-- Every bucket with its key, in the order of the keys. -/
def entries : Store → List (BucketKey × Bucket)
  | .totalsOnly => []
  | .flat group => flatEntries group
  | .nested groups => groups.entries.flatMap fun (outer, group) => groupEntries outer group

/-- The buckets of one group. -/
def under (s : Store) (outer : String) : List (BucketKey × Bucket) :=
  match s with
  | .nested groups => (groups.find? outer).elim [] (groupEntries outer)
  | _ => []

/-- The next bucket in key order. Where there is one group the inner key
of the cursor alone decides; with many, a cursor without an outer key stands
before all buckets. -/
def after? (s : Store) (cursor : BucketKey) : Option (BucketKey × Bucket) :=
  match s with
  | .totalsOnly => none
  | .flat group => (group.after? cursor.inner).map fun (inner, bucket) => (.flat inner, bucket)
  | .nested groups =>
    match cursor.outer with
    | none => s.entries.head?
    | some outer =>
      let within := (groups.find? outer).bind fun group =>
        (group.after? cursor.inner).map fun (inner, bucket) => (BucketKey.nested outer inner, bucket)
      let beyond := groups.entries.filter fun e => compare outer e.1 == .lt
      within.or (beyond.findSome? fun (outer, group) => (groupEntries outer group).head?)

end Store

end Rollup
