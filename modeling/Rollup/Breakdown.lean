import Rollup.Breakdown.Store
import Rollup.Filter

namespace Rollup

/-- A report in numbers: the requests that pass its filter, in total and by
bucket. The buckets are counted in `size` as they come and go. -/
structure Breakdown where
  grouping : Grouping
  filter : Filter
  scale : Scale
  totals : Summary
  store : Store
  size : Nat
deriving DecidableEq

namespace Breakdown

def empty (grouping : Grouping) (filter : Filter) (scale : Scale) : Breakdown :=
  ⟨grouping, filter, scale, .empty scale, .empty grouping, 0⟩

/-- An empty breakdown, unless the filter lets nothing through. -/
def create (grouping : Grouping) (filter : Filter) (scale : Scale) : Except Filter.Inverted Breakdown :=
  match filter.check with
  | .error e => .error e
  | .ok _ => .ok (empty grouping filter scale)

/-- Contributions in the order of their keys, those with the same key merged
in the order they came. -/
def gather (contributions : List (BucketKey × Contribution)) : SortedMap BucketKey Contribution :=
  contributions.foldl (fun gathered (key, c) =>
    gathered.insert key (((gathered.find? key).map (·.merge c)).getD c)) .empty

/-- Puts one contribution of request `id` into its bucket, which is made if
there is none, and what went in there into the totals. -/
def addTo (b : Breakdown) (id : Nat) (key : BucketKey) (c : Contribution) : Breakdown :=
  let found := b.store.find? key
  let (bucket, applied) := (found.getD (.fresh b.scale key.values)).add id c
  { b with
    store := b.store.insert key bucket
    size := if found.isSome then b.size else b.size + 1
    totals := b.totals.add applied c.samples }

/-- The totals without `sums` and `samples`; as they are if they don't hold
that much. -/
def lessTotals (totals : Summary) (sums : Sums) (samples : List Sample) : Summary :=
  (totals.sub? sums samples).getD totals

/-- The totals without what an emptied bucket still holds. -/
def lessResidue (totals residue : Summary) : Summary :=
  if residue.isEmpty then totals else (totals.subAll? residue).getD totals

/-- Takes one contribution of request `id` out of its bucket and out of the
totals. A bucket that counts nothing any more is dropped. Nothing happens if
there is no such bucket or it does not hold that much. -/
def removeFrom (b : Breakdown) (id : Nat) (key : BucketKey) (c : Contribution) : Breakdown :=
  match b.store.find? key with
  | none => b
  | some bucket =>
    match bucket.remove? id c with
    | none => b
    | some (bucket, taken) =>
      let totals := lessTotals b.totals taken c.samples
      if bucket.count = 0 then
        { b with
          store := b.store.erase key
          size := b.size - 1
          totals := lessResidue totals bucket.summary }
      else { b with store := b.store.insert key bucket, totals }

/-- Takes a request in if the filter lets it through. -/
def add (b : Breakdown) (v : View) : Breakdown :=
  if b.filter.accepts v then
    match b.grouping with
    | .totals =>
      let c := Contribution.ofRequest v.record
      { b with totals := b.totals.add c.sums c.samples }
    | grouping =>
      (gather (grouping.contributions v)).entries.foldl (fun b (key, c) => b.addTo v.id key c) b
  else b

/-- Gives a request back that passed the filter. -/
def remove (b : Breakdown) (v : View) : Breakdown :=
  if b.filter.accepts v then
    match b.grouping with
    | .totals =>
      let c := Contribution.ofRequest v.record
      { b with totals := lessTotals b.totals c.sums c.samples }
    | grouping =>
      (gather (grouping.contributions v)).entries.foldl (fun b (key, c) => b.removeFrom v.id key c) b
  else b

def addAll (b : Breakdown) (views : List View) : Breakdown := views.foldl add b

def removeAll (b : Breakdown) (views : List View) : Breakdown := views.foldl remove b

/-- A breakdown with the same grouping and filter that holds no request. -/
def clear (b : Breakdown) : Breakdown := empty b.grouping b.filter b.scale

def isEmpty (b : Breakdown) : Bool := b.size == 0

/-- Every bucket with its key, in the order of the keys. -/
def entries (b : Breakdown) : List (BucketKey × Bucket) := b.store.entries

def find? (b : Breakdown) (key : BucketKey) : Option Bucket := b.store.find? key

def under (b : Breakdown) (outer : String) : List (BucketKey × Bucket) := b.store.under outer

def first? (b : Breakdown) : Option (BucketKey × Bucket) := b.entries.head?

def after? (b : Breakdown) (cursor : BucketKey) : Option (BucketKey × Bucket) := b.store.after? cursor

/-- All buckets from the cursor on, one page after the other; at most `fuel`
of them. -/
def pagesFrom (b : Breakdown) : Nat → Option (BucketKey × Bucket) → List (BucketKey × Bucket)
  | 0, _ => []
  | _, none => []
  | fuel + 1, some (key, bucket) => (key, bucket) :: b.pagesFrom fuel (b.after? key)

/-- The buckets as a client sees them who asks for one after the other. -/
def pages (b : Breakdown) : List (BucketKey × Bucket) := b.pagesFrom (b.entries.length + 1) b.first?

end Breakdown

end Rollup
