import Rollup.Proofs.Gather
import Rollup.Proofs.Holding
import Rollup.Proofs.Tidy

namespace Rollup

namespace Contribution

end Contribution

namespace Bucket

/-- A bucket after some contributions of request `id`, compared to before: it
counts the request, unless that was the last one already, and has more of all
else by what the contributions have together, up to where each sum stops. -/
structure Gains (old new : Bucket) (id : Nat) (cs : List Contribution) : Prop where
  count : new.count = if old.lastAdded = some id then old.count else old.count + 1
  amounts : ∀ q, q ≠ .sum .count → new.summary.amount q =
    q.limit (old.summary.amount q + Contribution.total old.summary.histogram.scale cs q)
  scale : new.summary.histogram.scale = old.summary.histogram.scale
  values : new.values = old.values
  lastAdded : new.lastAdded = some id
  lastRemoved : new.lastRemoved = old.lastRemoved

theorem count_add (b : Bucket) (id : Nat) {c : Contribution} (single : c.Single) :
    (b.add id c).1.count = if b.lastAdded = some id then b.count else b.count + 1 := by
  have sum : (b.add id c).1.count = b.count + (c.once b.lastAdded id).amount b.summary.histogram.scale (.sum .count) :=
    rfl
  rw [sum, Contribution.amount_once _ single, if_pos rfl]
  split <;> rfl

theorem Gains.first (b : Bucket) (id : Nat) {c : Contribution} (single : c.Single) :
    b.Gains (b.add id c).1 id [c] where
  count := b.count_add id single
  amounts q other := by
    rw [amount_add, Contribution.amount_once _ single, if_neg other, Contribution.total_cons,
      Contribution.total_nil, Nat.add_zero]
  scale := Summary.add_scale _ _ _
  values := rfl
  lastAdded := rfl
  lastRemoved := rfl

theorem Gains.more {old new : Bucket} {id : Nat} {cs : List Contribution} {c : Contribution}
    (gains : old.Gains new id cs) (single : c.Single) : old.Gains (new.add id c).1 id (cs ++ [c]) where
  count := by
    rw [count_add new id single, if_pos gains.lastAdded]
    exact gains.count
  amounts q other := by
    rw [amount_add, Contribution.amount_once _ single, if_neg other, gains.amounts q other, gains.scale,
      Quantity.limit_limit_add, Contribution.total_append, Contribution.total_cons, Contribution.total_nil,
      Nat.add_zero, Nat.add_assoc]
  scale := (Summary.add_scale _ _ _).trans gains.scale
  values := gains.values
  lastAdded := rfl
  lastRemoved := gains.lastRemoved

end Bucket

namespace Breakdown

section Steps

variable {b : Breakdown} {id : Nat} {j k : BucketKey} {c d : Contribution}

end Steps

/-- Contributions that count their request once and have a place. -/
def Fit (g : Grouping) (l : List (BucketKey × Contribution)) : Prop :=
  ∀ e ∈ l, e.2.Single ∧ (Store.empty g).Accepts e.1

theorem Fit.gather {g : Grouping} {l : List (BucketKey × Contribution)} (fit : Fit g l) : Fit g (gather l).entries :=
  gather_forall (P := fun key c => c.Single ∧ (Store.empty g).Accepts key) fit
    fun _ _ _ left right => ⟨left.1.merge right.1, left.2⟩

section Each

variable {b : Breakdown} {id : Nat} {l m : List (BucketKey × Contribution)}

end Each

end Breakdown

/-- What a timer adds to a bucket: a count, its hits, of which there is at least
one, its times, and for each hit an observation of an equal share of its value. -/
def Timer.amount (scale : Scale) (t : Timer) : Quantity → Nat
  | .sum .count => 1
  | .sum .hits => max t.hits 1
  | .sum .time => t.value.val
  | .sum .userTime => t.userTime.val
  | .sum .systemTime => t.systemTime.val
  | .sum .documentSize => 0
  | .sum .memoryFootprint => 0
  | .cell i => if scale.cellOf (t.value.share (max t.hits 1)) = i then max t.hits 1 else 0

namespace Grouping

/-- What a request adds, nothing merged: a part for every timer that the
grouping looks at, in their order, or one for the whole request. -/
def pieces (g : Grouping) (v : View) : List Part :=
  match g with
  | .totals => [⟨v.id, none, .ofRequest v.record⟩]
  | g => (contributions v g).map fun e => ⟨v.id, some e.1, e.2⟩

end Grouping

namespace Breakdown

/-- A request with timers for two values in turn, one of them as long as a
duration can be. -/
def busy : View :=
  { View.tagged 2 "page" "db" with
    timers := [⟨.ofMillis 5, 2, 0, 0, [⟨0, 0⟩]⟩, ⟨.ofMillis 7, 1, 0, 0, [⟨0, 1⟩]⟩,
      ⟨.ofNanos Duration.cap, 3, 0, 0, [⟨0, 0⟩]⟩]
    lexicon := ⟨⟨1, ["t"]⟩, ⟨2, ["db", "net"]⟩⟩ }

end Breakdown

end Rollup
