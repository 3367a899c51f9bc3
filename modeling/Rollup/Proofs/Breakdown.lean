import Rollup.Proofs.Parts

namespace Rollup

namespace Contribution

/-- A contribution as a bucket takes it that last saw the request `last`. -/
def once (c : Contribution) (last : Option Nat) (id : Nat) : Contribution :=
  ⟨Bucket.countedOnce last id c.sums, c.samples⟩

theorem once_of_ne {c : Contribution} {last : Option Nat} {id : Nat} (other : last ≠ some id) :
    c.once last id = c := by
  rw [once, Bucket.countedOnce, if_neg other]

theorem amount_once_le (scale : Scale) (c : Contribution) (last : Option Nat) (id : Nat) (q : Quantity) :
    (c.once last id).amount scale q ≤ c.amount scale q := by
  unfold once Bucket.countedOnce
  split
  · cases q with
    | cell i => exact Nat.le_refl _
    | sum f =>
      cases f with
      | count => exact Nat.zero_le _
      | _ => exact Nat.le_refl _
  · exact Nat.le_refl _

theorem amount_once (scale : Scale) {c : Contribution} (single : c.Single) (last : Option Nat) (id : Nat)
    (q : Quantity) : (c.once last id).amount scale q =
      if q = .sum .count then (if last = some id then 0 else 1) else c.amount scale q := by
  unfold once Bucket.countedOnce
  cases q with
  | cell i => rfl
  | sum f =>
    cases f with
    | count => split <;> first | rfl | exact single.count
    | _ => split <;> rfl

end Contribution

namespace Bucket

theorem amount_add (b : Bucket) (id : Nat) (c : Contribution) (q : Quantity) :
    (b.add id c).1.summary.amount q =
      q.limit (b.summary.amount q + (c.once b.lastAdded id).amount b.summary.histogram.scale q) :=
  Summary.amount_add b.summary _ c.samples q

/-- A removal that succeeds takes the same amounts off the bucket that it
reports, all of which were there. -/
theorem remove?_eq_some {b left : Bucket} {id : Nat} {c : Contribution} {taken : Sums}
    (removed : b.remove? id c = some (left, taken)) :
    taken = (c.once b.lastRemoved id).sums ∧
      left = { b with summary := left.summary, lastRemoved := some id } ∧
      left.summary.histogram.scale = b.summary.histogram.scale ∧
      ∀ q, (c.once b.lastRemoved id).amount b.summary.histogram.scale q ≤ b.summary.amount q ∧
        left.summary.amount q =
          b.summary.amount q - (c.once b.lastRemoved id).amount b.summary.histogram.scale q := by
  obtain ⟨summary, subtracted, same⟩ := Option.map_eq_some_iff.mp removed
  cases same
  exact ⟨rfl, rfl, Summary.sub?_eq_some_iff.mp subtracted⟩

theorem remove?_of_le {b : Bucket} {id : Nat} {c : Contribution}
    (enough : ∀ q, (c.once b.lastRemoved id).amount b.summary.histogram.scale q ≤ b.summary.amount q) :
    ∃ left taken, b.remove? id c = some (left, taken) := by
  obtain ⟨summary, subtracted⟩ := Summary.sub?_of_le enough
  exact ⟨_, _, Option.map_eq_some_iff.mpr ⟨summary, subtracted, rfl⟩⟩

end Bucket

namespace Breakdown

/-- The buckets by their keys, whatever groups they lie in. -/
def buckets (b : Breakdown) : SortedMap BucketKey Bucket := b.store.toMap

/-- The bucket of a key, or the one that would be made for it. -/
def bucketAt (b : Breakdown) (key : BucketKey) : Bucket :=
  (b.buckets.find? key).getD (.fresh b.scale key.values)

theorem lessTotals_scale (totals : Summary) (sums : Sums) (samples : List Sample) :
    (lessTotals totals sums samples).histogram.scale = totals.histogram.scale := by
  unfold lessTotals
  cases subtracted : totals.sub? sums samples with
  | none => rfl
  | some left => exact (Summary.sub?_eq_some_iff.mp subtracted).1

theorem amount_lessTotals {totals : Summary} {sums : Sums} {samples : List Sample}
    (enough : ∀ q, Contribution.amount totals.histogram.scale ⟨sums, samples⟩ q ≤ totals.amount q) (q : Quantity) :
    (lessTotals totals sums samples).amount q =
      totals.amount q - Contribution.amount totals.histogram.scale ⟨sums, samples⟩ q := by
  obtain ⟨left, subtracted⟩ := Summary.sub?_of_le enough
  rw [lessTotals, subtracted]
  exact ((Summary.sub?_eq_some_iff.mp subtracted).2 q).2

theorem lessResidue_scale (totals residue : Summary) :
    (lessResidue totals residue).histogram.scale = totals.histogram.scale := by
  unfold lessResidue
  split
  · rfl
  · exact lessTotals_scale totals residue.sums residue.cellSamples

/-- What additions and removals never touch. -/
structure Alike (b c : Breakdown) : Prop where
  grouping : c.grouping = b.grouping
  filter : c.filter = b.filter
  scale : c.scale = b.scale

theorem Alike.refl (b : Breakdown) : b.Alike b := ⟨rfl, rfl, rfl⟩

theorem Alike.symm {b c : Breakdown} (alike : b.Alike c) : c.Alike b :=
  ⟨alike.grouping.symm, alike.filter.symm, alike.scale.symm⟩

theorem Alike.trans {a b c : Breakdown} (first : a.Alike b) (later : b.Alike c) : a.Alike c :=
  ⟨later.grouping.trans first.grouping, later.filter.trans first.filter, later.scale.trans first.scale⟩

theorem addPart_alike (b : Breakdown) (p : Part) : b.Alike (b.addPart p) := by
  unfold addPart
  split <;> exact ⟨rfl, rfl, rfl⟩

theorem removePart_alike (b : Breakdown) (p : Part) : b.Alike (b.removePart p) := by
  unfold removePart removeFrom
  split
  · exact ⟨rfl, rfl, rfl⟩
  · split
    · exact .refl b
    · split
      · exact .refl b
      · dsimp only
        split <;> exact ⟨rfl, rfl, rfl⟩

theorem foldl_alike {α : Type} {step : Breakdown → α → Breakdown}
    (each : ∀ (b : Breakdown) (x : α), b.Alike (step b x)) (b : Breakdown) (xs : List α) : b.Alike (xs.foldl step b) := by
  induction xs generalizing b with
  | nil => exact .refl b
  | cons x rest ih => exact (each b x).trans (ih (step b x))

theorem add_alike (b : Breakdown) (v : View) : b.Alike (b.add v) := by
  rw [add_eq_foldl]
  exact foldl_alike addPart_alike b _

theorem remove_alike (b : Breakdown) (v : View) : b.Alike (b.remove v) := by
  rw [remove_eq_foldl]
  exact foldl_alike removePart_alike b _

/-- Every bucket lies where the grouping has a place for it, bears the values
of its key and measures time as the totals do, and the number of buckets is
the one kept. -/
structure Formed (b : Breakdown) : Prop where
  accepts : ∀ key, b.store.Accepts key ↔ (Store.empty b.grouping).Accepts key
  totalsScale : b.totals.histogram.scale = b.scale
  bucketScale : ∀ e ∈ b.entries, e.2.summary.histogram.scale = b.scale
  bucketValues : ∀ e ∈ b.entries, e.2.values = e.1.values
  size : b.size = b.entries.length

@[simp] theorem buckets_empty (g : Grouping) (f : Filter) (scale : Scale) :
    (empty g f scale).buckets = .empty := by
  apply SortedMap.ext
  cases g with
  | totals => rfl
  | byAttributes attributes => rfl
  | byTags source names scope => cases scope <;> rfl

theorem empty_formed (g : Grouping) (f : Filter) (scale : Scale) : (empty g f scale).Formed := by
  have none : (empty g f scale).entries = [] := congrArg SortedMap.entries (buckets_empty g f scale)
  refine ⟨fun _ => Iff.rfl, rfl, fun e member => ?_, fun e member => ?_, ?_⟩
  · rw [none] at member
    cases member
  · rw [none] at member
    cases member
  · rw [none]
    rfl

namespace Formed

variable {b : Breakdown}

theorem find? (formed : b.Formed) {key : BucketKey} (accepted : (Store.empty b.grouping).Accepts key) :
    b.store.find? key = b.buckets.find? key :=
  (Store.toMap_find? ((formed.accepts key).mpr accepted)).symm

theorem bucketAt_scale (formed : b.Formed) (key : BucketKey) :
    (b.bucketAt key).summary.histogram.scale = b.scale := by
  unfold bucketAt
  cases found : b.buckets.find? key with
  | none => rfl
  | some bucket => exact formed.bucketScale (key, bucket) (SortedMap.find?_eq_some_iff.mp found)

theorem bucketAt_values (formed : b.Formed) (key : BucketKey) : (b.bucketAt key).values = key.values := by
  unfold bucketAt
  cases found : b.buckets.find? key with
  | none => rfl
  | some bucket => exact formed.bucketValues (key, bucket) (SortedMap.find?_eq_some_iff.mp found)

/-- An addition changes the one bucket, and puts into the totals what went in
there. -/
theorem addTo_eq (formed : b.Formed) {key : BucketKey} (accepted : (Store.empty b.grouping).Accepts key)
    (id : Nat) (c : Contribution) :
    (b.addTo id key c).buckets = b.buckets.insert key ((b.bucketAt key).add id c).1 ∧
      (b.addTo id key c).totals =
        b.totals.add (c.once (b.bucketAt key).lastAdded id).sums (c.once (b.bucketAt key).lastAdded id).samples := by
  have known := formed.find? accepted
  constructor
  · unfold bucketAt
    rw [← known]
    exact Store.toMap_insert ((formed.accepts key).mpr accepted) _
  · unfold bucketAt
    rw [← known]
    rfl

/-- What a removal from a bucket does, in three cases: nothing, as the bucket
is missing or short of something; the bucket stays with what is left; or it
goes as nothing in it counts any more. -/
theorem removeFrom_cases (formed : b.Formed) {key : BucketKey} (accepted : (Store.empty b.grouping).Accepts key)
    (id : Nat) (c : Contribution) :
    (b.removeFrom id key c = b ∧ ∀ bucket ∈ b.buckets.find? key, bucket.remove? id c = none) ∨
      ∃ bucket left taken, b.buckets.find? key = some bucket ∧ bucket.remove? id c = some (left, taken) ∧
        (left.count ≠ 0 ∧ (b.removeFrom id key c).buckets = b.buckets.insert key left ∧
            (b.removeFrom id key c).size = b.size ∧
            (b.removeFrom id key c).totals = lessTotals b.totals taken c.samples ∨
          left.count = 0 ∧ (b.removeFrom id key c).buckets = b.buckets.erase key ∧
            (b.removeFrom id key c).size = b.size - 1 ∧
            (b.removeFrom id key c).totals = lessResidue (lessTotals b.totals taken c.samples) left.summary) := by
  have stored := (formed.accepts key).mpr accepted
  have known := formed.find? accepted
  cases found : b.buckets.find? key with
  | none =>
    rw [found] at known
    refine Or.inl ⟨by rw [removeFrom, known], fun bucket member => nomatch member⟩
  | some bucket =>
    rw [found] at known
    cases removed : bucket.remove? id c with
    | none =>
      refine Or.inl ⟨by rw [removeFrom, known]; dsimp only; rw [removed], fun other member => ?_⟩
      cases Option.mem_some.mp member
      exact removed
    | some both =>
      obtain ⟨left, taken⟩ := both
      have next : b.removeFrom id key c =
          if left.count = 0 then
            { b with
              store := b.store.erase key
              size := b.size - 1
              totals := lessResidue (lessTotals b.totals taken c.samples) left.summary }
          else { b with store := b.store.insert key left, totals := lessTotals b.totals taken c.samples } := by
        rw [removeFrom, known]
        dsimp only
        rw [removed]
      refine Or.inr ⟨bucket, left, taken, rfl, removed, ?_⟩
      by_cases gone : left.count = 0
      · rw [if_pos gone] at next
        rw [next]
        exact Or.inr ⟨gone, Store.toMap_erase stored, rfl, rfl⟩
      · rw [if_neg gone] at next
        rw [next]
        exact Or.inl ⟨gone, Store.toMap_insert stored left, rfl, rfl⟩

/-- After an addition there is the bucket that took it, and no other that was
not there before. -/
theorem mem_addTo (formed : b.Formed) {key : BucketKey} (accepted : (Store.empty b.grouping).Accepts key) (id : Nat)
    (c : Contribution) {e : BucketKey × Bucket} (member : e ∈ (b.addTo id key c).entries) :
    e = (key, ((b.bucketAt key).add id c).1) ∨ e ∈ b.entries := by
  have inside : e ∈ (b.addTo id key c).buckets.entries := member
  rw [(formed.addTo_eq accepted id c).1] at inside
  exact SortedMap.mem_insertEntry inside

/-- After a removal there is what is left of the bucket that gave something back,
if that counts anything, and no other that was not there before. -/
theorem mem_removeFrom (formed : b.Formed) {key : BucketKey} (accepted : (Store.empty b.grouping).Accepts key)
    (id : Nat) (c : Contribution) {e : BucketKey × Bucket} (member : e ∈ (b.removeFrom id key c).entries) :
    (∃ bucket left taken, b.buckets.find? key = some bucket ∧ bucket.remove? id c = some (left, taken) ∧
      left.count ≠ 0 ∧ e = (key, left)) ∨ e ∈ b.entries := by
  have inside : e ∈ (b.removeFrom id key c).buckets.entries := member
  rcases formed.removeFrom_cases accepted id c with ⟨same, _⟩ | ⟨bucket, left, taken, found, removed, done⟩
  · rw [same] at inside
    exact Or.inr inside
  · rcases done with ⟨counts, buckets, _⟩ | ⟨_, buckets, _⟩
    · rw [buckets] at inside
      exact (SortedMap.mem_insertEntry inside).imp_left fun same => ⟨bucket, left, taken, found, removed, counts, same⟩
    · rw [buckets] at inside
      exact Or.inr (SortedMap.mem_erase_iff.mp inside).1

/-- Totals that hold as much as the bucket lose just what the bucket loses. -/
theorem taken_amounts (formed : b.Formed) {key : BucketKey} {id : Nat} {c : Contribution} {bucket left : Bucket}
    {taken : Sums} (found : b.buckets.find? key = some bucket) (removed : bucket.remove? id c = some (left, taken))
    (enough : ∀ q, bucket.summary.amount q ≤ b.totals.amount q) :
    left.summary.histogram.scale = b.scale ∧ ∀ q, left.summary.amount q ≤ bucket.summary.amount q ∧
      (lessTotals b.totals taken c.samples).amount q + bucket.summary.amount q =
        b.totals.amount q + left.summary.amount q := by
  obtain ⟨rfl, _, scale, amounts⟩ := Bucket.remove?_eq_some removed
  have bucketScale := formed.bucketScale (key, bucket) (SortedMap.find?_eq_some_iff.mp found)
  refine ⟨scale.trans bucketScale, fun q => ?_⟩
  rw [bucketScale, ← formed.totalsScale] at amounts
  have shrinks : (lessTotals b.totals (c.once bucket.lastRemoved id).sums c.samples).amount q =
      b.totals.amount q - (c.once bucket.lastRemoved id).amount b.totals.histogram.scale q :=
    amount_lessTotals (fun r => Nat.le_trans (amounts r).1 (enough r)) q
  obtain ⟨inBucket, rest⟩ := amounts q
  have inTotals := enough q
  omega

theorem removeFrom_accepts (b : Breakdown) (id : Nat) (key : BucketKey) (c : Contribution) (j : BucketKey) :
    (b.removeFrom id key c).store.Accepts j ↔ b.store.Accepts j := by
  unfold removeFrom
  split
  · rfl
  · split
    · rfl
    · dsimp only
      split
      · exact Store.accepts_erase
      · exact Store.accepts_insert

theorem addTo (formed : b.Formed) {key : BucketKey} (accepted : (Store.empty b.grouping).Accepts key)
    (id : Nat) (c : Contribution) : (b.addTo id key c).Formed := by
  have known := formed.find? accepted
  obtain ⟨buckets, totals⟩ := formed.addTo_eq accepted id c
  refine ⟨fun j => Store.accepts_insert.trans (formed.accepts j), ?_, fun e member => ?_, fun e member => ?_, ?_⟩
  · rw [totals, Summary.add_scale]
    exact formed.totalsScale
  · rcases formed.mem_addTo accepted id c member with rfl | old
    · exact (Summary.add_scale _ _ _).trans (formed.bucketAt_scale key)
    · exact formed.bucketScale e old
  · rcases formed.mem_addTo accepted id c member with rfl | old
    · exact formed.bucketAt_values key
    · exact formed.bucketValues e old
  · have length : (b.addTo id key c).entries.length =
        if (b.buckets.find? key).isSome then b.entries.length else b.entries.length + 1 :=
      (congrArg (fun m => m.entries.length) buckets).trans (SortedMap.length_insert _ key _)
    have counted : (b.addTo id key c).size = if (b.store.find? key).isSome then b.size else b.size + 1 := rfl
    rw [counted, length, known, formed.size]

theorem removeFrom (formed : b.Formed) {key : BucketKey} (accepted : (Store.empty b.grouping).Accepts key)
    (id : Nat) (c : Contribution) : (b.removeFrom id key c).Formed := by
  have alike := removePart_alike b ⟨id, some key, c⟩
  rcases formed.removeFrom_cases accepted id c with ⟨same, _⟩ | ⟨bucket, left, taken, found, removed, done⟩
  · rw [same]
    exact formed
  · have totalsScale : (b.removeFrom id key c).totals.histogram.scale = b.scale := by
      rcases done with ⟨_, _, _, totals⟩ | ⟨_, _, _, totals⟩
      · rw [totals, lessTotals_scale]
        exact formed.totalsScale
      · rw [totals, lessResidue_scale, lessTotals_scale]
        exact formed.totalsScale
    refine ⟨fun j => ?_, totalsScale.trans alike.scale.symm, fun e member => ?_, fun e member => ?_, ?_⟩
    · rw [removeFrom_accepts, show (b.removeFrom id key c).grouping = b.grouping from alike.grouping]
      exact formed.accepts j
    · rw [show (b.removeFrom id key c).scale = b.scale from alike.scale]
      rcases formed.mem_removeFrom accepted id c member with ⟨bucket, left, taken, found, removed, _, rfl⟩ | same
      · obtain ⟨_, _, scale, _⟩ := Bucket.remove?_eq_some removed
        exact scale.trans (formed.bucketScale (key, bucket) (SortedMap.find?_eq_some_iff.mp found))
      · exact formed.bucketScale e same
    · rcases formed.mem_removeFrom accepted id c member with ⟨bucket, left, taken, found, removed, _, rfl⟩ | same
      · obtain ⟨_, rest, _⟩ := Bucket.remove?_eq_some removed
        rw [rest]
        exact formed.bucketValues (key, bucket) (SortedMap.find?_eq_some_iff.mp found)
      · exact formed.bucketValues e same
    · rcases done with ⟨_, buckets, size, _⟩ | ⟨_, buckets, size, _⟩
      · have length : (b.removeFrom id key c).entries.length = b.entries.length :=
          (congrArg (fun m => m.entries.length) buckets).trans
            ((SortedMap.length_insert _ key _).trans (by rw [found]; rfl))
        rw [size, length, formed.size]
      · have length : (b.removeFrom id key c).entries.length = b.entries.length - 1 :=
          (congrArg (fun m => m.entries.length) buckets).trans (SortedMap.length_erase found)
        rw [size, length, formed.size]

end Formed

theorem addPart_formed {b : Breakdown} {g : Grouping} {id : Nat} {p : Part} (formed : b.Formed)
    (same : b.grouping = g) (placed : g.Placed id p) : (b.addPart p).Formed := by
  subst same
  unfold addPart
  split
  · refine ⟨formed.accepts, ?_, formed.bucketScale, formed.bucketValues, formed.size⟩
    exact (Summary.add_scale _ _ _).trans formed.totalsScale
  · rename_i key named
    exact formed.addTo (placed.accepted key named) p.id p.contribution

theorem removePart_formed {b : Breakdown} {g : Grouping} {id : Nat} {p : Part} (formed : b.Formed)
    (same : b.grouping = g) (placed : g.Placed id p) : (b.removePart p).Formed := by
  subst same
  unfold removePart
  split
  · refine ⟨formed.accepts, ?_, formed.bucketScale, formed.bucketValues, formed.size⟩
    exact (lessTotals_scale _ _ _).trans formed.totalsScale
  · rename_i key named
    exact formed.removeFrom (placed.accepted key named) p.id p.contribution

theorem foldl_parts {P : Breakdown → Prop} {step : Breakdown → Part → Breakdown}
    (alike : ∀ (b : Breakdown) (p : Part), b.Alike (step b p)) {g : Grouping} {id : Nat}
    (each : ∀ b p, P b → b.grouping = g → g.Placed id p → P (step b p)) {b : Breakdown} (start : P b)
    (same : b.grouping = g) {ps : List Part} (placed : ∀ p ∈ ps, g.Placed id p) : P (ps.foldl step b) := by
  induction ps generalizing b with
  | nil => exact start
  | cons p rest ih =>
    refine ih (each b p start same (placed p List.mem_cons_self)) ((alike b p).grouping.trans same) ?_
    exact fun q member => placed q (List.mem_cons_of_mem p member)

theorem add_formed {b : Breakdown} (formed : b.Formed) (v : View) : (b.add v).Formed := by
  rw [add_eq_foldl]
  exact foldl_parts addPart_alike (fun _ _ => addPart_formed) formed rfl Grouping.parts_placed

theorem remove_formed {b : Breakdown} (formed : b.Formed) (v : View) : (b.remove v).Formed := by
  rw [remove_eq_foldl]
  exact foldl_parts removePart_alike (fun _ _ => removePart_formed) formed rfl Grouping.parts_placed

end Breakdown

end Rollup
