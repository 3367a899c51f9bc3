import Rollup.Proofs.Moves

namespace Rollup

namespace Part

/-- The parts that go into the bucket of a key. -/
def into (ps : List Part) (key : BucketKey) : List Part := ps.filter (·.key = some key)

@[simp] theorem into_nil (key : BucketKey) : into [] key = [] := rfl

@[simp] theorem into_append (left right : List Part) (key : BucketKey) :
    into (left ++ right) key = into left key ++ into right key := List.filter_append left right

theorem into_cons_of_eq {p : Part} {key : BucketKey} (same : p.key = some key) (ps : List Part) :
    into (p :: ps) key = p :: into ps key := List.filter_cons_of_pos (decide_eq_true same)

theorem into_cons_of_ne {p : Part} {key : BucketKey} (other : p.key ≠ some key) (ps : List Part) :
    into (p :: ps) key = into ps key := List.filter_cons_of_neg (by simpa using other)

theorem into_snoc (ps : List Part) (p : Part) (key : BucketKey) :
    into (ps ++ [p]) key = if p.key = some key then into ps key ++ [p] else into ps key := by
  rw [into_append]
  split
  · rename_i same
    rw [into_cons_of_eq same, into_nil]
  · rename_i other
    rw [into_cons_of_ne other, into_nil, List.append_nil]

theorem total_into_le (scale : Scale) (ps : List Part) (key : BucketKey) (q : Quantity) :
    total scale (into ps key) q ≤ total scale ps q := total_sublist List.filter_sublist scale q

theorem total_count (scale : Scale) {ps : List Part} (single : ∀ p ∈ ps, p.contribution.Single) :
    total scale ps (.sum .count) = ps.length := by
  induction ps with
  | nil => rfl
  | cons p rest ih =>
    have front : p.contribution.amount scale (.sum .count) = 1 := (single p List.mem_cons_self).count
    have others := ih fun r member => single r (List.mem_cons_of_mem p member)
    rw [total_cons, front, others, List.length_cons]
    omega

end Part

namespace Bucket

/-- What is left of a bucket after one contribution of request `id` went from
it: all of it if it is short of something, and nothing if it counts nothing any
more. -/
def shed (b : Bucket) (id : Nat) (c : Contribution) : Option Bucket :=
  match b.remove? id c with
  | none => some b
  | some (left, _) => if left.count = 0 then none else some left

/-- What is left had the same request added last, and may have the given one
removed last. -/
theorem shed_marks {b left : Bucket} {id : Nat} {c : Contribution} (shed : b.shed id c = some left) :
    left.lastAdded = b.lastAdded ∧ (left.lastRemoved = b.lastRemoved ∨ left.lastRemoved = some id) := by
  unfold Bucket.shed at shed
  split at shed
  · cases shed
    exact ⟨rfl, Or.inl rfl⟩
  · rename_i kept taken removed
    obtain ⟨_, rest, _⟩ := remove?_eq_some removed
    split at shed
    · cases shed
    · cases shed
      rw [rest]
      exact ⟨rfl, Or.inr rfl⟩

end Bucket

namespace Breakdown

/-- No bucket for the part has its request as the last one added. -/
def AddsFresh (b : Breakdown) (p : Part) : Prop :=
  ∀ key ∈ p.key, ∀ bucket ∈ b.buckets.find? key, bucket.lastAdded ≠ some p.id

/-- No bucket for the part has its request as the last one removed. -/
def RemovesFresh (b : Breakdown) (p : Part) : Prop :=
  ∀ key ∈ p.key, ∀ bucket ∈ b.buckets.find? key, bucket.lastRemoved ≠ some p.id

/-- A part comes out as it went in: its bucket is there, bucket and totals
hold all of it, and a bucket that counts nothing any more is left with
nothing. -/
def TakesBack (b : Breakdown) (p : Part) : Prop :=
  match p.key with
  | none => (b.totals.sub? p.contribution.sums p.contribution.samples).isSome
  | some key => ∃ bucket left taken, b.store.find? key = some bucket ∧
      bucket.remove? p.id p.contribution = some (left, taken) ∧
      (b.totals.sub? taken p.contribution.samples).isSome ∧ (left.count = 0 → left.summary.isEmpty)

/-- A breakdown that amounts to some parts: its totals are all of them
together, and each bucket is those that go into it. A bucket is there just
when a part goes into it. -/
structure Holds (b : Breakdown) (ps : List Part) : Prop where
  formed : b.Formed
  placed : ∀ p ∈ ps, b.grouping.Placed p.id p
  totals : ∀ q, b.totals.amount q = Part.total b.scale ps q
  buckets : ∀ key q, (b.bucketAt key).summary.amount q = Part.total b.scale (Part.into ps key) q
  missing : ∀ key, b.buckets.find? key = none ↔ Part.into ps key = []

theorem Holds.perm {b : Breakdown} {ps qs : List Part} (holds : b.Holds ps) (perm : ps.Perm qs) : b.Holds qs where
  formed := holds.formed
  placed p member := holds.placed p (perm.mem_iff.mpr member)
  totals q := (holds.totals q).trans (Part.total_perm perm b.scale q)
  buckets key q := (holds.buckets key q).trans (Part.total_perm (perm.filter _) b.scale q)
  missing key := by
    rw [holds.missing key, ← List.length_eq_zero_iff, ← List.length_eq_zero_iff,
      Part.into, Part.into, (perm.filter _).length_eq]

theorem empty_holds (g : Grouping) (f : Filter) (scale : Scale) : (empty g f scale).Holds [] where
  formed := empty_formed g f scale
  placed p member := nomatch member
  totals q := Summary.amount_empty scale q
  buckets key q := by
    rw [bucketAt, buckets_empty]
    exact Summary.amount_empty scale q
  missing key := by
    rw [buckets_empty]
    exact ⟨fun _ => rfl, fun _ => rfl⟩

namespace Formed

variable {b : Breakdown}

theorem find?_addTo (formed : b.Formed) {key : BucketKey} (accepted : (Store.empty b.grouping).Accepts key)
    (id : Nat) (c : Contribution) (j : BucketKey) :
    (b.addTo id key c).buckets.find? j =
      if key = j then some ((b.bucketAt key).add id c).1 else b.buckets.find? j := by
  rw [(formed.addTo_eq accepted id c).1, SortedMap.find?_insert]

theorem bucketAt_addTo (formed : b.Formed) {key : BucketKey} (accepted : (Store.empty b.grouping).Accepts key)
    (id : Nat) (c : Contribution) (j : BucketKey) :
    (b.addTo id key c).bucketAt j = if key = j then ((b.bucketAt key).add id c).1 else b.bucketAt j := by
  have scale : (b.addTo id key c).scale = b.scale := rfl
  rw [bucketAt, formed.find?_addTo accepted, scale]
  split
  · rfl
  · rfl

end Formed

theorem AddsFresh.once_eq {b : Breakdown} {id : Nat} {key : BucketKey} {c : Contribution}
    (fresh : b.AddsFresh ⟨id, some key, c⟩) : c.once (b.bucketAt key).lastAdded id = c := by
  apply Contribution.once_of_ne
  unfold bucketAt
  cases found : b.buckets.find? key with
  | none => exact (Option.some_ne_none id).symm
  | some bucket => exact fresh key rfl bucket found

theorem AddsFresh.totals_amount {b : Breakdown} {p : Part} (fresh : b.AddsFresh p) (formed : b.Formed)
    (placed : b.grouping.Placed p.id p) (q : Quantity) :
    (b.addPart p).totals.amount q = q.limit (b.totals.amount q + p.contribution.amount b.scale q) := by
  rw [← formed.totalsScale]
  obtain ⟨id, key, c⟩ := p
  cases key with
  | none => exact Summary.amount_add _ _ _ q
  | some key =>
    have totals : (b.addPart ⟨id, some key, c⟩).totals = _ := (formed.addTo_eq (placed.accepted key rfl) id c).2
    rw [totals, fresh.once_eq]
    exact Summary.amount_add _ _ _ q

/-- A part whose request was not the last one in its bucket goes in whole. -/
theorem Holds.addPart {b : Breakdown} {ps : List Part} {p : Part} (holds : b.Holds ps)
    (placed : b.grouping.Placed p.id p) (fits : Quantity.Fits (Part.total b.scale (ps ++ [p])))
    (fresh : b.AddsFresh p) : (b.addPart p).Holds (ps ++ [p]) := by
  have formed := addPart_formed holds.formed rfl placed
  have alike := b.addPart_alike p
  have together (r : Part) (member : r ∈ ps ++ [p]) : (b.addPart p).grouping.Placed r.id r := by
    rw [alike.grouping]
    rcases List.mem_append.mp member with old | new
    · exact holds.placed r old
    · cases List.mem_singleton.mp new
      exact placed
  have amounts (q : Quantity) : Part.total b.scale (ps ++ [p]) q =
      Part.total b.scale ps q + p.contribution.amount b.scale q := by simp
  have totals (q : Quantity) : (b.addPart p).totals.amount q = Part.total (b.addPart p).scale (ps ++ [p]) q := by
    rw [fresh.totals_amount holds.formed placed, holds.totals, ← amounts, alike.scale, fits.limit_eq]
  obtain ⟨id, key, c⟩ := p
  cases key with
  | none =>
    have apart (j : BucketKey) : Part.into (ps ++ [⟨id, none, c⟩]) j = Part.into ps j := by
      rw [Part.into_snoc, if_neg (Option.some_ne_none j).symm]
    refine ⟨formed, together, totals, fun j q => ?_, fun j => ?_⟩
    · rw [apart]
      exact holds.buckets j q
    · rw [apart]
      exact holds.missing j
  | some key =>
    have accepted := placed.accepted key rfl
    have parts (j : BucketKey) : Part.into (ps ++ [⟨id, some key, c⟩]) j =
        if key = j then Part.into ps j ++ [⟨id, some key, c⟩] else Part.into ps j := by
      simp only [Part.into_snoc, Option.some.injEq]
    refine ⟨formed, together, totals, fun j q => ?_, fun j => ?_⟩
    · have at_j := holds.formed.bucketAt_addTo accepted id c j
      rw [alike.scale, show (b.addPart ⟨id, some key, c⟩).bucketAt j = _ from at_j]
      have within := fits.mono fun r => Part.total_into_le b.scale (ps ++ [⟨id, some key, c⟩]) j r
      have limited := within.limit_eq q
      rw [parts] at limited ⊢
      by_cases same : key = j
      · subst same
        rw [if_pos rfl] at limited ⊢
        rw [if_pos rfl, Bucket.amount_add, fresh.once_eq, holds.formed.bucketAt_scale, holds.buckets]
        simpa using limited
      · rw [if_neg same, if_neg same]
        exact holds.buckets j q
    · have at_j := holds.formed.find?_addTo accepted id c j
      rw [show (b.addPart ⟨id, some key, c⟩).buckets.find? j = _ from at_j, parts]
      by_cases same : key = j
      · rw [if_pos same, if_pos same]
        simp
      · rw [if_neg same, if_neg same]
        exact holds.missing j

/-- A bucket gives a part back whole, and is left with what goes into it of
the other parts. -/
theorem Holds.bucket_taken {b : Breakdown} {id : Nat} {key : BucketKey} {c : Contribution} {rest : List Part}
    (holds : b.Holds (⟨id, some key, c⟩ :: rest)) (fresh : b.RemovesFresh ⟨id, some key, c⟩) :
    ∃ bucket left, b.buckets.find? key = some bucket ∧ bucket.remove? id c = some (left, c.sums) ∧
      (∀ q, left.summary.amount q = Part.total b.scale (Part.into rest key) q) ∧
      (left.count = 0 ↔ Part.into rest key = []) := by
  have parts : Part.into (⟨id, some key, c⟩ :: rest) key = ⟨id, some key, c⟩ :: Part.into rest key :=
    Part.into_cons_of_eq rfl rest
  cases found : b.buckets.find? key with
  | none =>
    have none := (holds.missing key).mp found
    rw [parts] at none
    cases none
  | some bucket =>
    have amounts (q : Quantity) : bucket.summary.amount q =
        c.amount b.scale q + Part.total b.scale (Part.into rest key) q := by
      have all := holds.buckets key q
      rw [bucketAt, found, parts] at all
      exact all.trans (Part.total_cons _ _ _ _)
    have whole : c.once bucket.lastRemoved id = c := Contribution.once_of_ne (fresh key rfl bucket found)
    have bucketScale := holds.formed.bucketScale (key, bucket) (SortedMap.find?_eq_some_iff.mp found)
    obtain ⟨left, taken, removed⟩ := Bucket.remove?_of_le fun q => by
      rw [whole, bucketScale, amounts]
      exact Nat.le_add_right _ _
    obtain ⟨sums, _, _, shrinks⟩ := Bucket.remove?_eq_some removed
    rw [whole] at sums shrinks
    rw [bucketScale] at shrinks
    subst sums
    have leaves (q : Quantity) : left.summary.amount q = Part.total b.scale (Part.into rest key) q := by
      have all := amounts q
      have less := (shrinks q).2
      omega
    have single (r : Part) (member : r ∈ Part.into rest key) : r.contribution.Single :=
      (holds.placed r (List.mem_cons_of_mem _ (List.mem_filter.mp member).1)).single
    have counted : left.count = (Part.into rest key).length :=
      (leaves (.sum .count)).trans (Part.total_count b.scale single)
    exact ⟨bucket, left, rfl, removed, leaves, by rw [counted]; exact List.length_eq_zero_iff⟩

theorem Holds.totals_taken {b : Breakdown} {p : Part} {rest : List Part} (holds : b.Holds (p :: rest)) :
    (b.totals.sub? p.contribution.sums p.contribution.samples).isSome ∧
      ∀ q, (lessTotals b.totals p.contribution.sums p.contribution.samples).amount q = Part.total b.scale rest q := by
  have amounts (q : Quantity) : b.totals.amount q =
      p.contribution.amount b.totals.histogram.scale q + Part.total b.scale rest q := by
    rw [holds.totals, Part.total_cons, holds.formed.totalsScale]
  have enough (q : Quantity) : p.contribution.amount b.totals.histogram.scale q ≤ b.totals.amount q := by
    rw [amounts]
    exact Nat.le_add_right _ _
  obtain ⟨left, subtracted⟩ := Summary.sub?_of_le enough
  refine ⟨Option.isSome_iff_exists.mpr ⟨left, subtracted⟩, fun q => ?_⟩
  have less : (lessTotals b.totals p.contribution.sums p.contribution.samples).amount q =
      b.totals.amount q - p.contribution.amount b.totals.histogram.scale q := amount_lessTotals enough q
  rw [less, amounts]
  exact Nat.add_sub_cancel_left _ _

/-- A part that a breakdown amounts to, and whose request was not the last one
to go from its bucket, comes out as it went in. -/
theorem Holds.takesBack {b : Breakdown} {p : Part} {rest : List Part} (holds : b.Holds (p :: rest))
    (fresh : b.RemovesFresh p) : b.TakesBack p := by
  have inTotals := holds.totals_taken.1
  obtain ⟨id, key, c⟩ := p
  cases key with
  | none => exact inTotals
  | some key =>
    have accepted := (holds.placed ⟨id, some key, c⟩ List.mem_cons_self).accepted key rfl
    obtain ⟨bucket, left, found, removed, leaves, gone⟩ := holds.bucket_taken fresh
    refine ⟨bucket, left, c.sums, (holds.formed.find? accepted).trans found, removed, inTotals, fun zero => ?_⟩
    exact Summary.isEmpty_iff.mpr fun q => by rw [leaves, gone.mp zero, Part.total_nil]

/-- A removal takes the part out of the totals and out of its bucket, which is
dropped if no other part goes into it. -/
theorem Holds.removeFrom_eq {b : Breakdown} {id : Nat} {key : BucketKey} {c : Contribution} {rest : List Part}
    (holds : b.Holds (⟨id, some key, c⟩ :: rest)) (fresh : b.RemovesFresh ⟨id, some key, c⟩) :
    (∀ q, (b.removeFrom id key c).totals.amount q = Part.total b.scale rest q) ∧
      ∃ left : Bucket, (∀ q, left.summary.amount q = Part.total b.scale (Part.into rest key) q) ∧
        ∀ j, (b.removeFrom id key c).buckets.find? j =
          if key = j then (if Part.into rest key = [] then none else some left) else b.buckets.find? j := by
  have less := holds.totals_taken.2
  have accepted := (holds.placed ⟨id, some key, c⟩ List.mem_cons_self).accepted key rfl
  obtain ⟨bucket, left, found, removed, leaves, gone⟩ := holds.bucket_taken fresh
  rcases holds.formed.removeFrom_cases accepted id c with ⟨_, short⟩ | ⟨bucket', left', taken, found', removed', done⟩
  · rw [short bucket found] at removed
    cases removed
  · cases found.symm.trans found'
    cases removed.symm.trans removed'
    rcases done with ⟨stays, buckets, _, totals⟩ | ⟨zero, buckets, _, totals⟩
    · rw [totals, buckets]
      refine ⟨less, left, leaves, fun j => ?_⟩
      rw [if_neg fun nothing => stays (gone.mpr nothing)]
      exact SortedMap.find?_insert _ _ _ _
    · -- The bucket is left with nothing, so nothing more is taken off the totals.
      have nothing : left.summary.isEmpty = true :=
        Summary.isEmpty_iff.mpr fun q => by rw [leaves, gone.mp zero, Part.total_nil]
      rw [totals, buckets, lessResidue, if_pos nothing]
      refine ⟨less, left, leaves, fun j => ?_⟩
      rw [if_pos (gone.mp zero)]
      exact SortedMap.find?_erase _ _ _

/-- Without the part the breakdown amounts to the other parts. -/
theorem Holds.removePart {b : Breakdown} {p : Part} {rest : List Part} (holds : b.Holds (p :: rest))
    (fresh : b.RemovesFresh p) : (b.removePart p).Holds rest := by
  have formed := removePart_formed holds.formed rfl (holds.placed p List.mem_cons_self)
  have alike := b.removePart_alike p
  have others (r : Part) (member : r ∈ rest) : (b.removePart p).grouping.Placed r.id r := by
    rw [alike.grouping]
    exact holds.placed r (List.mem_cons_of_mem p member)
  obtain ⟨id, key, c⟩ := p
  cases key with
  | none =>
    have apart (j : BucketKey) : Part.into (⟨id, none, c⟩ :: rest) j = Part.into rest j :=
      Part.into_cons_of_ne (Option.some_ne_none j).symm rest
    exact ⟨formed, others, holds.totals_taken.2, fun j q => (holds.buckets j q).trans (by rw [apart, alike.scale]),
      fun j => (holds.missing j).trans (by rw [apart])⟩
  | some key =>
    obtain ⟨totals, left, leaves, buckets⟩ := holds.removeFrom_eq fresh
    have apart {j : BucketKey} (other : key ≠ j) : Part.into (⟨id, some key, c⟩ :: rest) j = Part.into rest j :=
      Part.into_cons_of_ne (fun equal => other (Option.some.inj equal)) rest
    refine ⟨formed, others, fun q => alike.scale ▸ totals q, fun j q => ?_, fun j => ?_⟩
    · rw [bucketAt, alike.scale, show (b.removePart ⟨id, some key, c⟩).buckets.find? j = _ from buckets j]
      by_cases same : key = j
      · subst same
        rw [if_pos rfl]
        split
        · rename_i nothing
          rw [nothing, Part.total_nil]
          exact Summary.amount_empty b.scale q
        · exact leaves q
      · rw [if_neg same, ← apart same]
        exact holds.buckets j q
    · rw [show (b.removePart ⟨id, some key, c⟩).buckets.find? j = _ from buckets j]
      by_cases same : key = j
      · subst same
        rw [if_pos rfl]
        split
        · rename_i nothing
          exact ⟨fun _ => nothing, fun _ => rfl⟩
        · rename_i some_left
          exact ⟨fun absent => (nomatch absent), fun nothing => absurd nothing some_left⟩
      · rw [if_neg same, ← apart same]
        exact holds.missing j

/-- After a part is added there is a bucket for it, and all others are as they
were. -/
theorem find?_addPart {b : Breakdown} {p : Part} (formed : b.Formed) (placed : b.grouping.Placed p.id p) (j : BucketKey) :
    (b.addPart p).buckets.find? j =
      if p.key = some j then some ((b.bucketAt j).add p.id p.contribution).1 else b.buckets.find? j := by
  obtain ⟨id, key, c⟩ := p
  cases key with
  | none => rfl
  | some key =>
    have found : (b.addPart ⟨id, some key, c⟩).buckets.find? j = _ :=
      formed.find?_addTo (placed.accepted key rfl) id c j
    rw [found]
    by_cases same : key = j
    · subst same
      simp
    · simp [same]

/-- After a part is removed its bucket is what is left of it, and all others are
as they were. -/
theorem find?_removePart {b : Breakdown} {p : Part} (formed : b.Formed) (placed : b.grouping.Placed p.id p) (j : BucketKey) :
    (b.removePart p).buckets.find? j =
      if p.key = some j then (b.buckets.find? j).bind (·.shed p.id p.contribution) else b.buckets.find? j := by
  obtain ⟨id, key, c⟩ := p
  cases key with
  | none => rfl
  | some key =>
    have step : (b.removePart ⟨id, some key, c⟩).buckets = (b.removeFrom id key c).buckets := rfl
    rw [step]
    simp only [Option.some.injEq]
    rcases formed.removeFrom_cases (placed.accepted key rfl) id c with
      ⟨same, short⟩ | ⟨bucket, left, taken, found, removed, ⟨stays, buckets, _⟩ | ⟨gone, buckets, _⟩⟩
    · rw [same]
      split
      · rename_i here
        subst here
        cases found : b.buckets.find? key with
        | none => rfl
        | some bucket => simp [Bucket.shed, short bucket found]
      · rfl
    · rw [buckets, SortedMap.find?_insert]
      split
      · rename_i here
        subst here
        simp [found, Bucket.shed, removed, stays]
      · rfl
    · rw [buckets, SortedMap.find?_erase]
      split
      · rename_i here
        subst here
        simp [found, Bucket.shed, removed, gone]
      · rfl

/-- The buckets after an addition: the ones there were, but for the one with
the part, which has the request as the last one added. -/
theorem addPart_find? {b : Breakdown} {p : Part} (formed : b.Formed) (placed : b.grouping.Placed p.id p)
    {j : BucketKey} {bucket : Bucket} (found : (b.addPart p).buckets.find? j = some bucket) :
    p.key ≠ some j ∧ b.buckets.find? j = some bucket ∨
      p.key = some j ∧ bucket.lastAdded = some p.id ∧ bucket.lastRemoved = (b.bucketAt j).lastRemoved := by
  rw [find?_addPart formed placed] at found
  by_cases here : p.key = some j
  · rw [if_pos here] at found
    cases found
    exact Or.inr ⟨here, rfl, rfl⟩
  · rw [if_neg here] at found
    exact Or.inl ⟨here, found⟩

/-- The buckets after a removal are buckets that there were; the one without
the part may have the request as the last one removed. -/
theorem removePart_find? {b : Breakdown} {p : Part} (formed : b.Formed) (placed : b.grouping.Placed p.id p)
    {j : BucketKey} {bucket : Bucket} (found : (b.removePart p).buckets.find? j = some bucket) :
    ∃ old, b.buckets.find? j = some old ∧ bucket.lastAdded = old.lastAdded ∧
      (bucket.lastRemoved = old.lastRemoved ∨ p.key = some j ∧ bucket.lastRemoved = some p.id) := by
  rw [find?_removePart formed placed] at found
  by_cases here : p.key = some j
  · rw [if_pos here] at found
    obtain ⟨old, there, left⟩ := Option.bind_eq_some_iff.mp found
    obtain ⟨added, removed⟩ := Bucket.shed_marks left
    exact ⟨old, there, added, removed.imp_right fun last => ⟨here, last⟩⟩
  · rw [if_neg here] at found
    exact ⟨bucket, found, rfl, Or.inl rfl⟩

theorem AddsFresh.addPart {b : Breakdown} {p r : Part} (formed : b.Formed) (placed : b.grouping.Placed p.id p)
    (apart : p.key ≠ r.key) (fresh : b.AddsFresh r) : (b.addPart p).AddsFresh r := by
  intro key named bucket found
  rcases addPart_find? formed placed found with ⟨_, old⟩ | ⟨same, _⟩
  · exact fresh key named bucket old
  · exact absurd (same.trans named.symm) apart

theorem RemovesFresh.removePart {b : Breakdown} {p r : Part} (formed : b.Formed) (placed : b.grouping.Placed p.id p)
    (apart : p.key ≠ r.key) (fresh : b.RemovesFresh r) : (b.removePart p).RemovesFresh r := by
  intro key named bucket found
  obtain ⟨old, there, _, same | ⟨here, _⟩⟩ := removePart_find? formed placed found
  · rw [same]
    exact fresh key named old there
  · exact absurd (here.trans named.symm) apart

/-- The requests that buckets have as the last ones added and removed. -/
structure Marked (b : Breakdown) (added removed : Nat → Prop) : Prop where
  lastAdded : ∀ key bucket, b.buckets.find? key = some bucket → ∀ id ∈ bucket.lastAdded, added id
  lastRemoved : ∀ key bucket, b.buckets.find? key = some bucket → ∀ id ∈ bucket.lastRemoved, removed id

theorem Marked.mono {b : Breakdown} {added removed added' removed' : Nat → Prop} (marked : b.Marked added removed)
    (more : ∀ id, added id → added' id) (gone : ∀ id, removed id → removed' id) : b.Marked added' removed' where
  lastAdded key bucket found id last := more id (marked.lastAdded key bucket found id last)
  lastRemoved key bucket found id last := gone id (marked.lastRemoved key bucket found id last)

theorem empty_marked (g : Grouping) (f : Filter) (scale : Scale) (added removed : Nat → Prop) :
    (empty g f scale).Marked added removed := by
  constructor <;>
  · intro key bucket found
    rw [buckets_empty] at found
    cases found

theorem Marked.bucketAt {b : Breakdown} {added removed : Nat → Prop} (marked : b.Marked added removed)
    (key : BucketKey) : (∀ id ∈ (b.bucketAt key).lastAdded, added id) ∧
      ∀ id ∈ (b.bucketAt key).lastRemoved, removed id := by
  unfold Breakdown.bucketAt
  cases found : b.buckets.find? key with
  | none => exact ⟨fun id last => (Option.not_mem_none id last).elim, fun id last => (Option.not_mem_none id last).elim⟩
  | some bucket => exact ⟨marked.lastAdded key bucket found, marked.lastRemoved key bucket found⟩

theorem Marked.addPart {b : Breakdown} {p : Part} {added removed : Nat → Prop} (marked : b.Marked added removed)
    (formed : b.Formed) (placed : b.grouping.Placed p.id p) (more : added p.id) :
    (b.addPart p).Marked added removed := by
  constructor
  · intro key bucket found id last
    rcases addPart_find? formed placed found with ⟨_, old⟩ | ⟨_, added, _⟩
    · exact marked.lastAdded key bucket old id last
    · rw [added] at last
      exact Option.mem_some.mp last ▸ more
  · intro key bucket found id last
    rcases addPart_find? formed placed found with ⟨_, old⟩ | ⟨_, _, removed⟩
    · exact marked.lastRemoved key bucket old id last
    · rw [removed] at last
      exact (marked.bucketAt key).2 id last

theorem Marked.removePart {b : Breakdown} {p : Part} {added removed : Nat → Prop} (marked : b.Marked added removed)
    (formed : b.Formed) (placed : b.grouping.Placed p.id p) (gone : removed p.id) :
    (b.removePart p).Marked added removed := by
  constructor
  · intro key bucket found id last
    obtain ⟨old, there, same, _⟩ := removePart_find? formed placed found
    exact marked.lastAdded key old there id (same ▸ last)
  · intro key bucket found id last
    obtain ⟨old, there, _, same | ⟨_, now⟩⟩ := removePart_find? formed placed found
    · exact marked.lastRemoved key old there id (same ▸ last)
    · rw [now] at last
      exact Option.mem_some.mp last ▸ gone

/-- The parts come out as they went in, one after the other. -/
def TakesBackAll (b : Breakdown) : List Part → Prop
  | [] => True
  | p :: rest => b.TakesBack p ∧ (b.removePart p).TakesBackAll rest

/-- What every fresh part keeps up as it goes in, a request does that no
bucket has as the last one added. -/
theorem add_keeps {P : Breakdown → List Part → Prop} {added removed : Nat → Prop}
    (step : ∀ (c : Breakdown) (p : Part) (ps : List Part), c.Formed → c.grouping.Placed p.id p → c.AddsFresh p →
      P c ps → P (c.addPart p) (ps ++ [p]))
    {b : Breakdown} {ps : List Part} {v : View} (formed : b.Formed) (marked : b.Marked added removed)
    (new : ¬ added v.id) (start : P b ps) : P (b.add v) (ps ++ b.grouping.parts b.filter v) := by
  have placed (p : Part) (member : p ∈ b.grouping.parts b.filter v) : b.grouping.Placed p.id p :=
    (Grouping.parts_placed p member).self
  have fresh (p : Part) (member : p ∈ b.grouping.parts b.filter v) : b.AddsFresh p := by
    intro key _ bucket found last
    rw [(Grouping.parts_placed p member).id] at last
    exact new (marked.lastAdded key bucket found v.id last)
  have distinct := b.grouping.parts_distinct b.filter v
  rw [add_eq_foldl]
  generalize b.grouping.parts b.filter v = qs at placed fresh distinct ⊢
  -- The marks change with the first part. What carries the induction is that the others lie elsewhere.
  clear marked
  induction qs generalizing b ps with
  | nil =>
    rw [List.append_nil]
    exact start
  | cons p rest ih =>
    have front := placed p List.mem_cons_self
    obtain ⟨apart, distinctRest⟩ := List.pairwise_cons.mp distinct
    have together : ps ++ p :: rest = ps ++ [p] ++ rest := by simp
    rw [together]
    refine ih (addPart_formed formed rfl front) (step b p ps formed front (fresh p List.mem_cons_self) start)
      (fun r member => ?_) (fun r member => ?_) distinctRest
    · rw [(b.addPart_alike p).grouping]
      exact placed r (List.mem_cons_of_mem p member)
    · exact .addPart formed front (apart r member) (fresh r (List.mem_cons_of_mem p member))

/-- What every fresh part keeps up as it goes, a request does that no bucket has
as the last one removed. -/
theorem remove_keeps {P : Breakdown → List Part → Prop} {added removed : Nat → Prop}
    (step : ∀ (c : Breakdown) (p : Part) (ps : List Part), c.Formed → c.grouping.Placed p.id p → c.RemovesFresh p →
      P c (p :: ps) → P (c.removePart p) ps)
    {b : Breakdown} {ps : List Part} {v : View} (formed : b.Formed) (marked : b.Marked added removed)
    (present : ¬ removed v.id) (start : P b (b.grouping.parts b.filter v ++ ps)) : P (b.remove v) ps := by
  have placed (p : Part) (member : p ∈ b.grouping.parts b.filter v) : b.grouping.Placed p.id p :=
    (Grouping.parts_placed p member).self
  have fresh (p : Part) (member : p ∈ b.grouping.parts b.filter v) : b.RemovesFresh p := by
    intro key _ bucket found last
    rw [(Grouping.parts_placed p member).id] at last
    exact present (marked.lastRemoved key bucket found v.id last)
  have distinct := b.grouping.parts_distinct b.filter v
  rw [remove_eq_foldl]
  generalize b.grouping.parts b.filter v = qs at placed fresh distinct start ⊢
  clear marked
  induction qs generalizing b with
  | nil => exact start
  | cons p rest ih =>
    have front := placed p List.mem_cons_self
    obtain ⟨apart, distinctRest⟩ := List.pairwise_cons.mp distinct
    refine ih (removePart_formed formed rfl front) (fun r member => ?_) (fun r member => ?_) distinctRest
      (step b p (rest ++ ps) formed front (fresh p List.mem_cons_self) start)
    · rw [(b.removePart_alike p).grouping]
      exact placed r (List.mem_cons_of_mem p member)
    · exact .removePart formed front (apart r member) (fresh r (List.mem_cons_of_mem p member))

/-- Parts for different places, none of a request that was the last one
removed there, come out as they went in and leave the others. -/
theorem Holds.removeParts {b : Breakdown} {qs rest : List Part} (holds : b.Holds (qs ++ rest))
    (distinct : qs.Pairwise fun p r => p.key ≠ r.key) (fresh : ∀ p ∈ qs, b.RemovesFresh p) :
    b.TakesBackAll qs ∧ (qs.foldl Breakdown.removePart b).Holds rest := by
  induction qs generalizing b with
  | nil => exact ⟨trivial, holds⟩
  | cons p others ih =>
    have front := holds.placed p List.mem_cons_self
    obtain ⟨apart, distinctRest⟩ := List.pairwise_cons.mp distinct
    have clean := fresh p List.mem_cons_self
    have later := ih (holds.removePart clean) distinctRest fun r member =>
      .removePart holds.formed front (apart r member) (fresh r (List.mem_cons_of_mem p member))
    exact ⟨⟨holds.takesBack clean, later.1⟩, later.2⟩

end Breakdown

end Rollup
