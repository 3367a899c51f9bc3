import Rollup.Proofs.Moves
import Rollup.Proofs.Scale

namespace Rollup

namespace Contribution

theorem total_beyond {scale : Scale} (some_cell : 0 < scale.cells) (cs : List Contribution) {i : Nat}
    (beyond : scale.cells ≤ i) : total scale cs (.cell i) = 0 := by
  induction cs with
  | nil => rfl
  | cons c rest ih =>
    have front : c.amount scale (.cell i) = 0 := Scale.observed_beyond some_cell c.samples beyond
    rw [total_cons, front, ih]

theorem total_cell_le_hits (scale : Scale) {cs : List Contribution} (single : ∀ c ∈ cs, c.Single) (i : Nat) :
    total scale cs (.cell i) ≤ total scale cs (.sum .hits) := by
  induction cs with
  | nil => exact Nat.le_refl _
  | cons c rest ih =>
    have front : c.amount scale (.cell i) ≤ c.amount scale (.sum .hits) :=
      Nat.le_trans (scale.observed_le_weights c.samples i) (Nat.le_of_eq (single c List.mem_cons_self).hits)
    have others := ih fun d member => single d (List.mem_cons_of_mem c member)
    rw [total_cons, total_cons]
    omega

end Contribution

/-- Amounts that fit into one sample for each cell: there are only so many
of them in a cell, and none outside of the scale's own cells, whose starts
all fall back into them. -/
structure Scale.Carries (s : Scale) (amount : Quantity → Nat) : Prop where
  fine : s.cells ≤ s.top.val
  numbered : s.cells < cellNumbers
  within : ∀ i, s.cells ≤ i → amount (.cell i) = 0
  light : ∀ i, amount (.cell i) ≤ Summary.weightCap

theorem Scale.Carries.mono {s : Scale} {large small : Quantity → Nat} (carries : s.Carries large)
    (below : ∀ q, small q ≤ large q) : s.Carries small where
  fine := carries.fine
  numbered := carries.numbered
  within i outside := Nat.eq_zero_of_le_zero (carries.within i outside ▸ below (.cell i))
  light i := Nat.le_trans (below (.cell i)) (carries.light i)

namespace Summary

/-- The samples of the cells in use fall back into those cells. -/
theorem observed_cellSamples {s : Summary} (carries : s.histogram.scale.Carries s.amount) (i : Nat) :
    s.histogram.scale.observed s.cellSamples i = s.amount (.cell i) := by
  have each (e : Nat × Nat) (member : e ∈ s.histogram.cells) :
      (if s.histogram.scale.cellOf (s.histogram.scale.range e.1).1 = i then min e.2 weightCap else 0) =
        if e.1 = i then e.2 else 0 := by
    obtain ⟨counted, positive⟩ := Tally.mem_entries_iff.mp member
    have amount : s.amount (.cell e.1) = e.2 := counted
    have inside : e.1 < s.histogram.scale.cells := by
      rcases Nat.lt_or_ge e.1 s.histogram.scale.cells with lower | beyond
      · exact lower
      · have none := carries.within e.1 beyond
        omega
    have light := carries.light e.1
    rw [Scale.cellOf_range_start carries.fine carries.numbered inside, Nat.min_eq_left (by omega)]
  have samples : s.histogram.scale.observed s.cellSamples i =
      (s.histogram.cells.map fun e => if e.1 = i then e.2 else 0).sum := by
    unfold Scale.observed cellSamples
    rw [List.map_map]
    exact congrArg List.sum (List.map_congr_left each)
  have counted : s.amount (.cell i) = (s.histogram.tally.counts.find? i).getD 0 := rfl
  rw [samples, counted, Histogram.cells, SortedMap.sum_of_find? fun e _ apart => if_neg apart]
  cases s.histogram.tally.counts.find? i with
  | none => rfl
  | some n => exact if_pos rfl

end Summary

namespace Breakdown

/-- An amount over some buckets together. -/
def held (m : SortedMap BucketKey Bucket) (q : Quantity) : Nat := (m.entries.map fun e => e.2.summary.amount q).sum

@[simp] theorem held_insert (m : SortedMap BucketKey Bucket) (key : BucketKey) (bucket : Bucket) (q : Quantity) :
    held (m.insert key bucket) q = bucket.summary.amount q + held (m.erase key) q := by
  have same := ((m.perm_insert key bucket).map fun e => e.2.summary.amount q).sum_nat
  rw [List.map_cons, List.sum_cons] at same
  exact same

/-- One bucket and all the others; a bucket that would only be made now
holds nothing. -/
theorem held_split (b : Breakdown) (key : BucketKey) (q : Quantity) :
    held b.buckets q = (b.bucketAt key).summary.amount q + held (b.buckets.erase key) q := by
  unfold bucketAt
  cases found : b.buckets.find? key with
  | none =>
    have fresh : (Bucket.fresh b.scale key.values).summary.amount q = 0 := Summary.amount_empty b.scale q
    rw [SortedMap.erase_of_find? found, Option.getD_none, fresh, Nat.zero_add]
  | some bucket =>
    have same := ((SortedMap.perm_of_find? found).map fun e => e.2.summary.amount q).sum_nat
    rw [List.map_cons, List.sum_cons] at same
    exact same

theorem amount_lessResidue {totals residue : Summary} (scale : residue.histogram.scale = totals.histogram.scale)
    (enough : ∀ q, residue.amount q ≤ totals.amount q) (carries : totals.histogram.scale.Carries residue.amount)
    (q : Quantity) : (lessResidue totals residue).amount q = totals.amount q - residue.amount q := by
  have whole (q : Quantity) : Contribution.amount totals.histogram.scale ⟨residue.sums, residue.cellSamples⟩ q =
      residue.amount q := by
    cases q with
    | sum f => rfl
    | cell i =>
      rw [← scale] at carries ⊢
      exact Summary.observed_cellSamples carries i
  unfold lessResidue
  split
  · rename_i nothing
    rw [Summary.isEmpty_iff.mp nothing q, Nat.sub_zero]
  · have less := amount_lessTotals (fun r => (whole r).symm ▸ enough r) q
    rw [whole] at less
    exact less

/-- The totals are what the buckets hold together, and none of it is beyond
a bound. -/
structure Balanced (b : Breakdown) (bound : Quantity → Nat) : Prop where
  formed : b.Formed
  balanced : ∀ q, b.totals.amount q = held b.buckets q
  within : ∀ q, b.totals.amount q ≤ bound q

theorem Balanced.mono {b : Breakdown} {small large : Quantity → Nat} (even : b.Balanced small)
    (below : ∀ q, small q ≤ large q) : b.Balanced large :=
  ⟨even.formed, even.balanced, fun q => Nat.le_trans (even.within q) (below q)⟩

/-- Bucket and totals grow by the same amounts, as neither of them stops. -/
theorem Balanced.addTo {b : Breakdown} {bound : Quantity → Nat} (even : b.Balanced bound) {key : BucketKey}
    (accepted : (Store.empty b.grouping).Accepts key) (id : Nat) (c : Contribution)
    (fits : Quantity.Fits fun q => bound q + c.amount b.scale q) :
    (b.addTo id key c).Balanced fun q => bound q + c.amount b.scale q := by
  obtain ⟨buckets, totals⟩ := even.formed.addTo_eq accepted id c
  have counted (q : Quantity) := Contribution.amount_once_le b.scale c (b.bucketAt key).lastAdded id q
  have bucketGrows (q : Quantity) : ((b.bucketAt key).add id c).1.summary.amount q =
      (b.bucketAt key).summary.amount q + (c.once (b.bucketAt key).lastAdded id).amount b.scale q := by
    have room : Quantity.Fits fun r => (b.bucketAt key).summary.amount r +
        (c.once (b.bucketAt key).lastAdded id).amount b.scale r := fits.mono fun r => by
      have once := counted r
      have split := b.held_split key r
      have bounded := even.within r
      rw [even.balanced] at bounded
      omega
    rw [Bucket.amount_add, even.formed.bucketAt_scale]
    exact room.limit_eq q
  have totalsGrow (q : Quantity) : (b.addTo id key c).totals.amount q =
      b.totals.amount q + (c.once (b.bucketAt key).lastAdded id).amount b.scale q := by
    have room : Quantity.Fits fun r => b.totals.amount r +
        (c.once (b.bucketAt key).lastAdded id).amount b.scale r :=
      fits.mono fun r => Nat.add_le_add (even.within r) (counted r)
    rw [totals, Summary.amount_add, even.formed.totalsScale]
    exact room.limit_eq q
  refine ⟨even.formed.addTo accepted id c, fun q => ?_, fun q => ?_⟩
  · rw [totalsGrow, buckets, held_insert, bucketGrows, even.balanced, b.held_split key q]
    omega
  · rw [totalsGrow]
    exact Nat.add_le_add (even.within q) (counted q)

/-- Once a bucket gave something back, the totals are what is left in it and
what the other buckets hold. -/
theorem Balanced.taken_amounts {b : Breakdown} {bound : Quantity → Nat} (even : b.Balanced bound) {key : BucketKey}
    {id : Nat} {c : Contribution} {bucket left : Bucket} {taken : Sums} (found : b.buckets.find? key = some bucket)
    (removed : bucket.remove? id c = some (left, taken)) :
    left.summary.histogram.scale = b.scale ∧ ∀ q,
      (lessTotals b.totals taken c.samples).amount q = left.summary.amount q + held (b.buckets.erase key) q ∧
        left.summary.amount q + held (b.buckets.erase key) q ≤ bound q := by
  have split (q : Quantity) : b.totals.amount q = bucket.summary.amount q + held (b.buckets.erase key) q := by
    have both := b.held_split key q
    rw [bucketAt, found] at both
    exact (even.balanced q).trans both
  obtain ⟨scale, shrinks⟩ := even.formed.taken_amounts found removed fun q => by
    rw [split]
    exact Nat.le_add_right _ _
  refine ⟨scale, fun q => ?_⟩
  have sum := split q
  have old := even.within q
  obtain ⟨shrunk, same⟩ := shrinks q
  omega

/-- Bucket and totals shrink by the same amounts; a bucket that goes with
something left in it takes that out of the totals too. -/
theorem Balanced.removeFrom {b : Breakdown} {bound : Quantity → Nat} (even : b.Balanced bound) {key : BucketKey}
    (accepted : (Store.empty b.grouping).Accepts key) (id : Nat) (c : Contribution)
    (carries : b.scale.Carries bound) : (b.removeFrom id key c).Balanced bound := by
  have formed := even.formed.removeFrom accepted id c
  rcases even.formed.removeFrom_cases accepted id c with
    ⟨same, _⟩ | ⟨bucket, left, taken, found, removed, done⟩
  · rw [same]
    exact even
  · obtain ⟨scale, amounts⟩ := even.taken_amounts found removed
    rcases done with ⟨_, buckets, _, totals⟩ | ⟨_, buckets, _, totals⟩
    · refine ⟨formed, fun q => ?_, fun q => ?_⟩
      · rw [totals, (amounts q).1, buckets, held_insert]
      · rw [totals, (amounts q).1]
        exact (amounts q).2
    · -- The samples at the starts of the cells stand for all that is left, so the totals hold them.
      have rest (q : Quantity) : (b.removeFrom id key c).totals.amount q = held (b.buckets.erase key) q := by
        have totalsScale : (lessTotals b.totals taken c.samples).histogram.scale = b.scale :=
          (lessTotals_scale _ _ _).trans even.formed.totalsScale
        have residue : (lessResidue (lessTotals b.totals taken c.samples) left.summary).amount q =
            (lessTotals b.totals taken c.samples).amount q - left.summary.amount q := by
          refine amount_lessResidue (scale.trans totalsScale.symm) (fun r => ?_) ?_ q
          · rw [(amounts r).1]
            exact Nat.le_add_right _ _
          · rw [totalsScale]
            exact carries.mono fun r => Nat.le_trans (Nat.le_add_right _ _) (amounts r).2
        rw [totals, residue, (amounts q).1]
        omega
      refine ⟨formed, fun q => ?_, fun q => ?_⟩
      · rw [rest, buckets]
      · rw [rest]
        exact Nat.le_trans (Nat.le_add_left _ _) (amounts q).2

section Runs

variable {g : Grouping} {f : Filter} {scale : Scale}

theorem Balanced.addParts {b : Breakdown} {bound : Quantity → Nat} {id : Nat} {ps : List Part}
    (even : b.Balanced bound) (like : (empty g f scale).Alike b) (placed : ∀ p ∈ ps, g.Placed id p)
    (keyed : ∀ p ∈ ps, p.key ≠ none) (fits : Quantity.Fits fun q => bound q + Part.total scale ps q) :
    (ps.foldl addPart b).Balanced fun q => bound q + Part.total scale ps q := by
  induction ps generalizing b bound with
  | nil => exact even
  | cons p rest ih =>
    have atGrouping : b.grouping = g := like.grouping
    have atScale : b.scale = scale := like.scale
    have amounts (q : Quantity) : bound q + Part.total scale (p :: rest) q =
        bound q + p.contribution.amount scale q + Part.total scale rest q := by
      rw [Part.total_cons, Nat.add_assoc]
    obtain ⟨key, named⟩ := Option.ne_none_iff_exists'.mp (keyed p List.mem_cons_self)
    have accepted : (Store.empty b.grouping).Accepts key :=
      atGrouping ▸ (placed p List.mem_cons_self).accepted key named
    have first : (b.addPart p).Balanced fun q => bound q + p.contribution.amount scale q := by
      have fitsFirst : Quantity.Fits fun q => bound q + p.contribution.amount b.scale q := fits.mono fun q => by
        rw [atScale, amounts]
        exact Nat.le_add_right _ _
      rw [addPart, named]
      exact atScale ▸ even.addTo accepted p.id p.contribution fitsFirst
    have later := ih first (like.trans (b.addPart_alike p))
      (fun r member => placed r (List.mem_cons_of_mem p member))
      (fun r member => keyed r (List.mem_cons_of_mem p member))
      (fits.mono fun q => Nat.le_of_eq (amounts q).symm)
    exact later.mono fun q => Nat.le_of_eq (amounts q).symm

theorem Balanced.add {b : Breakdown} {bound : Quantity → Nat} (even : b.Balanced bound)
    (like : (empty g f scale).Alike b) (grouped : g ≠ .totals) (v : View)
    (fits : Quantity.Fits fun q => bound q + Contribution.total scale (g.shares f v) q) :
    (b.add v).Balanced fun q => bound q + Contribution.total scale (g.shares f v) q := by
  have below (q : Quantity) : bound q + Part.total scale (g.parts f v) q ≤
      bound q + Contribution.total scale (g.shares f v) q :=
    Nat.add_le_add_left (g.parts_total_le f v scale q) (bound q)
  rw [add_eq_foldl, like.grouping, like.filter]
  exact (even.addParts like Grouping.parts_placed (Grouping.parts_keyed grouped) (fits.mono below)).mono below

theorem Balanced.removeParts {b : Breakdown} {bound : Quantity → Nat} {id : Nat} {ps : List Part}
    (even : b.Balanced bound) (like : (empty g f scale).Alike b) (placed : ∀ p ∈ ps, g.Placed id p)
    (keyed : ∀ p ∈ ps, p.key ≠ none) (carries : scale.Carries bound) : (ps.foldl removePart b).Balanced bound := by
  induction ps generalizing b with
  | nil => exact even
  | cons p rest ih =>
    have atGrouping : b.grouping = g := like.grouping
    have atScale : b.scale = scale := like.scale
    obtain ⟨key, named⟩ := Option.ne_none_iff_exists'.mp (keyed p List.mem_cons_self)
    have accepted : (Store.empty b.grouping).Accepts key :=
      atGrouping ▸ (placed p List.mem_cons_self).accepted key named
    have first : (b.removePart p).Balanced bound := by
      rw [removePart, named]
      exact even.removeFrom accepted p.id p.contribution (atScale ▸ carries)
    exact ih first (like.trans (b.removePart_alike p))
      (fun r member => placed r (List.mem_cons_of_mem p member))
      (fun r member => keyed r (List.mem_cons_of_mem p member))

theorem Balanced.remove {b : Breakdown} {bound : Quantity → Nat} (even : b.Balanced bound)
    (like : (empty g f scale).Alike b) (grouped : g ≠ .totals) (v : View) (carries : scale.Carries bound) :
    (b.remove v).Balanced bound := by
  rw [remove_eq_foldl, like.grouping, like.filter]
  exact even.removeParts like Grouping.parts_placed (Grouping.parts_keyed grouped) carries

theorem Balanced.play {b : Breakdown} {bound : Quantity → Nat} {moves : List Move} (even : b.Balanced bound)
    (like : (empty g f scale).Alike b) (grouped : g ≠ .totals)
    (fits : Quantity.Fits fun q => bound q + g.exact f scale (Move.added moves) q)
    (carries : scale.Carries fun q => bound q + g.exact f scale (Move.added moves) q) :
    (b.play moves).Balanced fun q => bound q + g.exact f scale (Move.added moves) q := by
  induction moves generalizing b bound with
  | nil => exact even
  | cons m rest ih =>
    cases m with
    | add v =>
      have amounts (q : Quantity) : bound q + Contribution.total scale (g.shares f v) q +
          g.exact f scale (Move.added rest) q = bound q + g.exact f scale (Move.added (.add v :: rest)) q := by
        rw [Move.added_cons_add, Grouping.exact_cons, Nat.add_assoc]
      have below (q : Quantity) : bound q + Contribution.total scale (g.shares f v) q ≤
          bound q + g.exact f scale (Move.added (.add v :: rest)) q := amounts q ▸ Nat.le_add_right _ _
      have same (q : Quantity) := Nat.le_of_eq (amounts q)
      have first := even.add like grouped v (fits.mono below)
      exact (ih first (like.trans (b.add_alike v)) (fits.mono same) (carries.mono same)).mono same
    | remove v =>
      have first := even.remove like grouped v (carries.mono fun q => Nat.le_add_right _ _)
      exact ih first (like.trans (b.remove_alike v)) fits carries

end Runs

/-- However requests are added and removed, the totals are the sum of the
buckets, in every sum and in every cell of the histogram. Removals may be of
requests that were never added, or come again and again. -/
theorem totals_eq_sum_of_buckets {g : Grouping} {f : Filter} {top : Duration} {cells : Nat} {scale : Scale}
    (grouped : g ≠ .totals) (made : Scale.create top cells = .ok scale) (numbered : cells < Scale.cellNumbers)
    (moves : List Move) (fits : Quantity.Fits (g.exact f scale (Move.added moves)))
    (hits : g.exact f scale (Move.added moves) (.sum .hits) ≤ Summary.weightCap) (q : Quantity) :
    ((empty g f scale).play moves).totals.amount q =
      (((empty g f scale).play moves).entries.map fun e => e.2.summary.amount q).sum := by
  obtain ⟨rfl, some_cell, fine⟩ := Scale.create_eq_ok_iff.mp made
  have start : (empty g f ⟨top, cells⟩).Balanced fun _ => 0 := by
    refine ⟨empty_formed _ _ _, fun q => ?_, fun q => ?_⟩
    · rw [buckets_empty]
      exact Summary.amount_empty _ q
    · exact Nat.le_of_eq (Summary.amount_empty _ q)
  have single : ∀ c ∈ (Move.added moves).flatMap (g.shares f), c.Single := by
    intro c member
    obtain ⟨v, _, inside⟩ := List.mem_flatMap.mp member
    exact Grouping.shares_single c inside
  have carries : Scale.Carries ⟨top, cells⟩ (g.exact f ⟨top, cells⟩ (Move.added moves)) :=
    ⟨fine, numbered, fun i => Contribution.total_beyond some_cell _,
      fun i => Nat.le_trans (Contribution.total_cell_le_hits _ single i) hits⟩
  have same (q : Quantity) := Nat.le_of_eq (Nat.zero_add (g.exact f ⟨top, cells⟩ (Move.added moves) q))
  exact (start.play (.refl _) grouped (fits.mono same) (carries.mono same)).balanced q

/-- Two requests come, and two go that never came: the bucket goes with time
left in it that no request counts for. -/
theorem totals_eq_sum_after_strangers :
    let moves := [.add (.plain 1 (.ofSecs 3)), .add (.plain 2 (.ofSecs 4)), .remove (.plain 8 0), .remove (.plain 9 0)]
    let b := (empty (.byAttributes [.script]) .any ⟨.ofSecs 100, 1⟩).play moves
    ∀ q, b.totals.amount q = (b.entries.map fun e => e.2.summary.amount q).sum := by
  intro moves b
  have made : Scale.create (.ofSecs 100) 1 = .ok ⟨.ofSecs 100, 1⟩ := rfl
  refine totals_eq_sum_of_buckets (by decide) made (by decide) moves ?_ (by decide)
  intro f cap stops
  cases f <;> cases stops <;> decide

end Breakdown

end Rollup
