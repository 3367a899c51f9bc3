import Rollup.Proofs.Hits
import Rollup.Word

namespace Rollup

namespace Summary

/-- No amount is beyond a bound, and there are no more observations than there
may be hits. -/
structure Within (s : Summary) (bound : Quantity → Nat) : Prop where
  amounts : ∀ q, s.amount q ≤ bound q
  total : s.histogram.total ≤ bound (.sum .hits)

theorem empty_within (scale : Scale) (bound : Quantity → Nat) : (empty scale).Within bound where
  amounts q := by
    rw [amount_empty]
    exact Nat.zero_le _
  total := Nat.zero_le _

variable {s left : Summary} {small bound : Quantity → Nat}

theorem Within.mono (within : s.Within small) (below : ∀ q, small q ≤ bound q) : s.Within bound :=
  ⟨fun q => Nat.le_trans (within.amounts q) (below q), Nat.le_trans within.total (below _)⟩

theorem Within.add (within : s.Within bound) {c : Contribution} (weights : (c.samples.map (·.weight)).sum = c.sums.hits) :
    (s.add c.sums c.samples).Within fun q => bound q + c.amount s.histogram.scale q where
  amounts q := by
    rw [amount_add]
    exact Nat.le_trans (q.limit_le _) (Nat.add_le_add_right (within.amounts q) _)
  total := by
    have grown : (s.add c.sums c.samples).histogram.total = s.histogram.total + (c.samples.map (·.weight)).sum :=
      Histogram.total_add (s.histogram.count_observeAll c.samples)
    rw [grown, weights]
    exact Nat.add_le_add_right within.total _

theorem Within.sub (within : s.Within bound) {sums : Sums} {samples : List Sample}
    (taken : s.sub? sums samples = some left) : left.Within bound where
  amounts q := by
    rw [((sub?_eq_some_iff.mp taken).2 q).2]
    exact Nat.le_trans (Nat.sub_le _ _) (within.amounts q)
  total := by
    obtain ⟨total, _⟩ := totals_of_sub? taken
    exact Nat.le_trans (total ▸ Nat.le_add_right _ _) within.total

/-- All counts of a summary fit into words of 64 bits. -/
structure FitsWords (s : Summary) : Prop where
  requests : s.sums.count < Word.limit
  hits : s.sums.hits < Word.limit
  total : s.histogram.total < Word.limit
  cells : ∀ i, s.histogram.count i < Word.limit

theorem Within.fitsWords (within : s.Within bound) (requests : bound (.sum .count) < Word.limit)
    (hits : bound (.sum .hits) < Word.limit) : s.FitsWords := by
  have total := Nat.lt_of_le_of_lt within.total hits
  exact ⟨Nat.lt_of_le_of_lt (within.amounts (.sum .count)) requests,
    Nat.lt_of_le_of_lt (within.amounts (.sum .hits)) hits, total,
    fun i => Nat.lt_of_le_of_lt (s.histogram.count_le_total i) total⟩

end Summary

namespace Breakdown

/-- Buckets and totals hold no more than a bound. -/
structure Within (b : Breakdown) (bound : Quantity → Nat) : Prop where
  formed : b.Formed
  buckets : ∀ e ∈ b.entries, e.2.summary.Within bound
  totals : b.totals.Within bound

theorem lessTotals_within {totals : Summary} {bound : Quantity → Nat} (within : totals.Within bound) (sums : Sums)
    (samples : List Sample) : (lessTotals totals sums samples).Within bound := by
  unfold lessTotals
  cases taken : totals.sub? sums samples with
  | none => exact within
  | some left => exact within.sub taken

theorem lessResidue_within {totals : Summary} {bound : Quantity → Nat} (within : totals.Within bound)
    (residue : Summary) : (lessResidue totals residue).Within bound := by
  unfold lessResidue
  split
  · exact within
  · exact lessTotals_within within residue.sums residue.cellSamples

namespace Within

variable {b : Breakdown} {small bound : Quantity → Nat}

theorem mono (within : b.Within small) (below : ∀ q, small q ≤ bound q) : b.Within bound :=
  ⟨within.formed, fun e member => (within.buckets e member).mono below, within.totals.mono below⟩

theorem bucketAt (within : b.Within bound) (key : BucketKey) : (b.bucketAt key).summary.Within bound := by
  unfold Breakdown.bucketAt
  cases found : b.buckets.find? key with
  | none => exact Summary.empty_within _ _
  | some bucket => exact within.buckets (key, bucket) (SortedMap.find?_eq_some_iff.mp found)

theorem addTo (within : b.Within bound) {key : BucketKey} (accepted : (Store.empty b.grouping).Accepts key) (id : Nat)
    {c : Contribution} (single : c.Single) : (b.addTo id key c).Within fun q => bound q + c.amount b.scale q := by
  obtain ⟨_, totals⟩ := within.formed.addTo_eq accepted id c
  have weights := single.once_hits (b.bucketAt key).lastAdded id
  have counted (q : Quantity) : bound q + (c.once (b.bucketAt key).lastAdded id).amount b.scale q ≤
      bound q + c.amount b.scale q := Nat.add_le_add_left (Contribution.amount_once_le b.scale c _ id q) _
  refine ⟨within.formed.addTo accepted id c, fun e member => ?_, ?_⟩
  · rcases within.formed.mem_addTo accepted id c member with rfl | old
    · have grown := (within.bucketAt key).add weights
      rw [within.formed.bucketAt_scale] at grown
      exact grown.mono counted
    · exact (within.buckets e old).mono fun q => Nat.le_add_right _ _
  · have grown := within.totals.add weights
    rw [within.formed.totalsScale] at grown
    rw [totals]
    exact grown.mono counted

theorem addPart (within : b.Within bound) {id : Nat} {p : Part} (placed : b.grouping.Placed id p) :
    (b.addPart p).Within fun q => bound q + p.contribution.amount b.scale q := by
  have formed := addPart_formed within.formed rfl placed
  unfold Breakdown.addPart at formed ⊢
  cases named : p.key with
  | none =>
    have grown := within.totals.add placed.single.hits
    rw [within.formed.totalsScale] at grown
    rw [named] at formed
    exact ⟨formed, fun e member => (within.buckets e member).mono fun q => Nat.le_add_right _ _, grown⟩
  | some key => exact within.addTo (placed.accepted key named) p.id placed.single

/-- Nothing grows as something is removed, whether it was there or not. -/
theorem removeFrom (within : b.Within bound) {key : BucketKey} (accepted : (Store.empty b.grouping).Accepts key)
    (id : Nat) (c : Contribution) : (b.removeFrom id key c).Within bound := by
  refine ⟨within.formed.removeFrom accepted id c, fun e member => ?_, ?_⟩
  · rcases within.formed.mem_removeFrom accepted id c member with ⟨bucket, left, taken, found, removed, _, rfl⟩ | old
    · obtain ⟨summary, subtracted, same⟩ := Option.map_eq_some_iff.mp removed
      cases same
      exact (within.buckets (key, bucket) (SortedMap.find?_eq_some_iff.mp found)).sub subtracted
    · exact within.buckets e old
  · rcases within.formed.removeFrom_cases accepted id c with ⟨unchanged, _⟩ | ⟨bucket, left, taken, _, _, done⟩
    · rw [unchanged]
      exact within.totals
    · have less := lessTotals_within within.totals taken c.samples
      rcases done with ⟨_, _, _, totals⟩ | ⟨_, _, _, totals⟩
      · exact totals ▸ less
      · exact totals ▸ lessResidue_within less left.summary

theorem removePart (within : b.Within bound) {id : Nat} {p : Part} (placed : b.grouping.Placed id p) :
    (b.removePart p).Within bound := by
  have formed := removePart_formed within.formed rfl placed
  unfold Breakdown.removePart at formed ⊢
  cases named : p.key with
  | none =>
    rw [named] at formed
    exact ⟨formed, within.buckets, lessTotals_within within.totals _ _⟩
  | some key => exact within.removeFrom (placed.accepted key named) p.id p.contribution

theorem addParts (within : b.Within bound) {id : Nat} {ps : List Part} (placed : ∀ p ∈ ps, b.grouping.Placed id p) :
    (ps.foldl Breakdown.addPart b).Within fun q => bound q + Part.total b.scale ps q := by
  induction ps generalizing b bound with
  | nil => exact within
  | cons p rest ih =>
    have alike := b.addPart_alike p
    have first := within.addPart (placed p List.mem_cons_self)
    have later := ih first fun r member => alike.grouping ▸ placed r (List.mem_cons_of_mem p member)
    rw [alike.scale] at later
    refine later.mono fun q => ?_
    rw [Part.total_cons, Nat.add_assoc]

theorem add (within : b.Within bound) (v : View) :
    (b.add v).Within fun q => bound q + Contribution.total b.scale (b.grouping.shares b.filter v) q := by
  rw [add_eq_foldl]
  refine (within.addParts (b.grouping.parts_placed (f := b.filter) (v := v))).mono fun q => ?_
  exact Nat.add_le_add_left (b.grouping.parts_total_le b.filter v b.scale q) _

theorem remove (within : b.Within bound) (v : View) : (b.remove v).Within bound := by
  rw [remove_eq_foldl]
  refine foldl_parts (P := (·.Within bound)) removePart_alike (fun b p within same placed => ?_) within rfl
    Grouping.parts_placed
  exact within.removePart (same ▸ placed)

theorem play (within : b.Within bound) (moves : List Move) :
    (b.play moves).Within fun q => bound q + b.grouping.exact b.filter b.scale (Move.added moves) q := by
  induction moves generalizing b bound with
  | nil => exact within
  | cons m rest ih =>
    cases m with
    | add v =>
      obtain ⟨grouping, filter, scale⟩ := b.add_alike v
      have later := ih (within.add v)
      rw [grouping, filter, scale] at later
      refine later.mono fun q => ?_
      rw [Move.added_cons_add, Grouping.exact_cons, Nat.add_assoc]
    | remove v =>
      obtain ⟨grouping, filter, scale⟩ := b.remove_alike v
      have later := ih (within.remove v)
      rw [grouping, filter, scale] at later
      exact later

end Within

/-- Whatever is added and removed, no bucket, and not the totals, ever hold more
of anything than was added. -/
theorem play_within (g : Grouping) (f : Filter) (scale : Scale) (moves : List Move) :
    ((empty g f scale).play moves).Within (g.exact f scale (Move.added moves)) := by
  have start : (empty g f scale).Within fun _ => 0 := by
    refine ⟨empty_formed g f scale, fun e member => ?_, Summary.empty_within _ _⟩
    have none : (empty g f scale).entries = [] := congrArg SortedMap.entries (buckets_empty g f scale)
    rw [none] at member
    cases member
  exact (start.play moves).mono fun q => Nat.le_of_eq (Nat.zero_add _)

/-- The counts that are kept have no bound, where words of 64 bits would wrap.
While all that was ever added would fit, every count there ever is does, so none
would have wrapped. -/
theorem counts_fit_words (g : Grouping) (f : Filter) (scale : Scale) (moves : List Move)
    (requests : g.exact f scale (Move.added moves) (.sum .count) < Word.limit)
    (hits : g.exact f scale (Move.added moves) (.sum .hits) < Word.limit) :
    let b := (empty g f scale).play moves
    b.totals.FitsWords ∧ ∀ e ∈ b.entries, e.2.summary.FitsWords := by
  obtain ⟨_, buckets, totals⟩ := play_within g f scale moves
  exact ⟨totals.fitsWords requests hits, fun e member => (buckets e member).fitsWords requests hits⟩

end Breakdown

end Rollup
