import Rollup.Proofs.Spread
import Rollup.Proofs.Tidy

namespace Rollup

theorem Histogram.count_le_total (h : Histogram) (cell : Nat) : h.count cell ≤ h.total := by
  have spread : h.tally.spread.count cell ≤ h.tally.spread.length := List.count_le_length
  rwa [Tally.count_spread, length_spread] at spread

namespace Summary

/-- The histogram holds an observation for every hit, and `surplus` more. -/
def Observes (s : Summary) (surplus : Nat) : Prop := s.histogram.total = s.sums.hits + surplus

/-- How many observations are left out when each cell goes into one sample. -/
def unweighed (s : Summary) : Nat := (s.histogram.cells.map fun e => e.2 - weightCap).sum

theorem weights_cellSamples (s : Summary) :
    (s.cellSamples.map (·.weight)).sum + s.unweighed = s.histogram.total := by
  have total : s.histogram.total = (s.histogram.cells.map (·.2)).sum := s.histogram.total_eq
  rw [total, cellSamples, unweighed, List.map_map]
  induction s.histogram.cells with
  | nil => rfl
  | cons e rest ih =>
    simp only [List.map_cons, List.sum_cons, Function.comp_apply] at ih ⊢
    omega

theorem unweighed_eq_zero_iff {s : Summary} : s.unweighed = 0 ↔ ∀ cell, s.histogram.count cell ≤ weightCap := by
  unfold unweighed
  rw [List.sum_eq_zero_iff_forall_eq_nat]
  constructor
  · intro none cell
    rcases Nat.eq_zero_or_pos (s.histogram.count cell) with empty | positive
    · rw [empty]
      exact Nat.zero_le _
    · have listed : (cell, s.histogram.count cell) ∈ s.histogram.cells := Tally.mem_entries_iff.mpr ⟨rfl, positive⟩
      have spare : s.histogram.count cell - weightCap = 0 := none _ (List.mem_map.mpr ⟨_, listed, rfl⟩)
      omega
  · intro light n member
    obtain ⟨⟨cell, count⟩, listed, rfl⟩ := List.mem_map.mp member
    obtain ⟨rfl, _⟩ := Tally.mem_entries_iff.mp listed
    exact Nat.sub_eq_zero_of_le (light cell)

/-- What is taken back as a whole is missing from the total and from the hits. -/
theorem totals_of_sub? {s left : Summary} {sums : Sums} {samples : List Sample}
    (taken : s.sub? sums samples = some left) :
    s.histogram.total = left.histogram.total + (samples.map (·.weight)).sum ∧
      s.sums.hits = left.sums.hits + sums.hits := by
  obtain ⟨scale, amounts⟩ := sub?_eq_some_iff.mp taken
  constructor
  · refine Histogram.total_add fun cell => ?_
    obtain ⟨enough, less⟩ := amounts (.cell cell)
    simp only [amount, Contribution.amount] at enough less
    rw [scale, less]
    omega
  · obtain ⟨enough, less⟩ := amounts (.sum .hits)
    simp only [amount, Contribution.amount, Sums.amount] at enough less
    omega

theorem Observes.add {s : Summary} {surplus : Nat} (observes : s.Observes surplus) {c : Contribution}
    (hits : (c.samples.map (·.weight)).sum = c.sums.hits) : (s.add c.sums c.samples).Observes surplus := by
  have total := Histogram.total_add (s.histogram.count_observeAll c.samples)
  have sum : (s.add c.sums c.samples).sums.hits = s.sums.hits + c.sums.hits := rfl
  unfold Observes at observes ⊢
  rw [sum, ← hits]
  exact total.trans (by omega)

theorem Observes.sub {s left : Summary} {surplus : Nat} (observes : s.Observes surplus) {c : Contribution}
    (hits : (c.samples.map (·.weight)).sum = c.sums.hits) (taken : s.sub? c.sums c.samples = some left) :
    left.Observes surplus := by
  obtain ⟨total, sum⟩ := totals_of_sub? taken
  unfold Observes at observes ⊢
  omega

/-- An observation for every hit, of which there are at most `most`. -/
structure Paired (s : Summary) (most : Nat) : Prop where
  even : s.Observes 0
  bounded : s.sums.hits ≤ most

theorem Paired.mono {s : Summary} {few many : Nat} (paired : s.Paired few) (le : few ≤ many) : s.Paired many :=
  ⟨paired.even, Nat.le_trans paired.bounded le⟩

theorem Paired.add {s : Summary} {most : Nat} (paired : s.Paired most) {c : Contribution}
    (hits : (c.samples.map (·.weight)).sum = c.sums.hits) :
    (s.add c.sums c.samples).Paired (most + c.sums.hits) :=
  ⟨paired.even.add hits, Nat.add_le_add_right paired.bounded _⟩

end Summary

namespace Contribution

@[simp] theorem hits_once (c : Contribution) (last : Option Nat) (id : Nat) :
    (c.once last id).sums.hits = c.sums.hits := by
  unfold once Bucket.countedOnce
  split <;> rfl

theorem Single.once_hits {c : Contribution} (single : c.Single) (last : Option Nat) (id : Nat) :
    ((c.once last id).samples.map (·.weight)).sum = (c.once last id).sums.hits := by
  rw [hits_once]
  exact single.hits

end Contribution

namespace Breakdown

theorem lessTotals_observes {totals : Summary} {surplus : Nat} (observes : totals.Observes surplus) {c : Contribution}
    (hits : (c.samples.map (·.weight)).sum = c.sums.hits) : (lessTotals totals c.sums c.samples).Observes surplus := by
  unfold lessTotals
  cases taken : totals.sub? c.sums c.samples with
  | none => exact observes
  | some left => exact observes.sub hits taken

/-- How many observations some residues leave out together. -/
def unweighed (residues : List Summary) : Nat := (residues.map Summary.unweighed).sum

theorem unweighed_append (front back : List Summary) : unweighed (front ++ back) = unweighed front + unweighed back := by
  rw [unweighed, List.map_append, List.sum_append_nat]
  rfl

theorem unweighed_eq_zero_iff {residues : List Summary} :
    unweighed residues = 0 ↔ ∀ s ∈ residues, ∀ cell, s.histogram.count cell ≤ Summary.weightCap := by
  rw [unweighed, List.sum_eq_zero_iff_forall_eq_nat, List.forall_mem_map]
  exact forall₂_congr fun s _ => Summary.unweighed_eq_zero_iff

/-- What is left in a bucket that goes, if the totals give that up with it. -/
def givenUp? (totals residue : Summary) : Option Summary := (totals.subAll? residue).map fun _ => residue

/-- The hits of a residue go as a whole, but only as many observations of a cell
as one sample weighs. The others stay. -/
theorem lessResidue_observes {totals residue : Summary} {surplus : Nat} (observes : totals.Observes surplus)
    (even : residue.Observes 0) : (lessResidue totals residue).Observes
      (surplus + unweighed (givenUp? totals residue).toList) := by
  unfold lessResidue givenUp?
  cases taken : totals.subAll? residue with
  | none =>
    rw [Option.getD_none, ite_self]
    exact observes
  | some left =>
    have weights := residue.weights_cellSamples
    obtain ⟨total, hits⟩ := Summary.totals_of_sub? taken
    have sum : unweighed (some residue).toList = residue.unweighed := Nat.add_zero _
    rw [Option.map_some, sum, Option.getD_some]
    unfold Summary.Observes at observes even ⊢
    split
    · rename_i nothing
      have unused : residue.unweighed = 0 := Summary.unweighed_eq_zero_iff.mpr fun cell => by
        have none : residue.histogram.count cell = 0 := Summary.isEmpty_iff.mp nothing (.cell cell)
        rw [none]
        exact Nat.zero_le _
      omega
    · omega

/-- What a bucket still holds that goes as a part is removed, if the totals give
that up. -/
def leftover? (b : Breakdown) (p : Part) : Option Summary :=
  p.key.bind fun key => (b.find? key).bind fun bucket =>
    (bucket.remove? p.id p.contribution).bind fun (left, taken) =>
      if left.count = 0 then givenUp? (lessTotals b.totals taken p.contribution.samples) left.summary else none

/-- All that buckets still held as they went and the totals gave up. -/
def leftovers (b : Breakdown) : List Part → List Summary
  | [] => []
  | p :: rest => (b.leftover? p).toList ++ (b.removePart p).leftovers rest

/-- The same over some moves, one after the other. -/
def givenUp (b : Breakdown) : List Move → List Summary
  | [] => []
  | .add v :: rest => (b.add v).givenUp rest
  | .remove v :: rest => b.leftovers (b.grouping.parts b.filter v) ++ (b.remove v).givenUp rest

/-- The buckets are paired, and the totals have `surplus` observations too many. -/
structure Observed (b : Breakdown) (most surplus : Nat) : Prop where
  formed : b.Formed
  buckets : ∀ e ∈ b.entries, e.2.summary.Paired most
  totals : b.totals.Observes surplus

theorem empty_observed (g : Grouping) (f : Filter) (scale : Scale) : (empty g f scale).Observed 0 0 where
  formed := empty_formed g f scale
  buckets e member := by
    have none : (empty g f scale).entries = [] := congrArg SortedMap.entries (buckets_empty g f scale)
    rw [none] at member
    cases member
  totals := rfl

namespace Observed

variable {b : Breakdown} {most surplus : Nat}

theorem bucketAt (observed : b.Observed most surplus) (key : BucketKey) : (b.bucketAt key).summary.Paired most := by
  unfold Breakdown.bucketAt
  cases found : b.buckets.find? key with
  | none => exact ⟨rfl, Nat.zero_le _⟩
  | some bucket => exact observed.buckets (key, bucket) (SortedMap.find?_eq_some_iff.mp found)

theorem addTo (observed : b.Observed most surplus) {key : BucketKey} (accepted : (Store.empty b.grouping).Accepts key)
    (id : Nat) {c : Contribution} (single : c.Single) : (b.addTo id key c).Observed (most + c.sums.hits) surplus := by
  obtain ⟨_, totals⟩ := observed.formed.addTo_eq accepted id c
  have weights := single.once_hits (b.bucketAt key).lastAdded id
  refine ⟨observed.formed.addTo accepted id c, fun e member => ?_, ?_⟩
  · rcases observed.formed.mem_addTo accepted id c member with rfl | old
    · have grown := (observed.bucketAt key).add weights
      rwa [Contribution.hits_once] at grown
    · exact (observed.buckets e old).mono (Nat.le_add_right _ _)
  · rw [totals]
    exact observed.totals.add weights

theorem addPart (observed : b.Observed most surplus) {g : Grouping} {id : Nat} {p : Part} (same : b.grouping = g)
    (placed : g.Placed id p) : (b.addPart p).Observed (most + p.contribution.sums.hits) surplus := by
  have formed := addPart_formed observed.formed same placed
  unfold Breakdown.addPart at formed ⊢
  cases named : p.key with
  | none =>
    rw [named] at formed
    refine ⟨formed, fun e member => ?_, observed.totals.add placed.single.hits⟩
    exact (observed.buckets e member).mono (Nat.le_add_right _ _)
  | some key => exact observed.addTo (same ▸ placed.accepted key named) p.id placed.single

/-- What is left of a bucket is paired, and what comes out of it has an
observation for each hit too. -/
theorem bucket_left (observed : b.Observed most surplus) {key : BucketKey} {bucket left : Bucket} {id : Nat}
    {c : Contribution} {taken : Sums} (single : c.Single) (found : b.buckets.find? key = some bucket)
    (removed : bucket.remove? id c = some (left, taken)) :
    left.summary.Paired most ∧ (c.samples.map (·.weight)).sum = taken.hits := by
  obtain ⟨even, bounded⟩ := observed.buckets (key, bucket) (SortedMap.find?_eq_some_iff.mp found)
  obtain ⟨summary, subtracted, same⟩ := Option.map_eq_some_iff.mp removed
  cases same
  have weights := single.once_hits bucket.lastRemoved id
  obtain ⟨_, less⟩ := Summary.totals_of_sub? subtracted
  refine ⟨⟨even.sub weights subtracted, ?_⟩, weights⟩
  dsimp only at bounded ⊢
  omega

/-- A removal leaves the totals with those observations more that a residue
could not take along. -/
theorem removeFrom (observed : b.Observed most surplus) {key : BucketKey}
    (accepted : (Store.empty b.grouping).Accepts key) (id : Nat) {c : Contribution} (single : c.Single) :
    (b.removeFrom id key c).Observed most (surplus + unweighed (b.leftover? ⟨id, some key, c⟩).toList) ∧
      ∀ s ∈ b.leftover? ⟨id, some key, c⟩, s.Paired most := by
  have formed := observed.formed.removeFrom accepted id c
  have known : b.find? key = b.buckets.find? key := observed.formed.find? accepted
  unfold leftover?
  rw [Option.bind_some, known]
  rcases observed.formed.removeFrom_cases accepted id c with
    ⟨unchanged, refused⟩ | ⟨bucket, left, taken, found, removed, done⟩
  · have nothing : ((b.buckets.find? key).bind fun bucket => (bucket.remove? id c).bind fun (left, taken) =>
        if left.count = 0 then givenUp? (lessTotals b.totals taken c.samples) left.summary else none) = none := by
      refine Option.bind_eq_none_iff.mpr fun bucket found => ?_
      rw [refused bucket found, Option.bind_none]
    rw [unchanged, nothing]
    exact ⟨observed, by simp⟩
  · obtain ⟨paired, weights⟩ := observed.bucket_left single found removed
    have less := lessTotals_observes observed.totals (c := ⟨taken, c.samples⟩) weights
    rw [found, Option.bind_some, removed, Option.bind_some]
    dsimp only
    rcases done with ⟨counts, buckets, _, totals⟩ | ⟨gone, buckets, _, totals⟩
    · rw [if_neg counts]
      refine ⟨⟨formed, fun e member => ?_, totals ▸ less⟩, by simp⟩
      have inside : e ∈ (b.removeFrom id key c).buckets.entries := member
      rw [buckets] at inside
      rcases SortedMap.mem_insertEntry inside with rfl | old
      · exact paired
      · exact observed.buckets e old
    · rw [if_pos gone]
      refine ⟨⟨formed, fun e member => ?_, totals ▸ lessResidue_observes less paired.even⟩, fun s given => ?_⟩
      · have inside : e ∈ (b.removeFrom id key c).buckets.entries := member
        rw [buckets] at inside
        exact observed.buckets e (SortedMap.mem_erase_iff.mp inside).1
      · obtain ⟨_, _, rfl⟩ := Option.map_eq_some_iff.mp given
        exact paired

theorem removePart (observed : b.Observed most surplus) {g : Grouping} {id : Nat} {p : Part} (same : b.grouping = g)
    (placed : g.Placed id p) :
    (b.removePart p).Observed most (surplus + unweighed (b.leftover? p).toList) ∧
      ∀ s ∈ b.leftover? p, s.Paired most := by
  obtain ⟨own, key, c⟩ := p
  cases key with
  | none =>
    have formed := removePart_formed observed.formed same placed
    exact ⟨⟨formed, observed.buckets, lessTotals_observes observed.totals placed.single.hits⟩, by simp [leftover?]⟩
  | some key => exact observed.removeFrom (same ▸ placed.accepted key rfl) own placed.single

theorem addParts (observed : b.Observed most surplus) {id : Nat} {ps : List Part}
    (placed : ∀ p ∈ ps, b.grouping.Placed id p) :
    (ps.foldl Breakdown.addPart b).Observed (most + Part.total b.scale ps (.sum .hits)) surplus := by
  induction ps generalizing b most with
  | nil => exact observed
  | cons p rest ih =>
    have alike := b.addPart_alike p
    have first := observed.addPart rfl (placed p List.mem_cons_self)
    have later := ih first fun r member => alike.grouping ▸ placed r (List.mem_cons_of_mem p member)
    rw [alike.scale, Nat.add_assoc] at later
    rw [Part.total_cons]
    exact later

theorem add (observed : b.Observed most surplus) (v : View) : (b.add v).Observed
    (most + Contribution.total b.scale (b.grouping.shares b.filter v) (.sum .hits)) surplus := by
  have added := observed.addParts (b.grouping.parts_placed (f := b.filter) (v := v))
  rw [← add_eq_foldl] at added
  have le := b.grouping.parts_total_le b.filter v b.scale (.sum .hits)
  exact ⟨added.formed, fun e member => (added.buckets e member).mono (Nat.add_le_add_left le most), added.totals⟩

theorem removeParts (observed : b.Observed most surplus) {id : Nat} {ps : List Part}
    (placed : ∀ p ∈ ps, b.grouping.Placed id p) :
    (ps.foldl Breakdown.removePart b).Observed most (surplus + unweighed (b.leftovers ps)) ∧
      ∀ s ∈ b.leftovers ps, s.Paired most := by
  induction ps generalizing b surplus with
  | nil => exact ⟨observed, by simp [leftovers]⟩
  | cons p rest ih =>
    have alike := b.removePart_alike p
    obtain ⟨first, paired⟩ := observed.removePart rfl (placed p List.mem_cons_self)
    obtain ⟨later, others⟩ := ih first fun r member => alike.grouping ▸ placed r (List.mem_cons_of_mem p member)
    rw [Nat.add_assoc, ← unweighed_append] at later
    refine ⟨later, fun s member => ?_⟩
    rcases List.mem_append.mp member with front | back
    · exact paired s (Option.mem_toList.mp front)
    · exact others s back

theorem remove (observed : b.Observed most surplus) (v : View) :
    (b.remove v).Observed most (surplus + unweighed (b.leftovers (b.grouping.parts b.filter v))) ∧
      ∀ s ∈ b.leftovers (b.grouping.parts b.filter v), s.Paired most := by
  rw [remove_eq_foldl]
  exact observed.removeParts Grouping.parts_placed

/-- Whatever is added and removed, the buckets and all that the totals gave up
stay paired, and the totals have just those observations too many that residues
could not take along. -/
theorem play (observed : b.Observed most surplus) (moves : List Move) :
    (b.play moves).Observed (most + b.grouping.exact b.filter b.scale (Move.added moves) (.sum .hits))
        (surplus + unweighed (b.givenUp moves)) ∧
      ∀ s ∈ b.givenUp moves, s.Paired (most + b.grouping.exact b.filter b.scale (Move.added moves) (.sum .hits)) := by
  induction moves generalizing b most surplus with
  | nil => exact ⟨observed, by simp [givenUp]⟩
  | cons m rest ih =>
    cases m with
    | add v =>
      obtain ⟨grouping, filter, scale⟩ := b.add_alike v
      have later := ih (observed.add v)
      rw [grouping, filter, scale, Nat.add_assoc, ← Grouping.exact_cons, ← Move.added_cons_add] at later
      exact later
    | remove v =>
      obtain ⟨grouping, filter, scale⟩ := b.remove_alike v
      obtain ⟨first, paired⟩ := observed.remove v
      obtain ⟨later, others⟩ := ih first
      rw [grouping, filter, scale, ← Move.added_cons_remove v] at later others
      rw [Nat.add_assoc, ← unweighed_append] at later
      refine ⟨later, fun s member => ?_⟩
      rcases List.mem_append.mp member with front | back
      · exact (paired s front).mono (Nat.le_add_right _ _)
      · exact others s back

end Observed

/-- Whatever is added and removed, each bucket has an observation for every hit.
The totals have one for every hit just as long as nothing that they gave up of a
bucket as it went had more observations in one cell than a sample weighs. While
all hits together are no more than that, none ever has. -/
theorem observed_iff_given_up_light (g : Grouping) (f : Filter) (scale : Scale) (moves : List Move) :
    let b := (empty g f scale).play moves
    (∀ e ∈ b.entries, e.2.summary.histogram.total = e.2.summary.sums.hits) ∧
      (b.totals.histogram.total = b.totals.sums.hits ↔
        ∀ s ∈ (empty g f scale).givenUp moves, ∀ cell, s.histogram.count cell ≤ Summary.weightCap) ∧
      (g.exact f scale (Move.added moves) (.sum .hits) ≤ Summary.weightCap →
        b.totals.histogram.total = b.totals.sums.hits) := by
  intro b
  obtain ⟨observed, paired⟩ := (empty_observed g f scale).play moves
  simp only [Nat.zero_add] at observed paired
  have light : b.totals.histogram.total = b.totals.sums.hits ↔
      ∀ s ∈ (empty g f scale).givenUp moves, ∀ cell, s.histogram.count cell ≤ Summary.weightCap := by
    rw [observed.totals, Nat.add_eq_left, unweighed_eq_zero_iff]
  refine ⟨fun e member => (observed.buckets e member).even, light, fun few => light.mpr fun s given cell => ?_⟩
  obtain ⟨even, bounded⟩ := paired s given
  calc s.histogram.count cell
      _ ≤ s.histogram.total := s.histogram.count_le_total cell
      _ = s.sums.hits := even
      _ ≤ g.exact f scale (Move.added moves) (.sum .hits) := bounded
      _ ≤ Summary.weightCap := few

/-- A request whose timers, all with the same tag, took no time and were hit so
often each. -/
def hitting (id : Nat) (hits : List Nat) : View :=
  { View.tagged id "" "a" with timers := hits.map fun n => ⟨0, n, 0, 0, [⟨0, 0⟩]⟩ }

/-- Two requests come, and two go that never came: the bucket goes with hits left
in it that no request counts for, and the totals lose an observation for each. -/
theorem observed_after_strangers :
    let g : Grouping := .byTags .timers [0] .everywhere
    let moves := [.add (hitting 1 [5, 2]), .add (hitting 2 [9]), .remove (hitting 3 [1]), .remove (hitting 4 [4])]
    let b := (empty g .any .standard).play moves
    (empty g .any .standard).givenUp moves ≠ [] ∧
      g.exact .any .standard (Move.added moves) (.sum .hits) ≤ Summary.weightCap ∧
      b.totals.histogram.total = b.totals.sums.hits := by
  intro g moves b
  have few : g.exact .any .standard (Move.added moves) (.sum .hits) ≤ Summary.weightCap := by decide
  obtain ⟨_, _, even⟩ := observed_iff_given_up_light g .any .standard moves
  exact ⟨by decide, few, even few⟩

/-- A request with two timers that were hit as often as can be told comes, and
one goes that never came. The bucket goes with more observations than one sample
weighs, and the totals keep those beyond. -/
theorem observed_without_hits :
    let busy := hitting 1 [Summary.weightCap, Summary.weightCap]
    let b := (empty (.byTags .timers [0] .everywhere) .any .standard).play [.add busy, .remove (hitting 2 [1])]
    b.entries = [] ∧ b.totals.sums.hits = 0 ∧ b.totals.histogram.total = 4294967294 ∧
      b.totals.histogram.total ≠ b.totals.sums.hits := by
  decide

end Breakdown

end Rollup
