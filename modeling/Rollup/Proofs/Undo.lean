import Rollup.Proofs.Piecemeal
import Rollup.Proofs.Rebuild

namespace Rollup

namespace Bucket

/-- Request `id` is the last one that came just when it is the last one that
went. -/
def Even (b : Bucket) (id : Nat) : Prop := b.lastAdded = some id ↔ b.lastRemoved = some id

/-- No sum goes past where it stops when the contribution comes. -/
def HasRoom (b : Bucket) (c : Contribution) : Prop :=
  Quantity.Fits fun q => b.summary.amount q + c.amount b.summary.histogram.scale q

/-- A bucket that counts nothing is a new one. -/
def Used (b : Bucket) : Prop := b.count = 0 → b.lastAdded = none ∧ b.lastRemoved = none ∧ ∀ q, b.summary.amount q = 0

variable {b : Bucket} {id : Nat} {c : Contribution}

theorem Even.once_eq (even : b.Even id) (c : Contribution) : c.once b.lastAdded id = c.once b.lastRemoved id := by
  by_cases last : b.lastAdded = some id
  · rw [Contribution.once, Contribution.once, countedOnce, countedOnce, if_pos last, if_pos (even.mp last)]
  · rw [Contribution.once_of_ne last, Contribution.once_of_ne fun removed => last (even.mpr removed)]

theorem amount_add_of_room (room : b.HasRoom c) (q : Quantity) : (b.add id c).1.summary.amount q =
    b.summary.amount q + (c.once b.lastAdded id).amount b.summary.histogram.scale q := by
  have fits : Quantity.Fits fun q => b.summary.amount q + (c.once b.lastAdded id).amount b.summary.histogram.scale q :=
    room.mono fun q => Nat.add_le_add_left (c.amount_once_le _ _ _ q) _
  rw [amount_add]
  exact fits.limit_eq q

/-- What came goes again, but for the count, which depends on the request being
the last one that went or that came. -/
theorem remove?_add (used : b.Used) (single : c.Single) (room : b.HasRoom c) :
    ∃ left, (b.add id c).1.remove? id c = some (left, (c.once b.lastRemoved id).sums) ∧ left.values = b.values ∧
      left.summary.histogram.scale = b.summary.histogram.scale ∧
      ∀ q, left.summary.amount q + (c.once b.lastRemoved id).amount b.summary.histogram.scale q =
        b.summary.amount q + (c.once b.lastAdded id).amount b.summary.histogram.scale q := by
  have scale : (b.add id c).1.summary.histogram.scale = b.summary.histogram.scale := Summary.add_scale _ _ _
  have enough (q : Quantity) : (c.once b.lastRemoved id).amount b.summary.histogram.scale q ≤
      b.summary.amount q + (c.once b.lastAdded id).amount b.summary.histogram.scale q := by
    rw [Contribution.amount_once _ single, Contribution.amount_once _ single]
    by_cases counts : q = .sum .count
    · subst counts
      have one : (if b.lastRemoved = some id then 0 else 1) ≤ 1 := by split <;> omega
      rw [if_pos rfl, if_pos rfl]
      by_cases last : b.lastAdded = some id
      · have counted : b.summary.amount (.sum .count) ≠ 0 := by
          intro zero
          rw [(used zero).1] at last
          cases last
        omega
      · rw [if_neg last]
        omega
    · simp only [if_neg counts]
      omega
  obtain ⟨left, taken, removed⟩ : ∃ left taken, (b.add id c).1.remove? id c = some (left, taken) :=
    remove?_of_le fun q => by
      rw [scale, amount_add_of_room room]
      exact enough q
  obtain ⟨rfl, rest, sameScale, amounts⟩ := remove?_eq_some removed
  refine ⟨left, removed, by rw [rest]; rfl, sameScale.trans scale, fun q => ?_⟩
  have less := (amounts q).2
  rw [scale, amount_add_of_room room] at less
  have le := enough q
  have last : (b.add id c).1.lastRemoved = b.lastRemoved := rfl
  rw [last] at less
  omega

theorem remove?_add_of_even (even : b.Even id) (used : b.Used) (single : c.Single) (room : b.HasRoom c) :
    ∃ left, (b.add id c).1.remove? id c = some (left, (c.once b.lastAdded id).sums) ∧ left.content = b.content := by
  obtain ⟨left, removed, values, scale, amounts⟩ := remove?_add used single room
  rw [← even.once_eq] at removed amounts
  have summary : left.summary = b.summary := Summary.ext_amount scale fun q => Nat.add_right_cancel (amounts q)
  exact ⟨left, removed, Prod.ext summary values⟩

/-- A bucket shows the same again after a contribution came and went just when
the marks of the request agree. -/
theorem shed_add_iff (used : b.Used) (single : c.Single) (room : b.HasRoom c) :
    ((b.add id c).1.shed id c).map content = (if b.count = 0 then none else some b.content) ↔ b.Even id := by
  constructor
  · intro same
    obtain ⟨left, removed, _, _, amounts⟩ := remove?_add used single room
    have counts := amounts (.sum .count)
    rw [Contribution.amount_once _ single, Contribution.amount_once _ single] at counts
    simp only [if_true] at counts
    have leftCount : left.summary.amount (.sum .count) = left.count := rfl
    have oldCount : b.summary.amount (.sum .count) = b.count := rfl
    rw [leftCount, oldCount] at counts
    have counted : left.count = b.count := by
      rw [shed, removed] at same
      by_cases gone : left.count = 0
      · by_cases empty : b.count = 0
        · omega
        · simp [gone, empty] at same
      · by_cases empty : b.count = 0
        · simp [gone, empty] at same
        · simp only [if_neg gone, if_neg empty, Option.map_some, Option.some.injEq] at same
          exact congrArg (fun shown => shown.1.sums.count) same
    unfold Even
    by_cases came : b.lastAdded = some id <;> by_cases went : b.lastRemoved = some id <;> simp_all
  · intro even
    obtain ⟨left, removed, content⟩ := remove?_add_of_even even used single room
    have counted : left.count = b.count := congrArg (fun shown => shown.1.sums.count) content
    rw [shed, removed]
    by_cases empty : b.count = 0
    · simp [counted, empty]
    · simp [counted, empty, content]

end Bucket

namespace Breakdown

variable {b : Breakdown}

theorem Tidy.bucketAt_used (tidy : b.Tidy) (key : BucketKey) : (b.bucketAt key).Used := by
  intro zero
  unfold bucketAt at zero ⊢
  cases found : b.buckets.find? key with
  | none => exact ⟨rfl, rfl, fun q => Summary.amount_empty b.scale q⟩
  | some bucket =>
    have counts := tidy.counted (key, bucket) (SortedMap.find?_eq_some_iff.mp found)
    rw [found] at zero
    exact absurd zero (Nat.pos_iff_ne_zero.mp counts)

theorem Tidy.find?_content (tidy : b.Tidy) (key : BucketKey) : (b.buckets.find? key).map Bucket.content =
    if (b.bucketAt key).count = 0 then none else some (b.bucketAt key).content := by
  unfold bucketAt
  cases found : b.buckets.find? key with
  | none => rfl
  | some bucket =>
    have counts := tidy.counted (key, bucket) (SortedMap.find?_eq_some_iff.mp found)
    exact (if_neg (Nat.pos_iff_ne_zero.mp counts)).symm

section Places

variable {g : Grouping} {id : Nat} {ps : List Part}

/-- Steps that each change one place, in different places: every place is
changed once, by the step for it, or not at all. -/
theorem find?_foldl {P : Breakdown → Prop} {step : Breakdown → Part → Breakdown}
    (change : Part → BucketKey → Option Bucket → Option Bucket) (keeps : ∀ b p, P b → g.Placed id p → P (step b p))
    (each : ∀ b p j, P b → g.Placed id p → (step b p).buckets.find? j =
      if p.key = some j then change p j (b.buckets.find? j) else b.buckets.find? j)
    (start : P b) (placed : ∀ p ∈ ps, g.Placed id p) (distinct : ps.Pairwise fun p r => p.key ≠ r.key) (j : BucketKey) :
    (∀ p ∈ ps, p.key = some j → (ps.foldl step b).buckets.find? j = change p j (b.buckets.find? j)) ∧
      ((∀ p ∈ ps, p.key ≠ some j) → (ps.foldl step b).buckets.find? j = b.buckets.find? j) := by
  induction ps generalizing b with
  | nil => exact ⟨fun _ member => absurd member List.not_mem_nil, fun _ => rfl⟩
  | cons p rest ih =>
    have front := placed p List.mem_cons_self
    obtain ⟨apart, distinctRest⟩ := List.pairwise_cons.mp distinct
    have here := each b p j start front
    obtain ⟨changed, kept⟩ := ih (keeps b p start front) (fun r member => placed r (List.mem_cons_of_mem p member))
      distinctRest
    constructor
    · intro r member named
      rcases List.mem_cons.mp member with rfl | deeper
      · rw [if_pos named] at here
        exact (kept fun q inside same => apart q inside (named.trans same.symm)).trans here
      · rw [if_neg fun same => apart r deeper (same.trans named.symm)] at here
        rw [← here]
        exact changed r deeper named
    · intro elsewhere
      rw [if_neg (elsewhere p List.mem_cons_self)] at here
      rw [← here]
      exact kept fun q inside => elsewhere q (List.mem_cons_of_mem p inside)

variable (tidy : b.Tidy) (placed : ∀ p ∈ ps, b.grouping.Placed id p) (distinct : ps.Pairwise fun p r => p.key ≠ r.key)

include tidy placed distinct

theorem find?_addParts (j : BucketKey) :
    (∀ p ∈ ps, p.key = some j →
      (ps.foldl addPart b).buckets.find? j = some ((b.bucketAt j).add p.id p.contribution).1) ∧
      ((∀ p ∈ ps, p.key ≠ some j) → (ps.foldl addPart b).buckets.find? j = b.buckets.find? j) := by
  refine find?_foldl (P := fun c => c.Tidy ∧ b.Alike c)
    (fun p j found => some ((found.getD (.fresh b.scale j.values)).add p.id p.contribution).1) ?_ ?_
    ⟨tidy, .refl b⟩ placed distinct j
  · intro c p ⟨tidy, alike⟩ front
    exact ⟨addPart_tidy tidy alike.grouping front, alike.trans (c.addPart_alike p)⟩
  · intro c p j ⟨tidy, alike⟩ front
    rw [← alike.grouping] at front
    rw [← alike.scale]
    exact find?_addPart tidy.formed front.self j

theorem find?_removeParts (j : BucketKey) :
    (∀ p ∈ ps, p.key = some j →
      (ps.foldl removePart b).buckets.find? j = (b.buckets.find? j).bind (·.shed p.id p.contribution)) ∧
      ((∀ p ∈ ps, p.key ≠ some j) → (ps.foldl removePart b).buckets.find? j = b.buckets.find? j) := by
  refine find?_foldl (P := fun c => c.Tidy ∧ b.Alike c) (fun p _ found => found.bind (·.shed p.id p.contribution))
    ?_ ?_ ⟨tidy, .refl b⟩ placed distinct j
  · intro c p ⟨tidy, alike⟩ front
    exact ⟨removePart_tidy tidy alike.grouping front, alike.trans (c.removePart_alike p)⟩
  · intro c p j ⟨tidy, alike⟩ front
    rw [← alike.grouping] at front
    exact find?_removePart tidy.formed front.self j

end Places

/-- What a part adds where it goes. -/
def gain (b : Breakdown) (p : Part) : Contribution :=
  p.key.elim p.contribution fun key => p.contribution.once (b.bucketAt key).lastAdded p.id

theorem addPart_totals (formed : b.Formed) {p : Part} (placed : b.grouping.Placed p.id p) :
    (b.addPart p).totals = b.totals.add (b.gain p).sums (b.gain p).samples := by
  obtain ⟨id, key, c⟩ := p
  cases key with
  | none => rfl
  | some key => exact (formed.addTo_eq (placed.accepted key rfl) id c).2

theorem amount_gain_le (b : Breakdown) (p : Part) (q : Quantity) :
    (b.gain p).amount b.scale q ≤ p.contribution.amount b.scale q := by
  obtain ⟨id, key, c⟩ := p
  cases key with
  | none => exact Nat.le_refl _
  | some key => exact c.amount_once_le _ _ _ q

theorem gain_addPart (formed : b.Formed) {p r : Part} (placed : b.grouping.Placed p.id p) (apart : p.key ≠ r.key) :
    (b.addPart p).gain r = b.gain r := by
  obtain ⟨id, key, c⟩ := r
  cases key with
  | none => rfl
  | some key =>
    have same : (b.addPart p).bucketAt key = b.bucketAt key := by
      rw [bucketAt, bucketAt, find?_addPart formed placed, if_neg apart, (b.addPart_alike p).scale]
    show c.once ((b.addPart p).bucketAt key).lastAdded id = _
    rw [same]
    rfl

theorem totals_addParts {id : Nat} {ps : List Part} (tidy : b.Tidy) (placed : ∀ p ∈ ps, b.grouping.Placed id p)
    (distinct : ps.Pairwise fun p r => p.key ≠ r.key)
    (room : Quantity.Fits fun q => b.totals.amount q + Part.total b.scale ps q) (q : Quantity) :
    (ps.foldl addPart b).totals.amount q = b.totals.amount q + Contribution.total b.scale (ps.map b.gain) q := by
  induction ps generalizing b with
  | nil => rfl
  | cons p rest ih =>
    have front := placed p List.mem_cons_self
    obtain ⟨apart, distinctRest⟩ := List.pairwise_cons.mp distinct
    have alike := b.addPart_alike p
    have fits : Quantity.Fits fun q => b.totals.amount q + (b.gain p).amount b.scale q := room.mono fun r => by
      have le := b.amount_gain_le p r
      rw [Part.total_cons]
      omega
    have first (r : Quantity) : (b.addPart p).totals.amount r = b.totals.amount r + (b.gain p).amount b.scale r := by
      rw [addPart_totals tidy.formed front.self, Summary.amount_add, tidy.formed.totalsScale]
      exact fits.limit_eq r
    have gains : rest.map (b.addPart p).gain = rest.map b.gain :=
      List.map_congr_left fun r member => gain_addPart tidy.formed front.self (apart r member)
    have later := ih (addPart_tidy tidy rfl front)
      (fun r member => alike.grouping ▸ placed r (List.mem_cons_of_mem p member)) distinctRest <| room.mono fun r => by
        have le := b.amount_gain_le p r
        rw [alike.scale, first, Part.total_cons]
        omega
    rw [List.foldl_cons, later, first, gains, alike.scale, List.map_cons, Contribution.total_cons]
    omega

/-- Taking a part out finds what is to be taken: its bucket is there, gives it,
and is empty if it counts nothing any more. -/
def Yields (b : Breakdown) (p : Part) (taken : Contribution) : Prop :=
  match p.key with
  | none => taken = p.contribution
  | some key => ∃ bucket left, b.buckets.find? key = some bucket ∧
      bucket.remove? p.id p.contribution = some (left, taken.sums) ∧ taken.samples = p.contribution.samples ∧
      (left.count = 0 → left.summary.isEmpty = true)

theorem Yields.totals {p : Part} {taken : Contribution} (yields : b.Yields p taken) (formed : b.Formed)
    (placed : b.grouping.Placed p.id p) {rest : Quantity → Nat}
    (holds : ∀ q, b.totals.amount q = rest q + taken.amount b.scale q) (q : Quantity) :
    (b.removePart p).totals.amount q = rest q := by
  have less : (lessTotals b.totals taken.sums taken.samples).amount q = rest q := by
    rw [amount_lessTotals (fun r => ?_), formed.totalsScale, holds]
    · exact Nat.add_sub_cancel _ _
    · rw [formed.totalsScale, holds]
      exact Nat.le_add_left _ _
  obtain ⟨id, key, c⟩ := p
  cases key with
  | none =>
    cases (yields : taken = c)
    exact less
  | some key =>
    obtain ⟨bucket, left, found, removed, samples, empty⟩ := yields
    have samples : taken.samples = c.samples := samples
    rw [samples] at less
    have step : (b.removePart ⟨id, some key, c⟩).totals = (b.removeFrom id key c).totals := rfl
    rw [step]
    rcases formed.removeFrom_cases (placed.accepted key rfl) id c with
      ⟨_, short⟩ | ⟨bucket', left', taken', found', removed', done⟩
    · exact absurd (removed.symm.trans (short bucket found)) (Option.some_ne_none _)
    · cases found.symm.trans found'
      cases removed.symm.trans removed'
      rcases done with ⟨_, _, _, totals⟩ | ⟨gone, _, _, totals⟩
      · rw [totals]
        exact less
      · rw [totals, lessResidue, if_pos (empty gone)]
        exact less

theorem Yields.removePart {p r : Part} {taken : Contribution} (yields : b.Yields r taken) (formed : b.Formed)
    (placed : b.grouping.Placed p.id p) (apart : p.key ≠ r.key) : (b.removePart p).Yields r taken := by
  obtain ⟨id, key, c⟩ := r
  cases key with
  | none => exact yields
  | some key =>
    obtain ⟨bucket, left, found, rest⟩ := yields
    refine ⟨bucket, left, ?_, rest⟩
    rw [find?_removePart formed placed, if_neg apart]
    exact found

theorem totals_removeParts {id : Nat} {ps : List Part} {taken : Part → Contribution} (tidy : b.Tidy)
    (placed : ∀ p ∈ ps, b.grouping.Placed id p) (distinct : ps.Pairwise fun p r => p.key ≠ r.key)
    (yields : ∀ p ∈ ps, b.Yields p (taken p)) {rest : Quantity → Nat}
    (holds : ∀ q, b.totals.amount q = rest q + Contribution.total b.scale (ps.map taken) q) (q : Quantity) :
    (ps.foldl removePart b).totals.amount q = rest q := by
  induction ps generalizing b with
  | nil => exact holds q
  | cons p others ih =>
    have front := placed p List.mem_cons_self
    obtain ⟨apart, distinctRest⟩ := List.pairwise_cons.mp distinct
    have alike := b.removePart_alike p
    refine ih (removePart_tidy tidy rfl front)
      (fun r member => alike.grouping ▸ placed r (List.mem_cons_of_mem p member)) distinctRest
      (fun r member => (yields r (List.mem_cons_of_mem p member)).removePart tidy.formed front.self (apart r member))
      fun r => ?_
    rw [alike.scale]
    have first (s : Quantity) : b.totals.amount s =
        rest s + Contribution.total b.scale (others.map taken) s + (taken p).amount b.scale s := by
      rw [holds, List.map_cons, Contribution.total_cons]
      omega
    exact (yields p List.mem_cons_self).totals tidy.formed front.self first r

/-- No sum of the totals or of a bucket goes past where it stops when the
request comes. -/
structure HasRoom (b : Breakdown) (v : View) : Prop where
  totals : Quantity.Fits fun q => b.totals.amount q + Part.total b.scale (b.grouping.parts b.filter v) q
  buckets : ∀ p ∈ b.grouping.parts b.filter v, ∀ key ∈ p.key, (b.bucketAt key).HasRoom p.contribution

/-- In every bucket that the request goes to, it is the last one that came just
when it is the last one that went. -/
def Even (b : Breakdown) (v : View) : Prop :=
  ∀ p ∈ b.grouping.parts b.filter v, ∀ key ∈ p.key, (b.bucketAt key).Even v.id

section Undo

variable {v : View}

theorem add_placed (b : Breakdown) (v : View) :
    ∀ p ∈ b.grouping.parts b.filter v, (b.add v).grouping.Placed v.id p := by
  intro p member
  rw [(b.add_alike v).grouping]
  exact Grouping.parts_placed p member

theorem undone_eq_foldl (b : Breakdown) (v : View) :
    (b.add v).remove v = (b.grouping.parts b.filter v).foldl removePart (b.add v) := by
  rw [remove_eq_foldl, (b.add_alike v).grouping, (b.add_alike v).filter]

theorem Tidy.find?_added (tidy : b.Tidy) (j : BucketKey) :
    (∀ p ∈ b.grouping.parts b.filter v, p.key = some j →
      (b.add v).buckets.find? j = some ((b.bucketAt j).add v.id p.contribution).1) ∧
      ((∀ p ∈ b.grouping.parts b.filter v, p.key ≠ some j) → (b.add v).buckets.find? j = b.buckets.find? j) := by
  obtain ⟨there, others⟩ := find?_addParts tidy Grouping.parts_placed (b.grouping.parts_distinct b.filter v) j
  rw [← add_eq_foldl] at there others
  refine ⟨fun p member named => ?_, others⟩
  rw [there p member named, (Grouping.parts_placed p member).id]

/-- What is under a key after a request came and went. -/
theorem Tidy.find?_undone (tidy : b.Tidy) (j : BucketKey) :
    (∀ p ∈ b.grouping.parts b.filter v, p.key = some j → ((b.add v).remove v).buckets.find? j =
      ((b.bucketAt j).add v.id p.contribution).1.shed v.id p.contribution) ∧
      ((∀ p ∈ b.grouping.parts b.filter v, p.key ≠ some j) →
        ((b.add v).remove v).buckets.find? j = b.buckets.find? j) := by
  obtain ⟨there, others⟩ := tidy.find?_added (v := v) j
  have tidy' : (b.add v).Tidy := tidy.turn (.move (.add v))
  obtain ⟨went, kept⟩ := find?_removeParts tidy' (b.add_placed v) (b.grouping.parts_distinct b.filter v) j
  rw [← undone_eq_foldl] at went kept
  refine ⟨fun p member named => ?_, fun elsewhere => (kept elsewhere).trans (others elsewhere)⟩
  rw [went p member named, there p member named, (Grouping.parts_placed p member).id]
  rfl

theorem contents_eq_iff {b c : Breakdown} : b.contents = c.contents ↔
    ∀ key, (b.buckets.find? key).map Bucket.content = (c.buckets.find? key).map Bucket.content := by
  refine ⟨fun same key => ?_, SortedMap.map_entries_congr⟩
  have maps : b.buckets.mapValues Bucket.content = c.buckets.mapValues Bucket.content := SortedMap.ext same
  rw [← SortedMap.find?_mapValues, maps, SortedMap.find?_mapValues]

theorem Tidy.contents_undone_iff (tidy : b.Tidy) (room : b.HasRoom v) :
    ((b.add v).remove v).contents = b.contents ↔ b.Even v := by
  have restored (p : Part) (member : p ∈ b.grouping.parts b.filter v) (key : BucketKey) (named : p.key = some key) :
      (((b.add v).remove v).buckets.find? key).map Bucket.content = (b.buckets.find? key).map Bucket.content ↔
        (b.bucketAt key).Even v.id := by
    rw [(tidy.find?_undone key).1 p member named, tidy.find?_content]
    exact Bucket.shed_add_iff (tidy.bucketAt_used key) (Grouping.parts_placed p member).single
      (room.buckets p member key named)
  rw [contents_eq_iff]
  constructor
  · intro same p member key named
    exact (restored p member key named).mp (same key)
  · intro even key
    by_cases touched : ∃ p ∈ b.grouping.parts b.filter v, p.key = some key
    · obtain ⟨p, member, named⟩ := touched
      exact (restored p member key named).mpr (even p member key named)
    · rw [(tidy.find?_undone key).2 fun p member named => touched ⟨p, member, named⟩]

theorem Tidy.yields_added (tidy : b.Tidy) (room : b.HasRoom v) (even : b.Even v) :
    ∀ p ∈ b.grouping.parts b.filter v, (b.add v).Yields p (b.gain p) := by
  intro p member
  have placed := Grouping.parts_placed p member
  have there (key : BucketKey) := (tidy.find?_added (v := v) key).1 p member
  have fits := room.buckets p member
  have even := even p member
  obtain ⟨id, key, c⟩ := p
  cases (placed.id : id = v.id)
  cases key with
  | none => rfl
  | some key =>
    obtain ⟨left, removed, content⟩ :=
      Bucket.remove?_add_of_even (even key rfl) (tidy.bucketAt_used key) placed.single (fits key rfl)
    refine ⟨_, left, there key rfl, removed, rfl, fun zero => ?_⟩
    obtain ⟨summary, _⟩ := Prod.mk.inj content
    have unused : (b.bucketAt key).count = 0 := (congrArg (fun s => s.sums.count) summary).symm.trans zero
    rw [summary]
    exact Summary.isEmpty_iff.mpr (tidy.bucketAt_used key unused).2.2

theorem Tidy.totals_undone (tidy : b.Tidy) (room : b.HasRoom v) (even : b.Even v) :
    ((b.add v).remove v).totals = b.totals := by
  have tidy' : (b.add v).Tidy := tidy.turn (.move (.add v))
  have distinct := b.grouping.parts_distinct b.filter v
  have grown (q : Quantity) : (b.add v).totals.amount q = b.totals.amount q +
      Contribution.total (b.add v).scale ((b.grouping.parts b.filter v).map b.gain) q := by
    rw [(b.add_alike v).scale, add_eq_foldl]
    exact totals_addParts tidy Grouping.parts_placed distinct room.totals q
  have shrunk := totals_removeParts tidy' (b.add_placed v) distinct (tidy.yields_added room even) grown
  rw [← undone_eq_foldl] at shrunk
  refine Summary.ext_amount ?_ shrunk
  rw [(remove_formed tidy'.formed v).totalsScale, tidy.formed.totalsScale]
  exact ((b.add_alike v).trans ((b.add v).remove_alike v)).scale

end Undo

section Runs

variable (g : Grouping) (f : Filter) (scale : Scale)

theorem play_tidy (moves : List Move) : ((empty g f scale).play moves).Tidy := by
  have tidy := (empty_tidy g f scale).turns (moves.map .move)
  unfold turns at tidy
  rw [List.foldl_map] at tidy
  exact tidy

/-- Buckets only know requests that were added and removed. -/
theorem play_marked (moves : List Move) : ((empty g f scale).play moves).Marked
    (· ∈ (Move.added moves).map View.id) (· ∈ (Move.removed moves).map View.id) := by
  induction moves using List.reverseRecOn with
  | nil => exact empty_marked g f scale _ _
  | append_singleton before m ih =>
    have formed := (play_tidy g f scale before).formed
    have played : (empty g f scale).play (before ++ [m]) = ((empty g f scale).play before).move m := by
      rw [play, List.foldl_append]
      rfl
    rw [played]
    cases m with
    | add v => exact (ih.later [.add v]).add formed (by simp)
    | remove v => exact (ih.later [.remove v]).remove formed (by simp)

/-- Whatever came and went before: where there is room for a request, letting it
come and go restores the totals and the contents of all buckets just when, in
every bucket that it goes to, it is the last one that came if and only if it is
the last one that went. That holds of every request that comes for the first
time. -/
theorem undone_iff_even (moves : List Move) {v : View} (room : ((empty g f scale).play moves).HasRoom v) :
    let b := (empty g f scale).play moves
    (((b.add v).remove v).totals = b.totals ∧ ((b.add v).remove v).contents = b.contents ↔ b.Even v) ∧
      (v.id ∉ (Move.added moves).map View.id → v.id ∉ (Move.removed moves).map View.id → b.Even v) := by
  intro b
  have tidy : b.Tidy := play_tidy g f scale moves
  have marked := play_marked g f scale moves
  have contents := tidy.contents_undone_iff room
  refine ⟨⟨fun same => contents.mp same.2, fun even => ⟨tidy.totals_undone room even, contents.mpr even⟩⟩, ?_⟩
  intro new fresh p member key named
  obtain ⟨came, went⟩ := marked.bucketAt key
  exact ⟨fun last => absurd (came v.id last) new, fun last => absurd (went v.id last) fresh⟩

end Runs

end Breakdown

namespace Move

/-- Whether requests come only while they are not there, and go only while they
are. -/
def alternate (present : List View) : List Move → Bool
  | [] => true
  | .add v :: rest => (present.all fun u => u.id ≠ v.id) && alternate (v :: present) rest
  | .remove v :: rest => present.contains v && alternate (present.erase v) rest

end Move

namespace Breakdown

/-- Two requests for one script come, and one of them goes. -/
def visits (first second gone : Nat) : List Move :=
  [.add (.plain first (.ofSecs 1)), .add (.plain second (.ofSecs 2)), .remove (.plain gone (.ofSecs gone))]

/-- The one that came last and went can come and go again. -/
theorem last_visit_undone :
    let b := (empty (.byAttributes [.script]) .any .standard).play (visits 1 2 2)
    let v := View.plain 2 (.ofSecs 2)
    b.HasRoom v ∧ ((b.add v).remove v).totals = b.totals ∧ ((b.add v).remove v).contents = b.contents := by
  intro b v
  have room : b.HasRoom v := by
    refine ⟨fun f cap stops => ?_, fun p member key named f cap stops => ?_⟩
    · cases f <;> cases stops <;> decide
    · cases List.mem_singleton.mp (show p ∈ [_] from member)
      cases named
      cases f <;> cases stops <;> decide
  have undone := (undone_iff_even (.byAttributes [.script]) .any .standard (visits 1 2 2) room).1
  have even : b.Even v := by
    intro p member key named
    cases List.mem_singleton.mp (show p ∈ [_] from member)
    cases named
    exact ⟨fun _ => by decide, fun _ => by decide⟩
  exact ⟨room, undone.mpr even⟩

/-- The one that came first and went leaves a count behind when it comes and
goes again. -/
theorem first_visit_not_undone :
    let b := (empty (.byAttributes [.script]) .any .standard).play (visits 1 2 1)
    let v := View.plain 1 (.ofSecs 1)
    Move.alternate [] (visits 1 2 1 ++ [.add v, .remove v]) = true ∧ Filter.any.accepts v = true ∧ b.HasRoom v ∧
      ¬ (((b.add v).remove v).totals = b.totals ∧ ((b.add v).remove v).contents = b.contents) := by
  intro b v
  refine ⟨by decide, by decide, ⟨fun f cap stops => ?_, fun p member key named f cap stops => ?_⟩, by decide⟩
  · cases f <;> cases stops <;> decide
  · cases List.mem_singleton.mp (show p ∈ [_] from member)
    cases named
    cases f <;> cases stops <;> decide

end Breakdown

end Rollup
