import Mathlib.Algebra.Ring.Nat
import Rollup.Histogram

namespace Rollup

namespace Tally

theorem count_set (t : Tally) (i n j : Nat) : (t.set i n).count j = if i = j then n else t.count j := by
  unfold set count
  split
  · rename_i zero
    rw [SortedMap.find?_erase]
    split
    · exact zero.symm
    · rfl
  · rw [SortedMap.find?_insert]
    split
    · rfl
    · rfl

theorem count_add (t : Tally) (i n j : Nat) :
    (t.add i n).count j = t.count j + if i = j then n else 0 := by
  rw [add, count_set]
  split
  · rename_i same
    rw [same]
  · rfl

/-- A number with a positive count is an entry with that count, and no other
number is one. -/
theorem mem_entries_iff {t : Tally} {i n : Nat} : (i, n) ∈ t.counts.entries ↔ t.count i = n ∧ 0 < n := by
  rw [← SortedMap.find?_eq_some_iff, count]
  constructor
  · intro found
    rw [found]
    exact ⟨rfl, t.positive (i, n) (SortedMap.find?_eq_some_iff.mp found)⟩
  · rintro ⟨equal, positive⟩
    cases found : t.counts.find? i with
    | none =>
      rw [found] at equal
      exact absurd equal (Nat.ne_of_lt positive)
    | some m =>
      rw [found] at equal
      exact congrArg some equal

theorem ext_count {t u : Tally} (same : ∀ i, t.count i = u.count i) : t = u := by
  have counts : t.counts = u.counts := by
    apply SortedMap.ext_find?
    intro i
    apply Option.ext
    intro n
    rw [SortedMap.find?_eq_some_iff, SortedMap.find?_eq_some_iff, mem_entries_iff, mem_entries_iff, same]
  cases t
  cases u
  cases counts
  rfl

theorem sub?_eq_some_iff {t u : Tally} {i n : Nat} :
    t.sub? i n = some u ↔ n ≤ t.count i ∧ ∀ j, u.count j = t.count j - if i = j then n else 0 := by
  unfold sub?
  split
  · rename_i enough
    rw [Option.some.injEq]
    constructor
    · rintro rfl
      refine ⟨enough, fun j => ?_⟩
      rw [count_set]
      split
      · rename_i same
        rw [same]
      · rfl
    · rintro ⟨_, counts⟩
      apply ext_count
      intro j
      rw [counts, count_set]
      split
      · rename_i same
        rw [same]
      · rfl
  · rename_i short
    simp [short]

theorem total_eq_sum (t : Tally) : t.total = t.counts.values.sum := rfl

theorem total_eq_zero_iff {t : Tally} : t.total = 0 ↔ ∀ i, t.count i = 0 := by
  rw [total_eq_sum, SortedMap.values, List.sum_eq_zero_iff_forall_eq_nat]
  constructor
  · intro zero i
    rcases Nat.eq_zero_or_pos (t.count i) with none | positive
    · exact none
    · exact zero _ (List.mem_map_of_mem (mem_entries_iff.mpr ⟨rfl, positive⟩))
  · intro zero n member
    obtain ⟨⟨i, m⟩, entry, rfl⟩ := List.mem_map.mp member
    rw [← (mem_entries_iff.mp entry).1, zero]

end Tally

namespace Scale

/-- The number of observations that samples make in one cell. -/
def observed (s : Scale) (samples : List Sample) (cell : Nat) : Nat :=
  (samples.map fun sample => if s.cellOf sample.value = cell then sample.weight else 0).sum

@[simp] theorem observed_nil (s : Scale) (cell : Nat) : s.observed [] cell = 0 := rfl

@[simp] theorem observed_cons (s : Scale) (sample : Sample) (samples : List Sample) (cell : Nat) :
    s.observed (sample :: samples) cell =
      (if s.cellOf sample.value = cell then sample.weight else 0) + s.observed samples cell := by
  simp [observed]

@[simp] theorem observed_append (s : Scale) (left right : List Sample) (cell : Nat) :
    s.observed (left ++ right) cell = s.observed left cell + s.observed right cell := by
  simp [observed]

theorem observed_beyond {s : Scale} (some_cell : 0 < s.cells) (samples : List Sample) {cell : Nat}
    (beyond : s.cells ≤ cell) : s.observed samples cell = 0 := by
  have within (d : Duration) : s.cellOf d ≠ cell := by
    unfold cellOf
    omega
  induction samples with
  | nil => rfl
  | cons sample rest ih => rw [observed_cons, if_neg (within _), ih]

theorem observed_le_weights (s : Scale) (samples : List Sample) (cell : Nat) :
    s.observed samples cell ≤ (samples.map (·.weight)).sum := by
  induction samples with
  | nil => exact Nat.le_refl 0
  | cons sample rest ih =>
    rw [observed_cons, List.map_cons, List.sum_cons]
    split <;> omega

end Scale

namespace Histogram

theorem ext_count {h g : Histogram} (scale : h.scale = g.scale) (same : ∀ cell, h.count cell = g.count cell) :
    h = g := by
  have tally : h.tally = g.tally := Tally.ext_count same
  have total : h.total = g.total := by rw [h.total_eq, g.total_eq, tally]
  cases h
  cases g
  cases scale
  cases tally
  cases total
  rfl

theorem isEmpty_iff {h : Histogram} : h.isEmpty = true ↔ ∀ cell, h.count cell = 0 := by
  rw [isEmpty, beq_iff_eq, h.total_eq, Tally.total_eq_zero_iff]
  rfl

@[simp] theorem observeAll_scale (h : Histogram) (samples : List Sample) :
    (h.observeAll samples).scale = h.scale := by
  induction samples generalizing h with
  | nil => rfl
  | cons sample rest ih => exact ih (h.observe sample)

theorem count_observeAll (h : Histogram) (samples : List Sample) (cell : Nat) :
    (h.observeAll samples).count cell = h.count cell + h.scale.observed samples cell := by
  induction samples generalizing h with
  | nil => rfl
  | cons sample rest ih =>
    have step : (h.observe sample).count cell =
        h.count cell + if h.scale.cellOf sample.value = cell then sample.weight else 0 :=
      Tally.count_add h.tally _ _ _
    have next : (h.observeAll (sample :: rest)).count cell =
        (h.observe sample).count cell + h.scale.observed rest cell := ih (h.observe sample)
    rw [next, step, Scale.observed_cons, Nat.add_assoc]

theorem forget?_eq_some_iff {h g : Histogram} {sample : Sample} :
    h.forget? sample = some g ↔ g.scale = h.scale ∧
      ∀ cell, h.scale.observed [sample] cell ≤ h.count cell ∧
        g.count cell = h.count cell - h.scale.observed [sample] cell := by
  constructor
  · intro forgotten
    unfold forget? at forgotten
    split at forgotten
    · cases forgotten
    rename_i taken
    cases forgotten
    obtain ⟨enough, counts⟩ := Tally.sub?_eq_some_iff.mp taken
    refine ⟨rfl, fun cell => ?_⟩
    simp only [Scale.observed_cons, Scale.observed_nil, Nat.add_zero]
    refine ⟨?_, counts cell⟩
    split
    · rename_i same
      exact same ▸ enough
    · exact Nat.zero_le _
  · rintro ⟨scale, counts⟩
    simp only [Scale.observed_cons, Scale.observed_nil, Nat.add_zero] at counts
    have enough := (counts (h.scale.cellOf sample.value)).1
    rw [if_pos rfl] at enough
    have taken : h.tally.sub? (h.scale.cellOf sample.value) sample.weight = some g.tally :=
      Tally.sub?_eq_some_iff.mpr ⟨enough, fun cell => (counts cell).2⟩
    unfold forget?
    split
    · rename_i none
      rw [none] at taken
      cases taken
    · rename_i left
      cases taken.symm.trans left
      exact congrArg some (ext_count scale.symm fun _ => rfl)

theorem forget?_of_le {h : Histogram} {sample : Sample}
    (enough : ∀ cell, h.scale.observed [sample] cell ≤ h.count cell) : ∃ g, h.forget? sample = some g := by
  have room := enough (h.scale.cellOf sample.value)
  rw [Scale.observed_cons, if_pos rfl, Scale.observed_nil] at room
  have taken : h.tally.sub? (h.scale.cellOf sample.value) sample.weight = some _ := if_pos room
  unfold forget?
  split
  · rename_i none
    rw [none] at taken
    cases taken
  · exact ⟨_, rfl⟩

/-- A batch of samples can be taken back exactly when every cell holds all
the observations that the batch makes there, and then each cell is short of
just those. -/
theorem forgetAll?_eq_some_iff {h g : Histogram} {samples : List Sample} :
    h.forgetAll? samples = some g ↔ g.scale = h.scale ∧
      ∀ cell, h.scale.observed samples cell ≤ h.count cell ∧
        g.count cell = h.count cell - h.scale.observed samples cell := by
  induction samples generalizing h with
  | nil =>
    simp only [forgetAll?, List.foldlM_nil, Scale.observed_nil]
    constructor
    · intro same
      cases Option.some.inj same
      exact ⟨rfl, fun cell => ⟨Nat.zero_le _, rfl⟩⟩
    · rintro ⟨scale, counts⟩
      exact congrArg some (ext_count scale.symm fun cell => (counts cell).2.symm)
  | cons sample rest ih =>
    have split : h.forgetAll? (sample :: rest) = (h.forget? sample).bind (·.forgetAll? rest) := rfl
    have front (cell : Nat) : h.scale.observed (sample :: rest) cell =
        h.scale.observed [sample] cell + h.scale.observed rest cell := by simp
    rw [split, Option.bind_eq_some_iff]
    constructor
    · rintro ⟨between, first, later⟩
      obtain ⟨scale, counts⟩ := forget?_eq_some_iff.mp first
      obtain ⟨scaleLater, countsLater⟩ := ih.mp later
      refine ⟨scaleLater.trans scale, fun cell => ?_⟩
      have one := counts cell
      have others := countsLater cell
      rw [scale] at others
      rw [front]
      omega
    · rintro ⟨scale, counts⟩
      have room (cell : Nat) : h.scale.observed [sample] cell ≤ h.count cell :=
        Nat.le_trans (front cell ▸ Nat.le_add_right _ _) (counts cell).1
      obtain ⟨between, first⟩ := forget?_of_le room
      refine ⟨between, first, ih.mpr ?_⟩
      obtain ⟨scaleFirst, countsFirst⟩ := forget?_eq_some_iff.mp first
      refine ⟨scale.trans scaleFirst.symm, fun cell => ?_⟩
      have one := countsFirst cell
      have all := counts cell
      rw [front] at all
      rw [scaleFirst]
      omega

theorem forgetAll?_of_le {h : Histogram} {samples : List Sample}
    (enough : ∀ cell, h.scale.observed samples cell ≤ h.count cell) : ∃ g, h.forgetAll? samples = some g := by
  induction samples generalizing h with
  | nil => exact ⟨h, rfl⟩
  | cons sample rest ih =>
    have front (cell : Nat) : h.scale.observed (sample :: rest) cell =
        h.scale.observed [sample] cell + h.scale.observed rest cell := by simp
    have room (cell : Nat) : h.scale.observed [sample] cell ≤ h.count cell :=
      Nat.le_trans (front cell ▸ Nat.le_add_right _ _) (enough cell)
    obtain ⟨between, first⟩ := forget?_of_le room
    obtain ⟨scale, counts⟩ := forget?_eq_some_iff.mp first
    obtain ⟨g, later⟩ := ih (h := between) fun cell => by
      have one := counts cell
      have all := enough cell
      rw [front] at all
      rw [scale]
      omega
    exact ⟨g, Option.bind_eq_some_iff.mpr ⟨between, first, later⟩⟩

end Histogram

end Rollup
