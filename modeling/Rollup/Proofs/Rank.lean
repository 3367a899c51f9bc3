import Mathlib.Data.Multiset.Sort
import Rollup.Proofs.TakeBack

namespace Rollup

namespace Capped

variable {cap : Nat}

instance : IsTrans (Capped cap) (· ≤ ·) := ⟨fun _ _ _ => Nat.le_trans⟩

instance : Std.Antisymm fun a b : Capped cap => a ≤ b := ⟨fun _ _ below above => Capped.ext (Nat.le_antisymm below above)⟩

instance : Std.Total fun a b : Capped cap => a ≤ b := ⟨fun a b => Nat.le_total a.val b.val⟩

end Capped

/-- The observations that samples stand for, each by itself. -/
def Sample.durations (samples : List Sample) : Multiset Duration :=
  (samples.map fun sample => Multiset.replicate sample.weight sample.value).sum

theorem Sample.count_durations (scale : Scale) (samples : List Sample) (cell : Nat) :
    ((durations samples).map scale.cellOf).count cell = scale.observed samples cell := by
  induction samples with
  | nil => rfl
  | cons sample rest ih =>
    unfold durations at ih ⊢
    simp [ih, Multiset.count_replicate]

namespace Histogram

/-- Calls that take back nothing but observations made before and not taken
back since, with the observations that they leave. -/
inductive Leaves : List Call → Multiset Duration → Prop
  | none : Leaves [] 0
  | observe {calls left} (sample : Sample) :
      Leaves calls left → Leaves (calls ++ [.observe sample]) (left + Sample.durations [sample])
  | forget {calls left} (sample : Sample) :
      Leaves calls (left + Sample.durations [sample]) → Leaves (calls ++ [.forget sample]) left
  | forgetAll {calls left} (samples : List Sample) :
      Leaves calls (left + Sample.durations samples) → Leaves (calls ++ [.forgetAll samples]) left

/-- `h` counts each of some observations in its cell, and nothing else. -/
def Tells (h : Histogram) (held : Multiset Duration) : Prop :=
  ∀ cell, h.count cell = (held.map h.scale.cellOf).count cell

theorem Tells.observeAll {h : Histogram} {held : Multiset Duration} (tells : h.Tells held) (samples : List Sample) :
    (h.observeAll samples).Tells (held + Sample.durations samples) := by
  intro cell
  rw [count_observeAll, observeAll_scale, Multiset.map_add, Multiset.count_add, Sample.count_durations, tells cell]

/-- Observations that are there can be taken back. -/
theorem Tells.forgetAll {h : Histogram} {held : Multiset Duration} {samples : List Sample}
    (tells : h.Tells (held + Sample.durations samples)) :
    ∃ left, h.forgetAll samples = (left, true) ∧ left.scale = h.scale ∧ left.Tells held := by
  have counts (cell : Nat) :
      h.count cell = (held.map h.scale.cellOf).count cell + h.scale.observed samples cell := by
    rw [tells cell, Multiset.map_add, Multiset.count_add, Sample.count_durations]
  rcases h.forgetAll_cases samples with ⟨left, taken, same, less⟩ | ⟨_, cell, short⟩
  · refine ⟨left, taken, same, fun cell => ?_⟩
    have all := counts cell
    have rest := less cell
    rw [same]
    omega
  · have all := counts cell
    omega

theorem Leaves.tells {calls : List Call} {left : Multiset Duration} (leaves : Leaves calls left) (scale : Scale) :
    (play scale calls).scale = scale ∧ (play scale calls).Tells left := by
  induction leaves with
  | none => exact ⟨rfl, fun _ => rfl⟩
  | observe sample _ ih =>
    rw [play_append]
    exact ⟨ih.1, ih.2.observeAll [sample]⟩
  | forget sample _ ih =>
    obtain ⟨left, taken, same, tells⟩ := ih.2.forgetAll
    rw [play_append, call, forget_eq, taken]
    exact ⟨same.trans ih.1, tells⟩
  | forgetAll samples _ ih =>
    obtain ⟨left, taken, same, tells⟩ := ih.2.forgetAll
    rw [play_append, call, taken]
    exact ⟨same.trans ih.1, tells⟩

theorem Tells.total_eq {h : Histogram} {held : Multiset Duration} (tells : h.Tells held) : h.total = held.card := by
  have same : (h.tally.spread : Multiset Nat) = held.map h.scale.cellOf := by
    ext cell
    rw [Multiset.coe_count, Tally.count_spread]
    exact tells cell
  have sizes := congrArg Multiset.card same
  rwa [Multiset.coe_card, length_spread, Multiset.card_map] at sizes

/-- Observations in order of duration lie in cells in order. -/
theorem Tells.spread_eq {h : Histogram} {held : Multiset Duration} (tells : h.Tells held) :
    h.tally.spread = (held.sort (· ≤ ·)).map h.scale.cellOf := by
  apply Tally.spread_eq
  · exact List.pairwise_map.mpr ((held.pairwise_sort _).imp h.scale.cellOf_mono)
  · intro cell
    rw [← Multiset.coe_count, ← Multiset.map_coe, Multiset.sort_eq]
    exact tells cell

/-- The observation of a rank, counted from one in order of duration; that of
the nearest rank where there is none. -/
def ranked? (held : Multiset Duration) (rank : Nat) : Option Duration :=
  (held.sort (· ≤ ·))[max 1 (min rank held.card) - 1]?

theorem ranked?_of_ne_zero {held : Multiset Duration} (some_left : held ≠ 0) (rank : Nat) :
    ∃ x, ranked? held rank = some x := by
  have size : 0 < held.card := Multiset.card_pos.mpr some_left
  have within : max 1 (min rank held.card) - 1 < (held.sort (· ≤ ·)).length := by
    rw [Multiset.length_sort]
    omega
  exact ⟨_, List.getElem?_eq_getElem within⟩

theorem ranked?_mono {held : Multiset Duration} {low high : Nat} (order : low ≤ high) {x y : Duration}
    (lower : ranked? held low = some x) (higher : ranked? held high = some y) : x ≤ y := by
  obtain ⟨lowWithin, rfl⟩ := List.getElem?_eq_some_iff.mp lower
  obtain ⟨highWithin, rfl⟩ := List.getElem?_eq_some_iff.mp higher
  have positions : max 1 (min low held.card) - 1 ≤ max 1 (min high held.card) - 1 := by omega
  rcases Nat.lt_or_eq_of_le positions with before | same
  · exact List.pairwise_iff_getElem.mp (held.pairwise_sort _) _ _ lowWithin highWithin before
  · simp only [same]
    exact Nat.le_refl _

theorem Tells.valueAtRank_eq {h : Histogram} {held : Multiset Duration} (tells : h.Tells held)
    (some_cell : 0 < h.scale.cells) (numbered : h.scale.cells < Scale.cellNumbers) {rank : Nat} {x : Duration}
    (ranked : ranked? held rank = some x) : h.valueAtRank rank = h.scale.edge (h.scale.cellOf x + 1) := by
  have some_left : h.total ≠ 0 := by
    obtain ⟨within, _⟩ := List.getElem?_eq_some_iff.mp ranked
    rw [Multiset.length_sort] at within
    rw [tells.total_eq]
    omega
  have found : Tally.atRank? (max 1 (min rank h.total)) h.cells = some (h.scale.cellOf x) := by
    have walked : Tally.atRank? (max 1 (min rank h.total)) h.cells =
        h.tally.spread[max 1 (min rank h.total) - 1]? := Tally.atRank?_eq (by omega) _
    unfold ranked? at ranked
    rw [walked, tells.spread_eq, tells.total_eq, List.getElem?_map, ranked, Option.map_some]
  rw [valueAtRank, if_neg some_left, found]
  dsimp only
  rw [Scale.range_eq numbered (Scale.cellOf_lt some_cell x)]

/-- Whatever was observed and taken back again, the walk over the cells comes
to the cell of the observation of that rank among those that are left, and
answers with the end of it. So a higher rank gets no lower answer, and one
above the observation wherever that is below the top of the scale. -/
theorem rank_finds_order_statistic {top : Duration} {cells : Nat} {scale : Scale}
    (made : Scale.create top cells = .ok scale) (numbered : cells < Scale.cellNumbers) {calls : List Call}
    {held : Multiset Duration} (leaves : Leaves calls held) (some_left : held ≠ 0) (rank : Nat) :
    let h := play scale calls
    ∃ x, ranked? held rank = some x ∧ (∃ start, scale.range? (scale.cellOf x) = some (start, h.valueAtRank rank)) ∧
      (∀ higher, rank ≤ higher → h.valueAtRank rank ≤ h.valueAtRank higher) ∧
      (x < top → x < h.valueAtRank rank ∧ h.valueAtRank rank ≤ top) := by
  obtain ⟨rfl, some_cell, fine⟩ := Scale.create_eq_ok_iff.mp made
  obtain ⟨onScale, tells⟩ := leaves.tells ⟨top, cells⟩
  obtain ⟨x, ranked⟩ := ranked?_of_ne_zero some_left rank
  have answer {k : Nat} {y : Duration} (found : ranked? held k = some y) :
      (play ⟨top, cells⟩ calls).valueAtRank k = Scale.edge ⟨top, cells⟩ (Scale.cellOf ⟨top, cells⟩ y + 1) := by
    have value := tells.valueAtRank_eq (by rwa [onScale]) (by rwa [onScale]) found
    rwa [onScale] at value
  have within : Scale.cellOf ⟨top, cells⟩ x < cells := Scale.cellOf_lt (s := ⟨top, cells⟩) some_cell x
  dsimp only
  rw [answer ranked]
  refine ⟨x, ranked, ⟨_, Scale.range?_eq numbered within⟩, fun higher order => ?_, fun below => ?_⟩
  · obtain ⟨y, above⟩ := ranked?_of_ne_zero some_left higher
    rw [answer above]
    exact Scale.edge_mono _ (Nat.succ_le_succ (Scale.cellOf_mono _ (ranked?_mono order ranked above)))
  · exact ⟨((Scale.cellOf_eq_iff fine within below).mp rfl).2, Scale.edge_le_top _ _⟩

/-- Ranks from zero to far above the number of observations, one of which is
longer than the scale. -/
theorem ranks_of_four :
    let scale : Scale := ⟨.ofMillis 1000, 10⟩
    let calls : List Call := [.observe ⟨.ofMillis 10, 2⟩, .observe ⟨.ofMillis 420, 1⟩, .observe ⟨.ofMillis 1500, 1⟩,
      .observe ⟨.ofMillis 45, 1⟩, .forgetAll [⟨.ofMillis 45, 1⟩]]
    let held := Sample.durations [⟨.ofMillis 10, 2⟩] + Sample.durations [⟨.ofMillis 420, 1⟩] +
      Sample.durations [⟨.ofMillis 1500, 1⟩]
    let h := play scale calls
    Scale.create (.ofMillis 1000) 10 = .ok scale ∧ 10 < Scale.cellNumbers ∧ Leaves calls held ∧ held ≠ 0 ∧
      (∃ x, ranked? held 3 = some x ∧ ∃ start, scale.range? (scale.cellOf x) = some (start, .ofMillis 500)) ∧
      (∀ higher, 3 ≤ higher → Duration.ofMillis 500 ≤ h.valueAtRank higher) ∧
      h.valueAtRank 0 = .ofMillis 100 ∧ h.valueAtRank 40 = .ofMillis 1000 := by
  intro scale calls held h
  have made : Scale.create (.ofMillis 1000) 10 = .ok scale := Scale.create_eq_ok_iff.mpr ⟨rfl, by decide, by decide⟩
  have numbered : 10 < Scale.cellNumbers := by decide
  have leaves : Leaves calls held := by
    have observed := ((Leaves.none.observe ⟨.ofMillis 10, 2⟩).observe ⟨.ofMillis 420, 1⟩).observe ⟨.ofMillis 1500, 1⟩
    rw [Multiset.zero_add] at observed
    exact (observed.observe ⟨.ofMillis 45, 1⟩).forgetAll [⟨.ofMillis 45, 1⟩]
  have some_left : held ≠ 0 := by decide
  have third : h.valueAtRank 3 = .ofMillis 500 := by decide
  obtain ⟨x, ranked, cell, higher, _⟩ := rank_finds_order_statistic made numbered leaves some_left 3
  rw [← third]
  exact ⟨made, numbered, leaves, some_left, ⟨x, ranked, cell⟩, higher, by decide, by decide⟩

end Histogram

end Rollup
