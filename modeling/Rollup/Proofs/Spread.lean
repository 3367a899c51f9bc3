import Mathlib.Algebra.BigOperators.Group.Finset.Basic
import Rollup.Proofs.Histogram
import Rollup.Proofs.Scale
import Rollup.Proofs.SortedMap

namespace Rollup

namespace Tally

/-- Every number of some entries as often as it was counted. -/
def spreadOut (entries : List (Nat × Nat)) : List Nat := entries.flatMap fun e => List.replicate e.2 e.1

@[simp] theorem spreadOut_cons (e : Nat × Nat) (rest : List (Nat × Nat)) :
    spreadOut (e :: rest) = List.replicate e.2 e.1 ++ spreadOut rest := List.flatMap_cons

/-- Every number as often as it was counted, in order. -/
def spread (t : Tally) : List Nat := spreadOut t.counts.entries

theorem count_spread (t : Tally) (i : Nat) : t.spread.count i = t.count i := by
  have each (e : Nat × Nat) : (List.replicate e.2 e.1).count i = if e.1 = i then e.2 else 0 := by
    simp [List.count_replicate]
  have total : t.spread.count i = (t.counts.entries.map fun e => if e.1 = i then e.2 else 0).sum := by
    simp only [spread, spreadOut, List.count_flatMap, Function.comp_def, each]
  rw [total, SortedMap.sum_of_find? fun e _ apart => if_neg apart, count]
  cases t.counts.find? i with
  | none => rfl
  | some n => exact if_pos rfl

theorem length_spread (t : Tally) : t.spread.length = t.total := by
  simp only [spread, spreadOut, List.length_flatMap, List.length_replicate]
  rfl

theorem spread_sorted (t : Tally) : t.spread.Pairwise (· ≤ ·) := by
  refine List.pairwise_flatMap.mpr ⟨fun e _ => List.pairwise_replicate.mpr (Or.inr (Nat.le_refl _)), ?_⟩
  refine t.counts.sorted.imp fun {a b} less i left j right => ?_
  rw [List.eq_of_mem_replicate left, List.eq_of_mem_replicate right]
  exact Nat.le_of_lt (Nat.compare_eq_lt.mp less)

/-- The walk over the counts comes to the number of that rank. -/
theorem atRank?_eq {rank : Nat} (positive : 0 < rank) (entries : List (Nat × Nat)) :
    atRank? rank entries = (spreadOut entries)[rank - 1]? := by
  induction entries generalizing rank with
  | nil => rfl
  | cons e rest ih =>
    rw [atRank?, spreadOut_cons]
    by_cases within : rank ≤ e.2
    · have inFront : rank - 1 < (List.replicate e.2 e.1).length := by rw [List.length_replicate]; omega
      rw [if_pos within, List.getElem?_append_left inFront, List.getElem?_eq_getElem inFront, List.getElem_replicate]
    · have behind : (List.replicate e.2 e.1).length ≤ rank - 1 := by rw [List.length_replicate]; omega
      rw [if_neg within, ih (by omega), List.getElem?_append_right behind, List.length_replicate,
        Nat.sub_right_comm]

/-- A list with the same counts, in order, is the same list. -/
theorem spread_eq {t : Tally} {numbers : List Nat} (sorted : numbers.Pairwise (· ≤ ·))
    (same : ∀ i, t.count i = numbers.count i) : t.spread = numbers := by
  have perm : t.spread.Perm numbers := List.perm_iff_count.mpr fun i => (t.count_spread i).trans (same i)
  exact perm.eq_of_pairwise (fun _ _ _ _ => Nat.le_antisymm) t.spread_sorted sorted

end Tally

namespace Scale

/-- The cells that the observations of some samples fall into, one for each. -/
def cellsOf (s : Scale) (samples : List Sample) : List Nat :=
  samples.flatMap fun sample => List.replicate sample.weight (s.cellOf sample.value)

theorem count_cellsOf (s : Scale) (samples : List Sample) (cell : Nat) :
    (s.cellsOf samples).count cell = s.observed samples cell := by
  simp [cellsOf, observed, List.count_flatMap, Function.comp_def, List.count_replicate]

theorem length_cellsOf (s : Scale) (samples : List Sample) :
    (s.cellsOf samples).length = (samples.map (·.weight)).sum := by
  simp [cellsOf, List.length_flatMap]

end Scale

namespace Histogram

theorem length_spread (h : Histogram) : h.tally.spread.length = h.total := by rw [Tally.length_spread, h.total_eq]

/-- What one histogram holds more than another in its cells it holds more in
total. -/
theorem total_add {h g : Histogram} {samples : List Sample}
    (counts : ∀ cell, g.count cell = h.count cell + h.scale.observed samples cell) :
    g.total = h.total + (samples.map (·.weight)).sum := by
  have perm : g.tally.spread.Perm (h.tally.spread ++ h.scale.cellsOf samples) := by
    refine List.perm_iff_count.mpr fun cell => ?_
    rw [List.count_append, Tally.count_spread, Tally.count_spread, Scale.count_cellsOf]
    exact counts cell
  have lengths := perm.length_eq
  rwa [List.length_append, length_spread, length_spread, Scale.length_cellsOf] at lengths

/-- Where no cell but those of the scale holds observations, the total is that
of its cells. -/
theorem total_eq_sum {h : Histogram} (within : ∀ cell, h.scale.cells ≤ cell → h.count cell = 0) :
    h.total = ∑ cell ∈ Finset.range h.scale.cells, h.count cell := by
  have inside : ∀ cell ∈ (h.tally.spread : Multiset Nat), cell ∈ Finset.range h.scale.cells := by
    intro cell member
    rw [Finset.mem_range]
    by_contra beyond
    have none : h.tally.count cell = 0 := within cell (Nat.not_lt.mp beyond)
    rw [← Tally.count_spread] at none
    exact List.count_eq_zero.mp none member
  have whole := Multiset.sum_count_eq_card inside
  simp only [Multiset.coe_card, Multiset.coe_count, length_spread, Tally.count_spread] at whole
  exact whole.symm

end Histogram

end Rollup
