import Mathlib.Data.List.Induction
import Mathlib.Data.List.Nodup
import Rollup.Proofs.Parts

namespace Rollup

namespace Contribution

/-- Contributions as one, merged in order. -/
def mergeAll? : List Contribution → Option Contribution
  | [] => none
  | c :: rest => some (rest.foldl merge c)

theorem mergeAll?_concat (l : List Contribution) (c : Contribution) :
    mergeAll? (l ++ [c]) = some (((mergeAll? l).map (·.merge c)).getD c) := by
  cases l with
  | nil => rfl
  | cons first rest =>
    rw [List.cons_append, mergeAll?, List.foldl_append]
    rfl

end Contribution

namespace Breakdown

/-- The contributions with a key are gathered there, in order. -/
theorem find?_gather (l : List (BucketKey × Contribution)) (key : BucketKey) :
    (gather l).find? key = Contribution.mergeAll? ((l.filter (·.1 = key)).map (·.2)) := by
  induction l using List.reverseRecOn with
  | nil => rfl
  | append_singleton l e ih =>
    rw [gather_eq_foldl, List.foldl_append, ← gather_eq_foldl, List.foldl_cons, List.foldl_nil, gatherStep,
      SortedMap.find?_insert, List.filter_append, List.map_append]
    by_cases here : e.1 = key
    · rw [if_pos here, here, ih, List.filter_cons_of_pos (by simpa using here), List.filter_nil]
      exact (Contribution.mergeAll?_concat _ _).symm
    · rw [if_neg here, ih, List.filter_cons_of_neg (by simpa using here), List.filter_nil, List.map_nil,
        List.append_nil]

section Rekeyed

variable {α : Type} {fine coarse : α → BucketKey} {pieces : List (α × Contribution)}

/-- What is gathered under a key came with that key. -/
theorem mem_gather {key : α → BucketKey} {e : BucketKey × Contribution}
    (member : e ∈ (gather (pieces.map fun p => (key p.1, p.2))).entries) : ∃ p ∈ pieces, key p.1 = e.1 := by
  have found := SortedMap.find?_eq_some_iff.mpr member
  rw [find?_gather] at found
  have some : (pieces.map fun p => (key p.1, p.2)).filter (·.1 = e.1) ≠ [] := by
    intro none
    rw [none] at found
    cases found
  obtain ⟨d, inside⟩ := List.exists_mem_of_ne_nil _ some
  obtain ⟨known, same⟩ := List.mem_filter.mp inside
  obtain ⟨p, member, rfl⟩ := List.mem_map.mp known
  exact ⟨p, member, of_decide_eq_true same⟩

/-- Keys that tell the same pieces apart gather the same. -/
theorem gather_same (same : ∀ p ∈ pieces, ∀ r ∈ pieces, fine p.1 = fine r.1 ↔ coarse p.1 = coarse r.1)
    {p : α × Contribution} (member : p ∈ pieces) :
    (gather (pieces.map fun p => (fine p.1, p.2))).find? (fine p.1) =
      (gather (pieces.map fun p => (coarse p.1, p.2))).find? (coarse p.1) := by
  rw [find?_gather, find?_gather, List.filter_map, List.filter_map, List.map_map, List.map_map]
  have alike : pieces.filter ((fun e => decide (e.1 = fine p.1)) ∘ fun r => (fine r.1, r.2)) =
      pieces.filter ((fun e => decide (e.1 = coarse p.1)) ∘ fun r => (coarse r.1, r.2)) :=
    List.filter_congr fun r known => decide_eq_decide.mpr (same r known p member)
  rw [alike]
  rfl

/-- Where each key has one that takes its place, and no two have the same,
what is gathered stays as it is but for the keys. -/
theorem gather_rekeyed (same : ∀ p ∈ pieces, ∀ r ∈ pieces, fine p.1 = fine r.1 ↔ coarse p.1 = coarse r.1)
    {rekey : BucketKey → Option BucketKey} (image : ∀ p ∈ pieces, rekey (fine p.1) = some (coarse p.1)) :
    ((gather (pieces.map fun p => (coarse p.1, p.2))).entries.map fun e => (some e.1, e.2)).Perm
      ((gather (pieces.map fun p => (fine p.1, p.2))).entries.map fun e => (rekey e.1, e.2)) := by
  have distinct : ((gather (pieces.map fun p => (fine p.1, p.2))).entries.map fun e => (rekey e.1, e.2)).Nodup := by
    refine List.Nodup.map_on (fun e here d there equal => ?_) (SortedMap.entries_nodup _)
    obtain ⟨p, known, first⟩ := mem_gather here
    obtain ⟨r, known', second⟩ := mem_gather there
    obtain ⟨keys, contributions⟩ := Prod.mk.inj equal
    rw [← first, ← second, image p known, image r known', Option.some.injEq, ← same p known r known', first,
      second] at keys
    exact Prod.ext keys contributions
  have distinct' : ((gather (pieces.map fun p => (coarse p.1, p.2))).entries.map fun e => (some e.1, e.2)).Nodup := by
    refine List.Nodup.map_on (fun e _ d _ equal => ?_) (SortedMap.entries_nodup _)
    obtain ⟨keys, contributions⟩ := Prod.mk.inj equal
    exact Prod.ext (Option.some.inj keys) contributions
  rw [List.perm_ext_iff_of_nodup distinct' distinct]
  rintro ⟨key, c⟩
  rw [List.mem_map, List.mem_map]
  constructor
  · rintro ⟨e, here, equal⟩
    obtain ⟨p, known, first⟩ := mem_gather here
    have found := SortedMap.find?_eq_some_iff.mpr here
    rw [← first, ← gather_same same known] at found
    refine ⟨(fine p.1, e.2), SortedMap.find?_eq_some_iff.mp found, ?_⟩
    rw [← equal, ← first, image p known]
  · rintro ⟨e, here, equal⟩
    obtain ⟨p, known, first⟩ := mem_gather here
    have found := SortedMap.find?_eq_some_iff.mpr here
    rw [← first, gather_same same known] at found
    refine ⟨(coarse p.1, e.2), SortedMap.find?_eq_some_iff.mp found, ?_⟩
    rw [← equal, ← first, image p known]

end Rekeyed

end Breakdown

end Rollup
