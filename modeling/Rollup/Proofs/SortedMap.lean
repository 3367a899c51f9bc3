import Mathlib.Algebra.Ring.Nat
import Rollup.SortedMap

namespace Rollup

namespace SortedMap

variable {κ ν : Type} [Ord κ]

theorem find?_mapValues {μ : Type} (f : ν → μ) (m : SortedMap κ ν) (k : κ) :
    (m.mapValues f).find? k = (m.find? k).map f := by
  unfold find? mapValues
  rw [List.find?_map, Option.map_map, Option.map_map]
  rfl

theorem mapValues_mapValues {μ ξ : Type} (m : SortedMap κ ν) (f : ν → μ) (g : μ → ξ) :
    (m.mapValues f).mapValues g = m.mapValues fun v => g (f v) := ext (List.map_map ..)

/-- Values can be changed before or after some are left out, if the change
is of no matter for which. -/
theorem mapValues_filter {μ : Type} (m : SortedMap κ ν) (f : ν → μ) (before : κ → ν → Bool) (after : κ → μ → Bool)
    (same : ∀ k v, after k (f v) = before k v) : (m.filter before).mapValues f = (m.mapValues f).filter after := by
  apply ext
  unfold filter mapValues
  dsimp only
  rw [List.filter_map]
  exact congrArg _ (List.filter_congr fun e _ => (same e.1 e.2).symm)

theorem values_mapValues {μ : Type} (f : ν → μ) (m : SortedMap κ ν) : (m.mapValues f).values = m.values.map f := by
  unfold values mapValues
  rw [List.map_map, List.map_map]
  rfl

theorem values_filter (m : SortedMap κ ν) (p : ν → Bool) : (m.filter fun _ v => p v).values = m.values.filter p := by
  unfold values filter
  rw [List.filter_map]
  rfl

theorem mem_values_insert [Std.TransOrd κ] [Std.LawfulEqOrd κ] {m : SortedMap κ ν} {k : κ} {v w : ν} (member : w ∈ (m.insert k v).values) :
    w = v ∨ w ∈ m.values := by
  obtain ⟨e, known, rfl⟩ := List.mem_map.mp member
  rcases mem_insertEntry known with rfl | old
  · exact Or.inl rfl
  · exact Or.inr (List.mem_map_of_mem old)

variable [Std.LawfulEqOrd κ]

theorem keys_nodup (m : SortedMap κ ν) : (m.entries.map Prod.fst).Nodup :=
  List.pairwise_map.mpr (m.sorted.imp ne_of_compare_lt)

theorem entries_nodup (m : SortedMap κ ν) : m.entries.Nodup :=
  m.sorted.imp fun less equal => ne_of_compare_lt less (congrArg Prod.fst equal)

theorem mem_erase_iff {m : SortedMap κ ν} {k : κ} {e : κ × ν} :
    e ∈ (m.erase k).entries ↔ e ∈ m.entries ∧ e.1 ≠ k := by
  rw [erase, List.mem_filter]
  refine and_congr_right fun _ => ?_
  rw [bne_iff_ne]
  exact not_congr Std.LawfulEqCmp.compare_eq_iff_eq

variable [Std.TransOrd κ]

/-- An insertion puts one entry next to those with other keys. -/
theorem perm_insert (m : SortedMap κ ν) (k : κ) (v : ν) :
    (m.insert k v).entries.Perm ((k, v) :: (m.erase k).entries) := by
  have absent : (k, v) ∉ (m.erase k).entries := fun member => (mem_erase_iff.mp member).2 rfl
  rw [List.perm_ext_iff_of_nodup (entries_nodup _) (List.nodup_cons.mpr ⟨absent, entries_nodup _⟩)]
  intro e
  rw [insert, mem_insertEntry_iff m.sorted, List.mem_cons, mem_erase_iff]

theorem insert_find? [DecidableEq κ] {m : SortedMap κ ν} {k : κ} {v : ν} (found : m.find? k = some v) :
    m.insert k v = m := by
  apply ext_find?
  intro j
  rw [find?_insert]
  split
  · rename_i same
    rw [← same, found]
  · rfl

theorem perm_of_find? [DecidableEq κ] {m : SortedMap κ ν} {k : κ} {v : ν} (found : m.find? k = some v) :
    m.entries.Perm ((k, v) :: (m.erase k).entries) := by
  have perm := perm_insert m k v
  rwa [insert_find? found] at perm

theorem erase_of_find? [DecidableEq κ] {m : SortedMap κ ν} {k : κ} (absent : m.find? k = none) :
    m.erase k = m := by
  apply ext_find?
  intro j
  rw [find?_erase]
  split
  · rename_i same
    rw [← same, absent]
  · rfl

theorem length_insert [DecidableEq κ] (m : SortedMap κ ν) (k : κ) (v : ν) :
    (m.insert k v).entries.length =
      if (m.find? k).isSome then m.entries.length else m.entries.length + 1 := by
  rw [(m.perm_insert k v).length_eq]
  cases found : m.find? k with
  | none => rw [erase_of_find? found]; rfl
  | some old => exact (perm_of_find? found).length_eq.symm

theorem length_erase [DecidableEq κ] {m : SortedMap κ ν} {k : κ} {v : ν} (found : m.find? k = some v) :
    (m.erase k).entries.length = m.entries.length - 1 := by
  rw [(perm_of_find? found).length_eq]
  rfl

/-- What only the entry of one key adds to a sum is all of the sum. -/
theorem sum_of_find? [DecidableEq κ] {m : SortedMap κ ν} {k : κ} {amount : κ × ν → Nat}
    (only : ∀ e ∈ m.entries, e.1 ≠ k → amount e = 0) :
    (m.entries.map amount).sum = (m.find? k).elim 0 fun v => amount (k, v) := by
  have others : ((m.erase k).entries.map amount).sum = 0 := by
    rw [List.sum_eq_zero_iff_forall_eq_nat]
    intro n member
    obtain ⟨e, inside, rfl⟩ := List.mem_map.mp member
    obtain ⟨old, apart⟩ := mem_erase_iff.mp inside
    exact only e old apart
  cases found : m.find? k with
  | none =>
    rw [erase_of_find? found] at others
    exact others
  | some v =>
    have same := ((perm_of_find? found).map amount).sum_nat
    rw [List.map_cons, List.sum_cons, others] at same
    exact same

/-- Maps whose values look alike have entries that look alike. -/
theorem map_entries_congr [DecidableEq κ] {μ : Type} {f : ν → μ} {m n : SortedMap κ ν}
    (same : ∀ k, (m.find? k).map f = (n.find? k).map f) :
    m.entries.map (fun e => (e.1, f e.2)) = n.entries.map fun e => (e.1, f e.2) := by
  have maps : m.mapValues f = n.mapValues f := by
    apply ext_find?
    intro k
    rw [find?_mapValues, find?_mapValues, same]
  exact congrArg entries maps

end SortedMap

end Rollup
