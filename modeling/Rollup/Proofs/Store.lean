import Rollup.Breakdown.Store
import Rollup.Proofs.SortedMap

namespace Rollup

namespace Store

/-- Whether a key names a place in a store: none does where there are only
totals, and elsewhere it names a group just where there are groups. -/
def Accepts : Store → BucketKey → Prop
  | .totalsOnly, _ => False
  | .flat _, key => key.outer = none
  | .nested _, key => key.outer ≠ none

theorem mem_entries_iff {s : Store} {key : BucketKey} {bucket : Bucket} :
    (key, bucket) ∈ s.entries ↔ s.Accepts key ∧ s.find? key = some bucket := by
  obtain ⟨outer, inner⟩ := key
  cases s with
  | totalsOnly => simp [entries, Accepts]
  | flat group =>
    simp only [entries, flatEntries, List.mem_map, Accepts, find?, SortedMap.find?_eq_some_iff, Prod.mk.injEq]
    constructor
    · rintro ⟨⟨k, v⟩, member, atKey, rfl⟩
      cases atKey
      exact ⟨rfl, member⟩
    · rintro ⟨flat, member⟩
      cases flat
      exact ⟨(inner, bucket), member, rfl, rfl⟩
  | nested groups =>
    simp only [entries, groupEntries, List.mem_flatMap, List.mem_map, Accepts, find?, Option.bind_eq_some_iff,
      SortedMap.find?_eq_some_iff, Prod.mk.injEq]
    constructor
    · rintro ⟨⟨o, group⟩, atGroup, ⟨k, v⟩, member, atKey, rfl⟩
      cases atKey
      exact ⟨Option.some_ne_none o, group, atGroup, member⟩
    · rintro ⟨named, group, atGroup, member⟩
      obtain ⟨o, rfl⟩ := Option.ne_none_iff_exists'.mp named
      exact ⟨(o, group), atGroup, (inner, bucket), member, rfl, rfl⟩

theorem flatEntries_sorted (group : Group) :
    (flatEntries group).Pairwise fun a b => compare a.1 b.1 = .lt :=
  List.pairwise_map.mpr group.sorted

theorem groupEntries_sorted (outer : String) (group : Group) :
    (groupEntries outer group).Pairwise fun a b => compare a.1 b.1 = .lt := by
  refine List.pairwise_map.mpr (group.sorted.imp fun {a b} less => ?_)
  have same : compare (some outer) (some outer) = .eq := Std.ReflCmp.compare_self
  exact Ordering.then_eq_lt.mpr (Or.inr ⟨same, less⟩)

theorem entries_sorted (s : Store) : s.entries.Pairwise fun a b => compare a.1 b.1 = .lt := by
  cases s with
  | totalsOnly => exact .nil
  | flat group => exact flatEntries_sorted group
  | nested groups =>
    refine List.pairwise_flatMap.mpr ⟨fun e _ => groupEntries_sorted e.1 e.2, groups.sorted.imp ?_⟩
    intro a b less x inA y inB
    obtain ⟨left, _, rfl⟩ := List.mem_map.mp inA
    obtain ⟨right, _, rfl⟩ := List.mem_map.mp inB
    exact Ordering.then_eq_lt.mpr (Or.inl less)

/-- The buckets by their whole key, whatever groups they lie in. -/
def toMap (s : Store) : SortedMap BucketKey Bucket := ⟨s.entries, s.entries_sorted⟩

theorem toMap_find?_iff {s : Store} {key : BucketKey} {bucket : Bucket} :
    s.toMap.find? key = some bucket ↔ s.Accepts key ∧ s.find? key = some bucket := by
  rw [SortedMap.find?_eq_some_iff]
  exact mem_entries_iff

theorem toMap_find? {s : Store} {key : BucketKey} (accepted : s.Accepts key) : s.toMap.find? key = s.find? key := by
  apply Option.ext
  intro bucket
  rw [toMap_find?_iff]
  exact and_iff_right accepted

@[simp] theorem accepts_insert {s : Store} {key : BucketKey} {bucket : Bucket} {j : BucketKey} :
    (s.insert key bucket).Accepts j ↔ s.Accepts j := by
  cases s <;> rfl

@[simp] theorem accepts_erase {s : Store} {key j : BucketKey} : (s.erase key).Accepts j ↔ s.Accepts j := by
  cases s with
  | totalsOnly => rfl
  | flat group => rfl
  | nested groups =>
    unfold erase
    dsimp only
    split
    · rfl
    · split <;> rfl

theorem find?_getD_empty (group : Option Group) (inner : String) :
    (group.getD .empty).find? inner = group.bind (·.find? inner) := by
  cases group <;> rfl

theorem find?_insert {s : Store} {key j : BucketKey} (accepted : s.Accepts key) (alike : s.Accepts j)
    (bucket : Bucket) : (s.insert key bucket).find? j = if key = j then some bucket else s.find? j := by
  obtain ⟨outer, inner⟩ := key
  obtain ⟨outerJ, innerJ⟩ := j
  cases s with
  | totalsOnly => exact False.elim accepted
  | flat group =>
    cases accepted
    cases alike
    simp [insert, find?, SortedMap.find?_insert]
  | nested groups =>
    obtain ⟨o, rfl⟩ := Option.ne_none_iff_exists'.mp accepted
    obtain ⟨p, rfl⟩ := Option.ne_none_iff_exists'.mp alike
    by_cases sameGroup : o = p
    · subst sameGroup
      simp [insert, find?, groupOf, SortedMap.find?_insert, find?_getD_empty]
    · simp [insert, find?, groupOf, SortedMap.find?_insert, sameGroup]

theorem find?_erase {s : Store} {key j : BucketKey} (accepted : s.Accepts key) (alike : s.Accepts j) :
    (s.erase key).find? j = if key = j then none else s.find? j := by
  obtain ⟨outer, inner⟩ := key
  obtain ⟨outerJ, innerJ⟩ := j
  cases s with
  | totalsOnly => exact False.elim accepted
  | flat group =>
    cases accepted
    cases alike
    simp [erase, find?, SortedMap.find?_erase]
  | nested groups =>
    obtain ⟨o, rfl⟩ := Option.ne_none_iff_exists'.mp accepted
    obtain ⟨p, rfl⟩ := Option.ne_none_iff_exists'.mp alike
    by_cases sameGroup : o = p
    · subst sameGroup
      cases atGroup : groups.find? o with
      | none => simp [erase, find?, groupOf, atGroup]
      | some group =>
        have shrunk : (group.erase inner).find? innerJ = if inner = innerJ then none else group.find? innerJ :=
          group.find?_erase inner innerJ
        by_cases last : (group.erase inner).isEmpty = true
        · have gone : (group.erase inner).find? innerJ = none := by
            rw [SortedMap.find?, List.isEmpty_iff.mp last]
            rfl
          rw [gone] at shrunk
          simpa [erase, find?, groupOf, atGroup, last, SortedMap.find?_erase] using shrunk
        · simpa [erase, find?, groupOf, atGroup, last, SortedMap.find?_insert] using shrunk
    · cases atGroup : groups.find? o with
      | none => simp [erase, find?, groupOf, atGroup, sameGroup]
      | some group =>
        by_cases last : (group.erase inner).isEmpty = true
        · simp [erase, find?, groupOf, atGroup, last, sameGroup, SortedMap.find?_erase]
        · simp [erase, find?, groupOf, atGroup, last, sameGroup, SortedMap.find?_insert]

theorem toMap_insert {s : Store} {key : BucketKey} (accepted : s.Accepts key) (bucket : Bucket) :
    (s.insert key bucket).toMap = s.toMap.insert key bucket := by
  apply SortedMap.ext_find?
  intro j
  apply Option.ext
  intro other
  rw [SortedMap.find?_insert, toMap_find?_iff, accepts_insert]
  by_cases alike : s.Accepts j
  · rw [find?_insert accepted alike, toMap_find? alike]
    exact and_iff_right alike
  · have different : key ≠ j := fun same => alike (same ▸ accepted)
    rw [if_neg different, toMap_find?_iff]
    exact ⟨fun both => absurd both.1 alike, fun both => absurd both.1 alike⟩

theorem toMap_erase {s : Store} {key : BucketKey} (accepted : s.Accepts key) :
    (s.erase key).toMap = s.toMap.erase key := by
  apply SortedMap.ext_find?
  intro j
  apply Option.ext
  intro other
  rw [SortedMap.find?_erase, toMap_find?_iff, accepts_erase]
  by_cases alike : s.Accepts j
  · rw [find?_erase accepted alike, toMap_find? alike]
    exact and_iff_right alike
  · have different : key ≠ j := fun same => alike (same ▸ accepted)
    rw [if_neg different, toMap_find?_iff]
    exact ⟨fun both => absurd both.1 alike, fun both => absurd both.1 alike⟩

end Store

end Rollup
