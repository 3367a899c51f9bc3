import Rollup.Proofs.Paging

namespace Rollup

namespace Store

/-- A key as a store reads it: only where there are groups does the outer key
count. -/
def place : Store → BucketKey → BucketKey
  | .nested _, key => key
  | _, key => .flat key.inner

theorem accepts_of_mem {s : Store} {e : BucketKey × Bucket} (listed : e ∈ s.entries) : s.Accepts e.1 :=
  (mem_entries_iff.mp listed).1

/-- A key without an outer key is looked for in the group of the empty text. It
finds nothing of its own there, so it finds nothing at all if no bucket there
has its inner key. -/
theorem find?_eq_some_iff_mem {s : Store} {key : BucketKey} {bucket : Bucket}
    (clear : key.outer = none → ∀ other, (.nested "" key.inner, other) ∉ s.entries) :
    s.find? key = some bucket ↔ (s.place key, bucket) ∈ s.entries := by
  rw [mem_entries_iff]
  cases s with
  | totalsOnly => exact ⟨fun found => (by cases found), fun listed => listed.1.elim⟩
  | flat group => exact (and_iff_right rfl).symm
  | nested groups =>
    by_cases named : key.outer = none
    · refine ⟨fun found => absurd ?_ (clear named bucket), fun listed => absurd named listed.1⟩
      have there : groupOf key = "" := by rw [groupOf, named]; rfl
      rw [find?, there] at found
      exact mem_entries_iff.mpr ⟨Option.some_ne_none _, found⟩
    · exact (and_iff_right named).symm

/-- The next bucket is the first one with a greater key, for keys from anywhere. -/
theorem after?_eq_find?_place (s : Store) (key : BucketKey) :
    s.after? key = s.entries.find? fun e => compare (s.place key) e.1 == .lt := by
  cases s with
  | totalsOnly => rfl
  | flat group =>
    have accepted : (Store.flat group).Accepts (.flat key.inner) := rfl
    exact after?_eq_find? accepted
  | nested groups =>
    by_cases named : key.outer = none
    · -- A key without an outer key comes before all that have one.
      have before (e : BucketKey × Bucket) (listed : e ∈ (nested groups).entries) :
          (compare key e.1 == .lt) = true := by
        obtain ⟨outer, same⟩ := Option.ne_none_iff_exists'.mp (accepts_of_mem listed)
        have less : compare key e.1 = (compare key.outer e.1.outer).then (compare key.inner e.1.inner) := rfl
        rw [less, named, same]
        rfl
      have first : (nested groups).after? key = (nested groups).entries.head? := by rw [after?, named]
      rw [first, ← List.head?_filter]
      exact congrArg List.head? (List.filter_eq_self.mpr before).symm
    · exact after?_eq_find? named

theorem groupEntries_filter (outer : String) (e : String × Group) :
    ((groupEntries e.1 e.2).filter fun d => d.1.outer = some outer) =
      if e.1 = outer then groupEntries outer e.2 else [] := by
  have inside (d : BucketKey × Bucket) (listed : d ∈ groupEntries e.1 e.2) : d.1.outer = some e.1 := by
    obtain ⟨_, _, rfl⟩ := List.mem_map.mp listed
    rfl
  split
  · rename_i same
    rw [same] at inside ⊢
    exact List.filter_eq_self.mpr fun d listed => decide_eq_true (inside d listed)
  · rename_i apart
    refine List.filter_eq_nil_iff.mpr fun d listed => ?_
    rw [inside d listed, decide_eq_true_iff, Option.some.injEq]
    exact apart

theorem filter_groups (outer : String) {l : List (String × Group)}
    (sorted : l.Pairwise fun a b => compare a.1 b.1 = .lt) :
    ((l.flatMap fun e => groupEntries e.1 e.2).filter fun d => d.1.outer = some outer) =
      ((l.find? fun e => compare e.1 outer == .eq).map Prod.snd).elim [] (groupEntries outer) := by
  induction l with
  | nil => rfl
  | cons e rest ih =>
    obtain ⟨below, tail⟩ := List.pairwise_cons.mp sorted
    rw [List.flatMap_cons, List.filter_append, groupEntries_filter, ih tail, List.find?_cons]
    by_cases same : e.1 = outer
    · have past : rest.find? (fun d => compare d.1 outer == .eq) = none := by
        refine List.find?_eq_none.mpr fun d member => ?_
        have behind : compare outer d.1 = .lt := same ▸ below d member
        rw [Std.OrientedCmp.gt_of_lt behind]
        decide
      rw [if_pos same, past, same, beq_iff_eq.mpr Std.compare_self]
      exact List.append_nil _
    · have apart : (compare e.1 outer == .eq) = false :=
        beq_eq_false_iff_ne.mpr fun equal => same (Std.LawfulEqCmp.eq_of_compare equal)
      rw [if_neg same, apart]
      rfl

/-- The buckets of one group are those that name it, in the same order. -/
theorem under_eq_filter (s : Store) (outer : String) :
    s.under outer = s.entries.filter fun e => e.1.outer = some outer := by
  cases s with
  | totalsOnly => rfl
  | flat group =>
    refine (List.filter_eq_nil_iff.mpr fun e listed => ?_).symm
    have plain : e.1.outer = none := accepts_of_mem listed
    rw [plain, decide_eq_true_iff]
    exact (Option.some_ne_none outer).symm
  | nested groups => exact (filter_groups outer groups.sorted).symm

theorem empty_accepts_nested (g : Grouping) : (empty g).Accepts (.nested "" "") ↔ g.nested = true := by
  cases g with
  | byTags source names scope => cases scope <;> simp [empty, Accepts, Grouping.nested, BucketKey.nested]
  | _ => simp [empty, Accepts, Grouping.nested, BucketKey.nested]

end Store

namespace Breakdown

theorem Formed.place_eq {b : Breakdown} (formed : b.Formed) (key : BucketKey) :
    b.store.place key = if b.grouping.nested then key else .flat key.inner := by
  have shape := (formed.accepts (.nested "" "")).trans (Store.empty_accepts_nested b.grouping)
  cases store : b.store with
  | nested groups =>
    rw [store] at shape
    rw [if_pos (shape.mp (Option.some_ne_none _))]
    rfl
  | flat group =>
    rw [store] at shape
    rw [if_neg fun nested => Option.some_ne_none _ (shape.mpr nested)]
    rfl
  | totalsOnly =>
    rw [store] at shape
    rw [if_neg shape.mpr]
    rfl

/-- Whatever a breakdown was through, what it tells of a key of either shape
agrees with its listing. Without groups only the inner key counts. With groups a
key without an outer key is found nowhere, unless there is a bucket with its
inner key in the group of the empty text, and comes before all buckets. -/
theorem lookups_follow_listing (g : Grouping) (f : Filter) (scale : Scale) (ts : List Turn) (key : BucketKey) :
    let b := (empty g f scale).turns ts
    let place := if g.nested then key else .flat key.inner
    ((key.outer = none ∧ .nested "" key.inner ∈ b.keys) ∨
        ∀ bucket, b.find? key = some bucket ↔ (place, bucket) ∈ b.entries) ∧
      (b.after? key = b.entries.find? fun e => place < e.1) ∧
      ∀ outer, b.under outer = b.entries.filter fun e => e.1.outer = some outer := by
  intro b place
  have formed : b.Formed := ((empty_tidy g f scale).turns ts).formed
  have grouping : b.grouping = g := (turns_alike (empty g f scale) ts).grouping
  have places : b.store.place key = place := by rw [formed.place_eq, grouping]
  refine ⟨?_, ?_, b.store.under_eq_filter⟩
  · by_cases mistakable : key.outer = none ∧ .nested "" key.inner ∈ b.keys
    · exact Or.inl mistakable
    · refine Or.inr fun bucket => ?_
      rw [← places]
      refine Store.find?_eq_some_iff_mem fun named other listed => mistakable ⟨named, ?_⟩
      exact List.mem_map.mpr ⟨_, listed, rfl⟩
  · rw [← places]
    refine (b.store.after?_eq_find?_place key).trans (congrArg b.entries.find? (funext fun e => ?_))
    rw [Bool.eq_iff_iff, beq_iff_eq, decide_eq_true_iff]
    exact Iff.rfl

/-- A report by script finds a bucket for a key with any outer key and goes on
behind it, though that key is none of its own and comes behind all of them. One
that is grouped by script finds the bucket of a request without a script for a
key that names no script. -/
theorem foreign_keys_found :
    let flat := (empty (.byAttributes [.script]) .any .standard).turns [.move (.add (.tagged 1 "a" "x"))]
    let nested := (empty (.byTags .timers [0] .perScript) .any .standard).turns [.move (.add (.tagged 1 "" "x"))]
    (flat.find? (.nested "z" "a")).isSome ∧ .nested "z" "a" ∉ flat.keys ∧
      (flat.after? (.nested "z" "")).isSome ∧ (∀ e ∈ flat.entries, ¬.nested "z" "" < e.1) ∧
      (nested.find? (.flat "x")).isSome ∧ .flat "x" ∉ nested.keys := by
  decide +kernel

end Breakdown

end Rollup
