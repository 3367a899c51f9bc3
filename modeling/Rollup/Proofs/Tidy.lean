import Rollup.Proofs.Moves

namespace Rollup

namespace Store

/-- No group is kept once its last bucket is gone. -/
def Pruned : Store → Prop
  | .totalsOnly => True
  | .flat _ => True
  | .nested groups => ∀ e ∈ groups.entries, e.2.isEmpty = false

theorem empty_pruned (g : Grouping) : (empty g).Pruned := by
  cases g with
  | totals => trivial
  | byAttributes attributes => trivial
  | byTags source names scope =>
    cases scope with
    | everywhere => trivial
    | _ => exact fun e member => nomatch member

theorem insert_isEmpty (group : Group) (inner : String) (bucket : Bucket) :
    (group.insert inner bucket).isEmpty = false := by
  have there : (inner, bucket) ∈ (group.insert inner bucket).entries :=
    (SortedMap.perm_insert group inner bucket).mem_iff.mpr List.mem_cons_self
  exact List.isEmpty_eq_false_iff_exists_mem.mpr ⟨_, there⟩

theorem Pruned.insert {s : Store} (pruned : s.Pruned) (key : BucketKey) (bucket : Bucket) :
    (s.insert key bucket).Pruned := by
  cases s with
  | totalsOnly => trivial
  | flat group => trivial
  | nested groups =>
    intro e member
    rcases SortedMap.mem_insertEntry member with rfl | old
    · exact insert_isEmpty _ _ _
    · exact pruned e old

theorem Pruned.erase {s : Store} (pruned : s.Pruned) (key : BucketKey) : (s.erase key).Pruned := by
  cases s with
  | totalsOnly => trivial
  | flat group => trivial
  | nested groups =>
    unfold Store.erase
    dsimp only
    split
    · exact pruned
    · rename_i group found
      split
      · exact fun e member => pruned e (SortedMap.mem_erase_iff.mp member).1
      · rename_i some_left
        intro e member
        rcases SortedMap.mem_insertEntry member with rfl | old
        · exact Bool.eq_false_iff.mpr some_left
        · exact pruned e old

/-- Stores without empty groups that have the same places and the same buckets
are the same store. -/
theorem Pruned.ext {s t : Store} (left : s.Pruned) (right : t.Pruned) (places : ∀ key, s.Accepts key ↔ t.Accepts key)
    (same : s.toMap = t.toMap) : s = t := by
  have found (key : BucketKey) (accepted : s.Accepts key) : s.find? key = t.find? key := by
    rw [← toMap_find? accepted, ← toMap_find? ((places key).mp accepted), same]
  have inFlat := places (.flat "")
  have inNested := places (.nested "" "")
  cases s with
  | totalsOnly =>
    cases t with
    | totalsOnly => rfl
    | _ => simp [Accepts, BucketKey.flat, BucketKey.nested] at inFlat inNested
  | flat group =>
    cases t with
    | flat other => exact congrArg Store.flat (SortedMap.ext_find? fun inner => found (.flat inner) rfl)
    | _ => simp [Accepts, BucketKey.flat] at inFlat
  | nested groups =>
    cases t with
    | nested others =>
      refine congrArg Store.nested (SortedMap.ext_find? fun outer => ?_)
      have within : (groups.find? outer).getD .empty = (others.find? outer).getD .empty := by
        refine SortedMap.ext_find? fun inner => ?_
        rw [find?_getD_empty, find?_getD_empty]
        exact found (.nested outer inner) (Option.some_ne_none outer)
      -- A group that only one of them has would be empty.
      have kept {groups : SortedMap String Group} (pruned : (Store.nested groups).Pruned) {group : Group}
          (there : groups.find? outer = some group) : group ≠ .empty := by
        rintro rfl
        cases pruned (outer, .empty) (SortedMap.find?_eq_some_iff.mp there)
      cases atLeft : groups.find? outer with
      | none =>
        cases atRight : others.find? outer with
        | none => rfl
        | some group =>
          rw [atLeft, atRight] at within
          exact absurd within.symm (kept right atRight)
      | some group =>
        cases atRight : others.find? outer with
        | none =>
          rw [atLeft, atRight] at within
          exact absurd within (kept left atLeft)
        | some other =>
          rw [atLeft, atRight] at within
          exact congrArg some within
    | _ => simp [Accepts, BucketKey.nested] at inNested

/-- A bucket that is found, under whatever key, is one of the entries. -/
theorem mem_entries_of_find? {s : Store} {key : BucketKey} {bucket : Bucket} (found : s.find? key = some bucket) :
    ∃ own, (own, bucket) ∈ s.entries := by
  cases s with
  | totalsOnly => cases found
  | flat group => exact ⟨.flat key.inner, mem_entries_iff.mpr ⟨rfl, found⟩⟩
  | nested groups => exact ⟨.nested (groupOf key) key.inner, mem_entries_iff.mpr ⟨Option.some_ne_none _, found⟩⟩

end Store

/-- A bucket that takes a contribution counts something, if it did so before
or if it has not just seen the same request. -/
theorem Bucket.count_add_pos {b : Bucket} {id : Nat} {c : Contribution} (single : c.Single)
    (counts : 0 < b.count ∨ b.lastAdded ≠ some id) : 0 < (b.add id c).1.count := by
  have sum : (b.add id c).1.count = b.count + (c.once b.lastAdded id).sums.count := rfl
  rw [sum]
  rcases counts with before | fresh
  · exact Nat.add_pos_left before _
  · rw [Contribution.once_of_ne fresh, single.count]
    exact Nat.succ_pos _

namespace Breakdown

/-- What a holder of a breakdown can do to it: a move, or a fresh start. -/
inductive Turn
  | move (m : Move)
  | clear
deriving DecidableEq

def turn (b : Breakdown) : Turn → Breakdown
  | .move m => b.move m
  | .clear => b.clear

def turns (b : Breakdown) (ts : List Turn) : Breakdown := ts.foldl turn b

theorem turn_alike (b : Breakdown) (t : Turn) : b.Alike (b.turn t) := by
  cases t with
  | clear => exact ⟨rfl, rfl, rfl⟩
  | move m =>
    cases m with
    | add v => exact b.add_alike v
    | remove v => exact b.remove_alike v

theorem turns_alike (b : Breakdown) (ts : List Turn) : b.Alike (b.turns ts) := foldl_alike turn_alike b ts

/-- Every bucket counts a request, and no group is without buckets. -/
structure Tidy (b : Breakdown) : Prop where
  formed : b.Formed
  counted : ∀ e ∈ b.entries, 0 < e.2.count
  pruned : b.store.Pruned

theorem empty_tidy (g : Grouping) (f : Filter) (scale : Scale) : (empty g f scale).Tidy where
  formed := empty_formed g f scale
  counted e member := by
    have none : (empty g f scale).entries = [] := congrArg SortedMap.entries (buckets_empty g f scale)
    rw [none] at member
    cases member
  pruned := Store.empty_pruned g

/-- What can be seen of a tidy breakdown is all there is to it. -/
theorem Tidy.ext {b c : Breakdown} (left : b.Tidy) (right : c.Tidy) (alike : b.Alike c)
    (totals : ∀ q, b.totals.amount q = c.totals.amount q)
    (found : ∀ key, b.buckets.find? key = c.buckets.find? key) : b = c := by
  have places (key : BucketKey) : b.store.Accepts key ↔ c.store.Accepts key := by
    rw [left.formed.accepts, right.formed.accepts, alike.grouping]
  have buckets : b.buckets = c.buckets := SortedMap.ext_find? found
  have store : b.store = c.store := left.pruned.ext right.pruned places buckets
  have size : b.size = c.size := by
    rw [left.formed.size, right.formed.size]
    exact congrArg (fun m => m.entries.length) buckets
  have scale : b.totals.histogram.scale = c.totals.histogram.scale := by
    rw [left.formed.totalsScale, right.formed.totalsScale, alike.scale]
  have totals : b.totals = c.totals := Summary.ext_amount scale totals
  obtain ⟨grouping, filter, scale⟩ := alike
  cases b
  cases c
  simp_all

/-- The bucket that a contribution goes to counts something, or is new and has
seen no request. -/
theorem Tidy.bucketAt_counts {b : Breakdown} (tidy : b.Tidy) (key : BucketKey) (id : Nat) :
    0 < (b.bucketAt key).count ∨ (b.bucketAt key).lastAdded ≠ some id := by
  unfold bucketAt
  cases found : b.buckets.find? key with
  | none => exact Or.inr (Option.some_ne_none id).symm
  | some bucket => exact Or.inl (tidy.counted (key, bucket) (SortedMap.find?_eq_some_iff.mp found))

theorem Tidy.addTo {b : Breakdown} (tidy : b.Tidy) {key : BucketKey}
    (accepted : (Store.empty b.grouping).Accepts key) (id : Nat) {c : Contribution} (single : c.Single) :
    (b.addTo id key c).Tidy where
  formed := tidy.formed.addTo accepted id c
  counted e member := by
    rcases tidy.formed.mem_addTo accepted id c member with rfl | old
    · exact Bucket.count_add_pos single (tidy.bucketAt_counts key id)
    · exact tidy.counted e old
  pruned := tidy.pruned.insert key _

theorem removeFrom_pruned {b : Breakdown} (pruned : b.store.Pruned) (id : Nat) (key : BucketKey) (c : Contribution) :
    (b.removeFrom id key c).store.Pruned := by
  unfold removeFrom
  split
  · exact pruned
  · split
    · exact pruned
    · dsimp only
      split
      · exact pruned.erase key
      · exact pruned.insert key _

theorem Tidy.removeFrom {b : Breakdown} (tidy : b.Tidy) {key : BucketKey}
    (accepted : (Store.empty b.grouping).Accepts key) (id : Nat) (c : Contribution) : (b.removeFrom id key c).Tidy where
  formed := tidy.formed.removeFrom accepted id c
  counted e member := by
    rcases tidy.formed.mem_removeFrom accepted id c member with ⟨bucket, left, taken, _, _, counts, rfl⟩ | old
    · exact Nat.pos_of_ne_zero counts
    · exact tidy.counted e old
  pruned := removeFrom_pruned tidy.pruned id key c

theorem addPart_tidy {b : Breakdown} {g : Grouping} {id : Nat} {p : Part} (tidy : b.Tidy) (same : b.grouping = g)
    (placed : g.Placed id p) : (b.addPart p).Tidy := by
  cases named : p.key with
  | none =>
    have formed := addPart_formed tidy.formed same placed
    unfold addPart at formed ⊢
    rw [named] at formed ⊢
    exact ⟨formed, tidy.counted, tidy.pruned⟩
  | some key =>
    unfold addPart
    rw [named]
    exact tidy.addTo (same ▸ placed.accepted key named) p.id placed.single

theorem removePart_tidy {b : Breakdown} {g : Grouping} {id : Nat} {p : Part} (tidy : b.Tidy) (same : b.grouping = g)
    (placed : g.Placed id p) : (b.removePart p).Tidy := by
  cases named : p.key with
  | none =>
    have formed := removePart_formed tidy.formed same placed
    unfold removePart at formed ⊢
    rw [named] at formed ⊢
    exact ⟨formed, tidy.counted, tidy.pruned⟩
  | some key =>
    unfold removePart
    rw [named]
    exact tidy.removeFrom (same ▸ placed.accepted key named) p.id p.contribution

theorem Tidy.turn {b : Breakdown} (tidy : b.Tidy) (t : Turn) : (b.turn t).Tidy := by
  cases t with
  | clear => exact empty_tidy b.grouping b.filter b.scale
  | move m =>
    cases m with
    | add v =>
      show (b.add v).Tidy
      rw [add_eq_foldl]
      exact foldl_parts addPart_alike (fun _ _ => addPart_tidy) tidy rfl Grouping.parts_placed
    | remove v =>
      show (b.remove v).Tidy
      rw [remove_eq_foldl]
      exact foldl_parts removePart_alike (fun _ _ => removePart_tidy) tidy rfl Grouping.parts_placed

theorem Tidy.turns {b : Breakdown} (tidy : b.Tidy) (ts : List Turn) : (b.turns ts).Tidy := by
  induction ts generalizing b with
  | nil => exact tidy
  | cons t rest ih => exact ih (tidy.turn t)

theorem Formed.isEmpty_iff {b : Breakdown} (formed : b.Formed) : b.isEmpty = true ↔ b.entries = [] := by
  rw [isEmpty, beq_iff_eq, formed.size, List.length_eq_zero_iff]

/-- Whatever is added, removed and cleared, and however often: every bucket
that can be seen counts a request, the buckets kept are as many as are listed,
no group is left without buckets, and the buckets are listed in strictly
increasing order of their keys, each with the values that its own key stands
for. -/
theorem turns_orderly (g : Grouping) (f : Filter) (scale : Scale) (ts : List Turn) :
    let b := (empty g f scale).turns ts
    (∀ e ∈ b.entries, 0 < e.2.count) ∧ (∀ key bucket, b.find? key = some bucket → 0 < bucket.count) ∧
      b.size = b.entries.length ∧ (b.isEmpty = true ↔ b.entries = []) ∧ b.store.Pruned ∧
      (b.entries.Pairwise fun d e => d.1 < e.1) ∧ ∀ e ∈ b.entries, e.2.values = e.1.values := by
  intro b
  have tidy : b.Tidy := (empty_tidy g f scale).turns ts
  refine ⟨tidy.counted, fun key bucket found => ?_, tidy.formed.size, tidy.formed.isEmpty_iff, tidy.pruned,
    b.store.entries_sorted, tidy.formed.bucketValues⟩
  obtain ⟨own, listed⟩ := Store.mem_entries_of_find? found
  exact tidy.counted (own, bucket) listed

end Breakdown

end Rollup
