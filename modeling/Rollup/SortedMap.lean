namespace Rollup

/-- A finite map kept as its entries in increasing key order. Two maps with
the same contents are the same value, whatever was inserted first. -/
structure SortedMap (κ ν : Type) [Ord κ] where
  entries : List (κ × ν)
  sorted : entries.Pairwise fun a b => compare a.1 b.1 = .lt
deriving DecidableEq

namespace SortedMap

variable {κ ν : Type} [Ord κ]

@[ext] theorem ext {m n : SortedMap κ ν} (same : m.entries = n.entries) : m = n := by
  cases m
  cases n
  cases same
  rfl

def empty : SortedMap κ ν := ⟨[], .nil⟩

instance : Inhabited (SortedMap κ ν) := ⟨empty⟩

def isEmpty (m : SortedMap κ ν) : Bool := m.entries.isEmpty

def size (m : SortedMap κ ν) : Nat := m.entries.length

def keys (m : SortedMap κ ν) : List κ := m.entries.map (·.1)

def values (m : SortedMap κ ν) : List ν := m.entries.map (·.2)

def find? (m : SortedMap κ ν) (k : κ) : Option ν :=
  (m.entries.find? fun e => compare e.1 k == .eq).map (·.2)

def first? (m : SortedMap κ ν) : Option (κ × ν) := m.entries.head?

/-- The entry with the least key greater than `k`. -/
def after? (m : SortedMap κ ν) (k : κ) : Option (κ × ν) :=
  m.entries.find? fun e => compare k e.1 == .lt

/-- Puts an entry where its key belongs, in place of one with that key. -/
def insertEntry (k : κ) (v : ν) : List (κ × ν) → List (κ × ν)
  | [] => [(k, v)]
  | (a, w) :: rest =>
    match compare k a with
    | .lt => (k, v) :: (a, w) :: rest
    | .eq => (k, v) :: rest
    | .gt => (a, w) :: insertEntry k v rest

theorem mem_insertEntry {k : κ} {v : ν} {l : List (κ × ν)} {e : κ × ν} (member : e ∈ insertEntry k v l) :
    e = (k, v) ∨ e ∈ l := by
  induction l with
  | nil => exact Or.inl (List.mem_singleton.mp member)
  | cons head rest ih =>
    obtain ⟨a, w⟩ := head
    unfold insertEntry at member
    split at member
    · exact (List.mem_cons.mp member).imp_right id
    · exact (List.mem_cons.mp member).imp_right (List.mem_cons_of_mem _)
    · rcases List.mem_cons.mp member with rfl | tail
      · exact Or.inr List.mem_cons_self
      · exact (ih tail).imp_right (List.mem_cons_of_mem _)

theorem insertEntry_sorted [Std.TransOrd κ] [Std.LawfulEqOrd κ] (k : κ) (v : ν) {l : List (κ × ν)}
    (sorted : l.Pairwise fun a b => compare a.1 b.1 = .lt) :
    (insertEntry k v l).Pairwise fun a b => compare a.1 b.1 = .lt := by
  induction l with
  | nil => exact List.pairwise_singleton _ _
  | cons head rest ih =>
    obtain ⟨a, w⟩ := head
    obtain ⟨below, tail⟩ := List.pairwise_cons.mp sorted
    unfold insertEntry
    split
    · rename_i less
      refine List.pairwise_cons.mpr ⟨fun e member => ?_, sorted⟩
      rcases List.mem_cons.mp member with rfl | deeper
      · exact less
      · exact Std.TransCmp.lt_trans less (below e deeper)
    · rename_i same
      cases Std.LawfulEqCmp.eq_of_compare same
      exact List.pairwise_cons.mpr ⟨below, tail⟩
    · rename_i greater
      refine List.pairwise_cons.mpr ⟨fun e member => ?_, ih tail⟩
      rcases mem_insertEntry member with rfl | deeper
      · exact Std.OrientedCmp.lt_of_gt greater
      · exact below e deeper

def insert [Std.TransOrd κ] [Std.LawfulEqOrd κ] (m : SortedMap κ ν) (k : κ) (v : ν) : SortedMap κ ν :=
  ⟨insertEntry k v m.entries, insertEntry_sorted k v m.sorted⟩

def erase (m : SortedMap κ ν) (k : κ) : SortedMap κ ν :=
  ⟨m.entries.filter fun e => compare e.1 k != .eq, m.sorted.filter _⟩

/-- The entries whose key and value pass the test. -/
def filter (keep : κ → ν → Bool) (m : SortedMap κ ν) : SortedMap κ ν :=
  ⟨m.entries.filter fun e => keep e.1 e.2, m.sorted.filter _⟩

def mapValues {μ : Type} (f : ν → μ) (m : SortedMap κ ν) : SortedMap κ μ :=
  ⟨m.entries.map fun e => (e.1, f e.2), List.pairwise_map.mpr m.sorted⟩

theorem ne_of_compare_lt [Std.ReflOrd κ] {a b : κ} (less : compare a b = .lt) : a ≠ b := by
  rintro rfl
  rw [Std.compare_self] at less
  cases less

/-- Entries with the same key are the same entry. -/
theorem entry_unique [Std.TransOrd κ] {l : List (κ × ν)} {a b : κ × ν}
    (sorted : l.Pairwise fun a b => compare a.1 b.1 = .lt) (left : a ∈ l) (right : b ∈ l)
    (same : a.1 = b.1) : a = b := by
  induction l with
  | nil => cases left
  | cons e rest ih =>
    obtain ⟨below, tail⟩ := List.pairwise_cons.mp sorted
    rcases List.mem_cons.mp left with rfl | leftDeep
    · rcases List.mem_cons.mp right with rfl | rightDeep
      · rfl
      · exact absurd same (ne_of_compare_lt (below b rightDeep))
    · rcases List.mem_cons.mp right with rfl | rightDeep
      · exact absurd same.symm (ne_of_compare_lt (below a leftDeep))
      · exact ih tail leftDeep rightDeep

/-- Keys that come behind a key are not that key. -/
theorem find?_of_below [Std.LawfulEqOrd κ] {l : List (κ × ν)} {k : κ} (below : ∀ e ∈ l, compare k e.1 = .lt) :
    (l.find? fun e => compare e.1 k == .eq) = none := by
  refine List.find?_eq_none.mpr fun e member same => ?_
  have equal : e.1 = k := Std.LawfulEqCmp.eq_of_compare (beq_iff_eq.mp same)
  exact ne_of_compare_lt (below e member) equal.symm

section Lawful

variable [Std.TransOrd κ] [Std.LawfulEqOrd κ]

theorem find?_eq_some_iff {m : SortedMap κ ν} {k : κ} {v : ν} : m.find? k = some v ↔ (k, v) ∈ m.entries := by
  unfold find?
  rw [Option.map_eq_some_iff]
  constructor
  · rintro ⟨⟨a, w⟩, found, rfl⟩
    have same := List.find?_some found
    cases Std.LawfulEqCmp.eq_of_compare (beq_iff_eq.mp same)
    exact List.mem_of_find?_eq_some found
  · intro member
    have isFound : (m.entries.find? fun e => compare e.1 k == .eq).isSome :=
      List.find?_isSome.mpr ⟨(k, v), member, beq_iff_eq.mpr Std.compare_self⟩
    obtain ⟨e, found⟩ := Option.isSome_iff_exists.mp isFound
    have passed := List.find?_some found
    have same : e.1 = k := Std.LawfulEqCmp.eq_of_compare (beq_iff_eq.mp passed)
    refine ⟨e, found, ?_⟩
    rw [entry_unique m.sorted (List.mem_of_find?_eq_some found) member same]

theorem mem_insertEntry_iff {k : κ} {v : ν} {l : List (κ × ν)} {e : κ × ν}
    (sorted : l.Pairwise fun a b => compare a.1 b.1 = .lt) :
    e ∈ insertEntry k v l ↔ e = (k, v) ∨ e ∈ l ∧ e.1 ≠ k := by
  induction l with
  | nil => simp [insertEntry]
  | cons head rest ih =>
    obtain ⟨a, w⟩ := head
    obtain ⟨below, tail⟩ := List.pairwise_cons.mp sorted
    have apart (b : κ × ν) (member : b ∈ rest) : a ≠ b.1 := ne_of_compare_lt (below b member)
    unfold insertEntry
    split
    · rename_i less
      have above (b : κ × ν) (member : b ∈ rest) : k ≠ b.1 :=
        ne_of_compare_lt (Std.TransCmp.lt_trans less (below b member))
      have different := ne_of_compare_lt less
      grind
    · rename_i same
      cases Std.LawfulEqCmp.eq_of_compare same
      grind
    · rename_i greater
      have different := ne_of_compare_lt (Std.OrientedCmp.lt_of_gt greater)
      rw [List.mem_cons, ih tail]
      grind

theorem find?_insert [DecidableEq κ] (m : SortedMap κ ν) (k j : κ) (v : ν) :
    (m.insert k v).find? j = if k = j then some v else m.find? j := by
  apply Option.ext
  intro w
  rw [find?_eq_some_iff, insert, mem_insertEntry_iff m.sorted]
  split
  · grind
  · rw [find?_eq_some_iff]
    grind

theorem find?_erase [DecidableEq κ] (m : SortedMap κ ν) (k j : κ) :
    (m.erase k).find? j = if k = j then none else m.find? j := by
  apply Option.ext
  intro w
  rw [find?_eq_some_iff, erase, List.mem_filter]
  split
  · rename_i same
    simp [same]
  · rename_i different
    rw [find?_eq_some_iff]
    have apart : compare j k ≠ .eq := fun same => different (Std.LawfulEqCmp.eq_of_compare same).symm
    simp [apart]

section Sum

variable {l : List (κ × Nat)}

/-- An entry that is put in adds its value in place of the one that was there. -/
theorem sum_insertEntry (sorted : l.Pairwise fun a b => compare a.1 b.1 = .lt) (k : κ) (v : Nat) :
    ((insertEntry k v l).map (·.2)).foldr (· + ·) 0 + ((l.find? fun e => compare e.1 k == .eq).map (·.2)).getD 0 =
      (l.map (·.2)).foldr (· + ·) 0 + v := by
  induction l with
  | nil => exact Nat.add_comm v 0
  | cons head rest ih =>
    obtain ⟨a, w⟩ := head
    obtain ⟨below, tail⟩ := List.pairwise_cons.mp sorted
    unfold insertEntry
    split
    · rename_i less
      have missing : ((a, w) :: rest).find? (fun e => compare e.1 k == .eq) = none := by
        refine find?_of_below fun e member => ?_
        rcases List.mem_cons.mp member with rfl | deeper
        · exact less
        · exact Std.TransCmp.lt_trans less (below e deeper)
      rw [missing]
      exact Nat.add_comm v _
    · rename_i same
      cases Std.LawfulEqCmp.eq_of_compare same
      have found : ((k, w) :: rest).find? (fun e => compare e.1 k == .eq) = some (k, w) :=
        List.find?_cons_of_pos (beq_iff_eq.mpr Std.compare_self)
      rw [found]
      simp only [List.map_cons, List.foldr_cons, Option.map_some, Option.getD_some]
      omega
    · rename_i greater
      have skipped : ((a, w) :: rest).find? (fun e => compare e.1 k == .eq) =
          rest.find? fun e => compare e.1 k == .eq :=
        List.find?_cons_of_neg (by simp [Std.OrientedCmp.lt_of_gt greater])
      have later := ih tail
      rw [skipped]
      simp only [List.map_cons, List.foldr_cons]
      omega

/-- An entry that is taken out takes its value along. -/
theorem sum_erase (sorted : l.Pairwise fun a b => compare a.1 b.1 = .lt) (k : κ) :
    ((l.filter fun e => compare e.1 k != .eq).map (·.2)).foldr (· + ·) 0 +
        ((l.find? fun e => compare e.1 k == .eq).map (·.2)).getD 0 = (l.map (·.2)).foldr (· + ·) 0 := by
  induction l with
  | nil => rfl
  | cons head rest ih =>
    obtain ⟨a, w⟩ := head
    obtain ⟨below, tail⟩ := List.pairwise_cons.mp sorted
    by_cases same : compare a k = .eq
    · cases Std.LawfulEqCmp.eq_of_compare same
      have others : rest.filter (fun e => compare e.1 k != .eq) = rest := by
        refine List.filter_eq_self.mpr fun e member => ?_
        rw [Std.OrientedCmp.gt_of_lt (below e member)]
        rfl
      have found : ((k, w) :: rest).find? (fun e => compare e.1 k == .eq) = some (k, w) :=
        List.find?_cons_of_pos (beq_iff_eq.mpr same)
      rw [found, List.filter_cons_of_neg (by simp), others]
      exact Nat.add_comm _ w
    · have skipped : ((a, w) :: rest).find? (fun e => compare e.1 k == .eq) =
          rest.find? fun e => compare e.1 k == .eq := List.find?_cons_of_neg (by simpa using same)
      have later := ih tail
      rw [skipped, List.filter_cons_of_pos (by simpa using same)]
      simp only [List.map_cons, List.foldr_cons]
      omega

end Sum

/-- Maps that answer alike are the same map. -/
theorem ext_find? {m n : SortedMap κ ν} (same : ∀ k, m.find? k = n.find? k) : m = n := by
  apply ext
  have nodup (m : SortedMap κ ν) : m.entries.Nodup :=
    m.sorted.imp fun less equal => ne_of_compare_lt less (congrArg Prod.fst equal)
  have perm : m.entries.Perm n.entries := by
    rw [List.perm_ext_iff_of_nodup (nodup m) (nodup n)]
    rintro ⟨k, v⟩
    rw [← find?_eq_some_iff, ← find?_eq_some_iff, same]
  refine List.Perm.eq_of_pairwise ?_ m.sorted n.sorted perm
  intro a b _ _ less greater
  exact absurd (Std.OrientedCmp.gt_of_lt less) (by rw [greater]; decide)

end Lawful

end SortedMap

end Rollup
