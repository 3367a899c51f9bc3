import Mathlib.Data.List.Nodup
import Rollup.Proofs.Tidy

namespace Rollup

namespace Store

/-- What a search behind a cursor finds in one group: all of the group lies
before the cursor or behind it, unless it is the group of the cursor. -/
theorem groupEntries_find? (outer inner : String) (e : String × Group) :
    (groupEntries e.1 e.2).find? (fun d => compare (BucketKey.nested outer inner) d.1 == .lt) =
      match compare outer e.1 with
      | .lt => (groupEntries e.1 e.2).head?
      | .eq => (e.2.after? inner).map fun d => (.nested e.1 d.1, d.2)
      | .gt => none := by
  have behind (d : String × Bucket) : compare (BucketKey.nested outer inner) (BucketKey.nested e.1 d.1) =
      (compare outer e.1).then (compare inner d.1) := rfl
  unfold groupEntries SortedMap.after?
  rw [List.find?_map, List.head?_map]
  simp only [Function.comp_def, behind]
  cases compare outer e.1 with
  | lt =>
    cases e.2.entries with
    | nil => rfl
    | cons d rest => rfl
  | eq => rfl
  | gt =>
    have none : e.2.entries.find? (fun d => Ordering.gt.then (compare inner d.1) == .lt) = none :=
      List.find?_eq_none.mpr fun d _ => (by decide : ¬(Ordering.gt == Ordering.lt) = true)
    rw [none]
    rfl

/-- The groups from that of the cursor on, searched one after the other. -/
theorem findSome?_groups (outer inner : String) {l : List (String × Group)}
    (sorted : l.Pairwise fun a b => compare a.1 b.1 = .lt) :
    (l.findSome? fun e => (groupEntries e.1 e.2).find? fun d => compare (BucketKey.nested outer inner) d.1 == .lt) =
      (((l.find? fun e => compare e.1 outer == .eq).map (·.2)).bind fun group =>
        (group.after? inner).map fun d => (BucketKey.nested outer d.1, d.2)).or
      ((l.filter fun e => compare outer e.1 == .lt).findSome? fun e => (groupEntries e.1 e.2).head?) := by
  induction l with
  | nil => rfl
  | cons e rest ih =>
    obtain ⟨below, tail⟩ := List.pairwise_cons.mp sorted
    -- No group behind the one of the cursor is the one of the cursor.
    have past (behind : ∀ d ∈ rest, compare outer d.1 = .lt) :
        rest.find? (fun d => compare d.1 outer == .eq) = none := by
      refine List.find?_eq_none.mpr fun d member => ?_
      rw [Std.OrientedCmp.gt_of_lt (behind d member)]
      decide
    rw [List.findSome?_cons, groupEntries_find?, ih tail, List.find?_cons, List.filter_cons]
    cases place : compare outer e.1 with
    | lt =>
      have behind (d : String × Group) (member : d ∈ rest) : compare outer d.1 = .lt :=
        Std.TransCmp.lt_trans place (below d member)
      have apart : (compare e.1 outer == .eq) = false := by
        rw [Std.OrientedCmp.gt_of_lt place]
        rfl
      rw [past behind, apart, if_pos (by rfl), List.findSome?_cons]
      rfl
    | eq =>
      cases Std.LawfulEqCmp.eq_of_compare place
      rw [past below, beq_iff_eq.mpr place, if_neg (by decide)]
      dsimp only [Option.map_some, Option.bind_some]
      cases e.2.after? inner <;> rfl
    | gt =>
      have apart : (compare e.1 outer == .eq) = false := by
        rw [Std.OrientedCmp.lt_of_gt place]
        rfl
      rw [apart, if_neg (by decide)]

/-- The next bucket is the first one with a greater key. -/
theorem after?_eq_find? {s : Store} {cursor : BucketKey} (accepted : s.Accepts cursor) :
    s.after? cursor = s.entries.find? fun e => compare cursor e.1 == .lt := by
  obtain ⟨outer, inner⟩ := cursor
  cases s with
  | totalsOnly => rfl
  | flat group =>
    cases accepted
    unfold after? entries flatEntries SortedMap.after?
    rw [List.find?_map]
    rfl
  | nested groups =>
    obtain ⟨o, rfl⟩ := Option.ne_none_iff_exists'.mp accepted
    rw [entries, List.find?_flatMap]
    exact (findSome?_groups o inner groups.sorted).symm

end Store

namespace Breakdown

/-- Where keys have their places never changes. -/
theorem Tidy.turns_accepts {b : Breakdown} (tidy : b.Tidy) (ts : List Turn) (key : BucketKey) :
    (b.turns ts).store.Accepts key ↔ b.store.Accepts key := by
  rw [(tidy.turns ts).formed.accepts, (turns_alike b ts).grouping, tidy.formed.accepts]

/-- The keys of all buckets. -/
def keys (b : Breakdown) : List BucketKey := b.entries.map Prod.fst

/-- Whether a key lies behind a cursor. Without a cursor each does. -/
def Behind (cursor : Option BucketKey) (key : BucketKey) : Prop := ∀ c ∈ cursor, c < key

instance (cursor : Option BucketKey) (key : BucketKey) : Decidable (Behind cursor key) :=
  inferInstanceAs (Decidable (∀ c ∈ cursor, c < key))

/-- What a client is told who has seen all buckets up to a cursor, or none
at all. -/
def next? (b : Breakdown) (cursor : Option BucketKey) : Option (BucketKey × Bucket) := cursor.elim b.first? b.after?

theorem next?_eq_find? {b : Breakdown} {cursor : Option BucketKey} (accepted : ∀ c ∈ cursor, b.store.Accepts c) :
    b.next? cursor = b.entries.find? fun e => Behind cursor e.1 := by
  cases cursor with
  | none =>
    have all : (fun e : BucketKey × Bucket => decide (Behind none e.1)) = fun _ => true :=
      funext fun _ => decide_eq_true nofun
    rw [all]
    show b.entries.head? = _
    cases b.entries <;> rfl
  | some c =>
    have same : (fun e : BucketKey × Bucket => decide (Behind (some c) e.1)) = fun e => compare c e.1 == .lt := by
      funext e
      rw [Bool.eq_iff_iff, decide_eq_true_iff, beq_iff_eq]
      exact ⟨fun behind => behind c rfl, fun less d here => Option.some.inj here ▸ less⟩
    rw [same]
    exact Store.after?_eq_find? (accepted c rfl)

/-- One call of a client who pages through a report: the report as it is then,
how far he is, and what he is told. -/
structure Page where
  state : Breakdown
  cursor : Option BucketKey
  answer : Option (BucketKey × Bucket)

/-- The calls of a client who starts at the first bucket, goes on behind the
one that he was told last, and stops when there is none. Before each call some
turns happen. -/
def paging (b : Breakdown) (cursor : Option BucketKey) : List (List Turn) → List Page
  | [] => []
  | ts :: rest =>
    ⟨b.turns ts, cursor, (b.turns ts).next? cursor⟩ :: match (b.turns ts).next? cursor with
      | none => []
      | some e => (b.turns ts).paging (some e.1) rest

/-- The keys that a client was told, in order. -/
def seen (pages : List Page) : List BucketKey := pages.filterMap fun p => p.answer.map Prod.fst

/-- The answer is there, and it is the least bucket behind the cursor. There is
none only if no bucket lies behind the cursor. -/
structure Page.Exact (p : Page) : Prop where
  listed : ∀ e ∈ p.answer, e ∈ p.state.entries
  found : ∀ e ∈ p.answer, p.state.find? e.1 = some e.2
  behind : ∀ e ∈ p.answer, Behind p.cursor e.1
  least : ∀ e ∈ p.answer, ∀ d ∈ p.state.entries, Behind p.cursor d.1 → d = e ∨ e.1 < d.1
  last : p.answer = none → ∀ d ∈ p.state.entries, ¬Behind p.cursor d.1

theorem next?_exact {b : Breakdown} {cursor : Option BucketKey} (accepted : ∀ c ∈ cursor, b.store.Accepts c) :
    Page.Exact ⟨b, cursor, b.next? cursor⟩ := by
  rw [next?_eq_find? accepted]
  cases told : b.entries.find? fun e => decide (Behind cursor e.1) with
  | none =>
    refine ⟨nofun, nofun, nofun, nofun, fun _ d listed behind => ?_⟩
    exact List.find?_eq_none.mp told d listed (decide_eq_true behind)
  | some e =>
    obtain ⟨behind, before, after, split, passed⟩ := List.find?_eq_some_iff_append.mp told
    have listed : e ∈ b.entries := List.mem_of_find?_eq_some told
    have least (d : BucketKey × Bucket) (there : d ∈ b.entries) (far : Behind cursor d.1) : d = e ∨ e.1 < d.1 := by
      have sorted := b.store.entries_sorted
      rw [show b.store.entries = before ++ e :: after from split] at sorted
      rw [split] at there
      rcases List.mem_append.mp there with early | late
      · have near := passed d early
        rw [decide_eq_true far] at near
        cases near
      · rcases List.mem_cons.mp late with same | later
        · exact Or.inl same
        · exact Or.inr (List.rel_of_pairwise_cons (List.pairwise_append.mp sorted).2.1 later)
    refine ⟨?_, ?_, ?_, ?_, nofun⟩
    · rintro _ ⟨⟩
      exact listed
    · rintro _ ⟨⟩
      exact (Store.mem_entries_iff.mp listed).2
    · rintro _ ⟨⟩
      exact of_decide_eq_true behind
    · rintro _ ⟨⟩
      exact least

/-- The calls of a client who starts behind a cursor: each answer is exact, they
come in increasing order, and when there is none left, no key behind the cursor
that was always there is missing. -/
structure Complete (cursor : Option BucketKey) (pages : List Page) : Prop where
  exact : ∀ p ∈ pages, p.Exact
  behind : ∀ key ∈ seen pages, Behind cursor key
  increasing : (seen pages).Pairwise (· < ·)
  all : (∃ p ∈ pages, p.answer = none) → ∀ key, Behind cursor key → (∀ p ∈ pages, key ∈ p.state.keys) →
    key ∈ seen pages

theorem Complete.nil (cursor : Option BucketKey) : Complete cursor [] := by
  refine ⟨fun _ member => ?_, fun _ member => ?_, .nil, fun ⟨_, member, _⟩ => ?_⟩ <;> cases member

theorem Complete.last {p : Page} (exact : p.Exact) (none : p.answer = none) : Complete p.cursor [p] := by
  have nothing : seen [p] = [] := by rw [seen, List.filterMap_cons, none]; rfl
  refine ⟨?_, ?_, ?_, fun _ key behind there => ?_⟩
  · rintro _ (_ | ⟨_, ⟨⟩⟩)
    exact exact
  · rw [nothing]
    exact nofun
  · rw [nothing]
    exact .nil
  · obtain ⟨d, listed, rfl⟩ := List.mem_map.mp (there p List.mem_cons_self)
    exact absurd behind (exact.last none d listed)

theorem Complete.cons {p : Page} (exact : p.Exact) {e : BucketKey × Bucket} (told : p.answer = some e)
    {rest : List Page} (complete : Complete (some e.1) rest) : Complete p.cursor (p :: rest) := by
  have more : seen (p :: rest) = e.1 :: seen rest := by rw [seen, List.filterMap_cons, told]; rfl
  have later (key : BucketKey) (member : key ∈ seen rest) : e.1 < key := complete.behind key member e.1 rfl
  have here : Behind p.cursor e.1 := exact.behind e told
  refine ⟨List.forall_mem_cons.mpr ⟨exact, complete.exact⟩, ?_, ?_, ?_⟩
  · rw [more]
    refine List.forall_mem_cons.mpr ⟨here, fun key member c stand => ?_⟩
    exact Std.TransCmp.lt_trans (here c stand) (later key member)
  · rw [more]
    exact List.pairwise_cons.mpr ⟨later, complete.increasing⟩
  · rintro ⟨q, member, none⟩ key behind there
    obtain ⟨now, always⟩ := List.forall_mem_cons.mp there
    have ended : ∃ q ∈ rest, q.answer = Option.none := by
      rcases List.mem_cons.mp member with rfl | deeper
      · rw [told] at none
        cases none
      · exact ⟨q, deeper, none⟩
    -- A key that is always there is the one he is told, or it still lies ahead.
    obtain ⟨d, listed, rfl⟩ := List.mem_map.mp now
    rw [more]
    rcases exact.least e told d listed behind with rfl | less
    · exact List.mem_cons_self
    · refine List.mem_cons_of_mem _ (complete.all ended d.1 ?_ always)
      rintro _ ⟨⟩
      exact less

theorem Tidy.paging_complete {b : Breakdown} (tidy : b.Tidy) {cursor : Option BucketKey}
    (accepted : ∀ c ∈ cursor, b.store.Accepts c) (rounds : List (List Turn)) :
    Complete cursor (b.paging cursor rounds) := by
  induction rounds generalizing b cursor with
  | nil => exact .nil cursor
  | cons ts rest ih =>
    have exact := next?_exact fun c stand => (tidy.turns_accepts ts c).mpr (accepted c stand)
    unfold paging
    cases told : (b.turns ts).next? cursor with
    | none => exact .last (told ▸ exact) rfl
    | some e =>
      have listed : e ∈ (b.turns ts).entries := exact.listed e told
      refine .cons (told ▸ exact) rfl (ih (tidy.turns ts) ?_)
      rintro _ ⟨⟩
      exact (Store.mem_entries_iff.mp listed).1

/-- Whatever is added, removed and cleared while a client pages through a
report, he is told keys in strictly increasing order, each of them is there at
that moment and the least one behind the one before, and once he has reached the
end he has been told every key that was always there exactly once. -/
theorem paging_orderly_and_complete (g : Grouping) (f : Filter) (scale : Scale) (rounds : List (List Turn)) :
    let pages := (empty g f scale).paging none rounds
    (seen pages).Pairwise (· < ·) ∧ (∀ p ∈ pages, p.Exact) ∧
      ((∃ p ∈ pages, p.answer = none) → ∀ key, (∀ p ∈ pages, key ∈ p.state.keys) → (seen pages).count key = 1) := by
  intro pages
  have start : ∀ c ∈ (none : Option BucketKey), (empty g f scale).store.Accepts c := fun _ stand => nomatch stand
  have complete : Complete none pages := (empty_tidy g f scale).paging_complete start rounds
  refine ⟨complete.increasing, complete.exact, fun ended key always => ?_⟩
  have once : (seen pages).Nodup := complete.increasing.imp SortedMap.ne_of_compare_lt
  exact List.count_eq_one_of_mem once (complete.all ended key (fun _ stand => nomatch stand) always)

/-- While a client pages, the group that he stands in goes, and groups come
before and behind it. -/
def shifting : List (List Turn) := [
  [.move (.add (.tagged 1 "b" "z")), .move (.add (.tagged 2 "b|c" "a")), .move (.add (.tagged 3 "d" "a"))],
  [.move (.remove (.tagged 1 "b" "z")), .move (.add (.tagged 4 "bb" "x"))],
  [.move (.add (.tagged 5 "a" "q"))], [], [], []]

theorem shifting_paged_completely :
    let pages := (empty (.byTags .timers [0] .perScript) .any .standard).paging none shifting
    seen pages = [.nested "b" "z", .nested "b\\|c" "a", .nested "bb" "x", .nested "d" "a"] ∧
      (∃ p ∈ pages, p.answer = none) ∧ (∀ p ∈ pages, .nested "d" "a" ∈ p.state.keys) ∧
      (seen pages).count (.nested "d" "a") = 1 := by
  intro pages
  have ended : ∃ p ∈ pages, p.answer = none := by decide +kernel
  have always : ∀ p ∈ pages, .nested "d" "a" ∈ p.state.keys := by decide +kernel
  obtain ⟨_, _, once⟩ := paging_orderly_and_complete (.byTags .timers [0] .perScript) .any .standard shifting
  exact ⟨by decide +kernel, ended, always, once ended _ always⟩

end Breakdown

end Rollup
