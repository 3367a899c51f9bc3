import Rollup.Breakdown
import Rollup.Proofs.Quantity
import Rollup.Proofs.Store
import Rollup.Proofs.Units

namespace Rollup

namespace Contribution

/-- A contribution that counts its request once and has an observation for
every hit. -/
structure Single (c : Contribution) : Prop where
  count : c.sums.count = 1
  hits : (c.samples.map (·.weight)).sum = c.sums.hits

theorem ofRequest_single (r : Record) : (ofRequest r).Single := ⟨rfl, rfl⟩

theorem ofTimer_single (t : Timer) : (ofTimer t).Single := ⟨rfl, rfl⟩

theorem Single.merge {a b : Contribution} (left : a.Single) (right : b.Single) : (a.merge b).Single where
  count := by simp only [Contribution.merge, left.count, right.count, Nat.max_self]
  hits := by
    have hits : (a.merge b).sums.hits = a.sums.hits + b.sums.hits := rfl
    have samples : (a.merge b).samples = a.samples ++ b.samples := rfl
    rw [hits, samples, List.map_append, List.sum_append_nat, left.hits, right.hits]

theorem amount_merge_le (scale : Scale) (a b : Contribution) (q : Quantity) :
    (a.merge b).amount scale q ≤ a.amount scale q + b.amount scale q := by
  cases q with
  | cell i => exact Nat.le_of_eq (scale.observed_append a.samples b.samples i)
  | sum f =>
    cases f with
    | count => exact Nat.max_le.mpr ⟨Nat.le_add_right _ _, Nat.le_add_left _ _⟩
    | hits => exact Nat.le_refl _
    | _ => exact Nat.min_le_left _ _

/-- The exact amounts of some contributions together. -/
def total (scale : Scale) (cs : List Contribution) (q : Quantity) : Nat := (cs.map (·.amount scale q)).sum

@[simp] theorem total_nil (scale : Scale) (q : Quantity) : total scale [] q = 0 := rfl

@[simp] theorem total_cons (scale : Scale) (c : Contribution) (cs : List Contribution) (q : Quantity) :
    total scale (c :: cs) q = c.amount scale q + total scale cs q := by
  simp [total]

@[simp] theorem total_append (scale : Scale) (left right : List Contribution) (q : Quantity) :
    total scale (left ++ right) q = total scale left q + total scale right q := by
  simp [total]

theorem total_perm {left right : List Contribution} (perm : left.Perm right) (scale : Scale) (q : Quantity) :
    total scale left q = total scale right q :=
  (perm.map _).sum_nat

theorem total_sublist {left right : List Contribution} (sub : left.Sublist right) (scale : Scale) (q : Quantity) :
    total scale left q ≤ total scale right q := by
  induction sub with
  | slnil => exact Nat.le_refl _
  | cons c _ ih => rw [total_cons]; omega
  | cons_cons c _ ih => rw [total_cons, total_cons]; omega

end Contribution

namespace Breakdown

def gatherStep (gathered : SortedMap BucketKey Contribution) (e : BucketKey × Contribution) :
    SortedMap BucketKey Contribution :=
  gathered.insert e.1 (((gathered.find? e.1).map (·.merge e.2)).getD e.2)

theorem gather_eq_foldl (l : List (BucketKey × Contribution)) : gather l = l.foldl gatherStep .empty := rfl

/-- A contribution is gathered as a new entry, or merged into the one entry
with its key. -/
theorem gatherStep_cases (m : SortedMap BucketKey Contribution) (e : BucketKey × Contribution) :
    (gatherStep m e).entries.Perm (e :: m.entries) ∨
      ∃ c rest, m.entries.Perm ((e.1, c) :: rest) ∧
        (gatherStep m e).entries.Perm ((e.1, c.merge e.2) :: rest) := by
  unfold gatherStep
  cases found : m.find? e.1 with
  | none =>
    have perm := m.perm_insert e.1 e.2
    rw [SortedMap.erase_of_find? found] at perm
    exact Or.inl perm
  | some c => exact Or.inr ⟨c, _, SortedMap.perm_of_find? found, m.perm_insert e.1 (c.merge e.2)⟩

theorem gather_total_le (scale : Scale) (l : List (BucketKey × Contribution)) (q : Quantity) :
    Contribution.total scale (gather l).values q ≤ Contribution.total scale (l.map (·.2)) q := by
  -- For whatever was gathered before, as the map changes with each contribution.
  have grows (m : SortedMap BucketKey Contribution) : Contribution.total scale (l.foldl gatherStep m).values q ≤
      Contribution.total scale m.values q + Contribution.total scale (l.map (·.2)) q := by
    induction l generalizing m with
    | nil => exact Nat.le_refl _
    | cons e rest ih =>
      have step : Contribution.total scale (gatherStep m e).values q ≤
          Contribution.total scale m.values q + e.2.amount scale q := by
        rcases gatherStep_cases m e with fresh | ⟨c, others, old, merged⟩
        · have same := Contribution.total_perm (fresh.map (·.2)) scale q
          rw [List.map_cons, Contribution.total_cons] at same
          exact Nat.le_of_eq (same.trans (Nat.add_comm _ _))
        · have before := Contribution.total_perm (old.map (·.2)) scale q
          have after := Contribution.total_perm (merged.map (·.2)) scale q
          have bound := Contribution.amount_merge_le scale c e.2 q
          simp only [List.map_cons, Contribution.total_cons] at before after
          unfold SortedMap.values
          omega
      have later := ih (gatherStep m e)
      simp only [List.foldl_cons, List.map_cons, Contribution.total_cons]
      omega
  simpa [gather_eq_foldl, SortedMap.values, SortedMap.empty] using grows .empty

/-- What holds of contributions, and of merged ones with them, holds of
gathered ones. -/
theorem gather_forall {P : BucketKey → Contribution → Prop} {l : List (BucketKey × Contribution)}
    (each : ∀ e ∈ l, P e.1 e.2) (merge : ∀ key a b, P key a → P key b → P key (a.merge b)) :
    ∀ e ∈ (gather l).entries, P e.1 e.2 := by
  have kept (m : SortedMap BucketKey Contribution) (old : ∀ e ∈ m.entries, P e.1 e.2) :
      ∀ e ∈ (l.foldl gatherStep m).entries, P e.1 e.2 := by
    induction l generalizing m with
    | nil => exact old
    | cons e rest ih =>
      have front := each e List.mem_cons_self
      refine ih (fun d member => each d (List.mem_cons_of_mem e member)) (gatherStep m e) fun d member => ?_
      rcases gatherStep_cases m e with fresh | ⟨c, others, before, merged⟩
      · rcases List.mem_cons.mp (fresh.mem_iff.mp member) with rfl | deeper
        · exact front
        · exact old d deeper
      · rcases List.mem_cons.mp (merged.mem_iff.mp member) with rfl | deeper
        · exact merge e.1 c e.2 (old (e.1, c) (before.mem_iff.mpr List.mem_cons_self)) front
        · exact old d (before.mem_iff.mpr (List.mem_cons_of_mem _ deeper))
  exact kept .empty fun e member => nomatch member

end Breakdown

namespace Grouping

/-- Every contribution counts its request once, and lies where the store of
the grouping has a place for it. -/
theorem contributions_forall (g : Grouping) (v : View) :
    ∀ e ∈ contributions v g, e.2.Single ∧ (Store.empty g).Accepts e.1 := by
  have placed (source : TagSource) (names : List Nat) (scope : Scope) (values : List String) :
      (Store.empty (.byTags source names scope)).Accepts (Scope.key scope v.record values) := by
    cases scope with
    | everywhere => rfl
    | perScript => exact Option.some_ne_none _
    | perScriptHostServer => exact Option.some_ne_none _
    | perHost => exact Option.some_ne_none _
  intro e member
  cases g with
  | totals => cases member
  | byAttributes attributes =>
    cases List.mem_singleton.mp member
    exact ⟨Contribution.ofRequest_single _, rfl⟩
  | byTags source names scope =>
    rw [contributions_units] at member
    obtain ⟨unit, inside, found⟩ := List.mem_filterMap.mp member
    obtain ⟨values, _, rfl⟩ := Option.map_eq_some_iff.mp found
    refine ⟨?_, placed source names scope values⟩
    rcases mem_units inside with rfl | ⟨timer, _, rfl⟩
    · exact Contribution.ofRequest_single v.record
    · exact Contribution.ofTimer_single timer

/-- What a breakdown takes in of a request: nothing if the filter refuses
it, the whole request where there are only totals, and elsewhere all that the
grouping finds in it. -/
def shares (g : Grouping) (f : Filter) (v : View) : List Contribution :=
  if f.accepts v then
    match g with
    | .totals => [.ofRequest v.record]
    | g => (contributions v g).map (·.2)
  else []

theorem shares_single {g : Grouping} {f : Filter} {v : View} : ∀ c ∈ g.shares f v, c.Single := by
  intro c member
  unfold shares at member
  split at member
  · split at member
    · cases List.mem_singleton.mp member
      exact Contribution.ofRequest_single _
    · obtain ⟨e, found, rfl⟩ := List.mem_map.mp member
      exact (contributions_forall _ v e found).1
  · cases member

end Grouping

/-- What a request puts into one bucket, or straight into the totals. -/
structure Part where
  id : Nat
  key : Option BucketKey
  contribution : Contribution

namespace Part

def total (scale : Scale) (ps : List Part) : Quantity → Nat :=
  Contribution.total scale (ps.map (·.contribution))

@[simp] theorem total_nil (scale : Scale) (q : Quantity) : total scale [] q = 0 := rfl

@[simp] theorem total_cons (scale : Scale) (p : Part) (ps : List Part) (q : Quantity) :
    total scale (p :: ps) q = p.contribution.amount scale q + total scale ps q :=
  Contribution.total_cons scale p.contribution _ q

@[simp] theorem total_append (scale : Scale) (left right : List Part) (q : Quantity) :
    total scale (left ++ right) q = total scale left q + total scale right q := by
  simp [total]

theorem total_perm {left right : List Part} (perm : left.Perm right) (scale : Scale) (q : Quantity) :
    total scale left q = total scale right q :=
  Contribution.total_perm (perm.map _) scale q

theorem total_sublist {left right : List Part} (sub : left.Sublist right) (scale : Scale) (q : Quantity) :
    total scale left q ≤ total scale right q :=
  Contribution.total_sublist (sub.map _) scale q

end Part

namespace Grouping

/-- What a request puts where, one part for each bucket. -/
def parts (g : Grouping) (f : Filter) (v : View) : List Part :=
  if f.accepts v then
    match g with
    | .totals => [⟨v.id, none, .ofRequest v.record⟩]
    | g => (Breakdown.gather (contributions v g)).entries.map fun e => ⟨v.id, some e.1, e.2⟩
  else []

theorem parts_of_accepts {g : Grouping} (grouped : g ≠ .totals) {f : Filter} {v : View} (passes : f.accepts v = true) :
    g.parts f v = (Breakdown.gather (contributions v g)).entries.map fun e => ⟨v.id, some e.1, e.2⟩ := by
  rw [parts, if_pos passes]
  exact grouped

theorem parts_of_refuses {f : Filter} {v : View} (refused : ¬ f.accepts v = true) (g : Grouping) : g.parts f v = [] :=
  if_neg refused

theorem parts_total_le (g : Grouping) (f : Filter) (v : View) (scale : Scale) (q : Quantity) :
    Part.total scale (g.parts f v) q ≤ Contribution.total scale (g.shares f v) q := by
  have bound := Breakdown.gather_total_le scale (contributions v g) q
  unfold parts shares
  split
  · cases g with
    | totals => exact Nat.le_refl _
    | _ => simpa [Part.total, SortedMap.values, Function.comp_def] using bound
  · exact Nat.le_refl _

/-- A part is one of its own request, counted once, and has a place. -/
structure Placed (g : Grouping) (id : Nat) (p : Part) : Prop where
  id : p.id = id
  single : p.contribution.Single
  accepted : ∀ key ∈ p.key, (Store.empty g).Accepts key

theorem Placed.self {g : Grouping} {id : Nat} {p : Part} (placed : g.Placed id p) : g.Placed p.id p :=
  ⟨rfl, placed.single, placed.accepted⟩

theorem parts_placed {g : Grouping} {f : Filter} {v : View} : ∀ p ∈ g.parts f v, g.Placed v.id p := by
  intro p member
  have gathered := Breakdown.gather_forall (P := fun key c => c.Single ∧ (Store.empty g).Accepts key)
    (contributions_forall g v) fun _ _ _ left right => ⟨left.1.merge right.1, left.2⟩
  unfold parts at member
  split at member
  · split at member
    · cases List.mem_singleton.mp member
      exact ⟨rfl, Contribution.ofRequest_single _, fun key none => nomatch none⟩
    · obtain ⟨e, found, rfl⟩ := List.mem_map.mp member
      have both := gathered e found
      exact ⟨rfl, both.1, fun key same => Option.some.inj same ▸ both.2⟩
  · cases member

/-- Where there are buckets every part goes to one. -/
theorem parts_keyed {g : Grouping} {f : Filter} {v : View} (grouped : g ≠ .totals) :
    ∀ p ∈ g.parts f v, p.key ≠ none := by
  intro p member
  unfold parts at member
  split at member
  · split at member
    · exact absurd rfl grouped
    · obtain ⟨e, _, rfl⟩ := List.mem_map.mp member
      exact Option.some_ne_none e.1
  · cases member

/-- A request puts no two parts in one place. -/
theorem parts_distinct (g : Grouping) (f : Filter) (v : View) :
    (g.parts f v).Pairwise fun p r => p.key ≠ r.key := by
  unfold parts
  split
  · split
    · exact List.pairwise_singleton _ _
    · refine List.pairwise_map.mpr ((Breakdown.gather _).sorted.imp fun less same => ?_)
      exact SortedMap.ne_of_compare_lt less (Option.some.inj same)
  · exact .nil

end Grouping

namespace Breakdown

def addPart (b : Breakdown) (p : Part) : Breakdown :=
  match p.key with
  | none => { b with totals := b.totals.add p.contribution.sums p.contribution.samples }
  | some key => b.addTo p.id key p.contribution

def removePart (b : Breakdown) (p : Part) : Breakdown :=
  match p.key with
  | none => { b with totals := lessTotals b.totals p.contribution.sums p.contribution.samples }
  | some key => b.removeFrom p.id key p.contribution

theorem add_eq_foldl (b : Breakdown) (v : View) : b.add v = (b.grouping.parts b.filter v).foldl addPart b := by
  obtain ⟨grouping, filter, scale, totals, store, size⟩ := b
  unfold add Grouping.parts
  split
  · cases grouping with
    | totals => rfl
    | _ =>
      dsimp only
      rw [List.foldl_map]
      rfl
  · rfl

theorem remove_eq_foldl (b : Breakdown) (v : View) :
    b.remove v = (b.grouping.parts b.filter v).foldl removePart b := by
  obtain ⟨grouping, filter, scale, totals, store, size⟩ := b
  unfold remove Grouping.parts
  split
  · cases grouping with
    | totals => rfl
    | _ =>
      dsimp only
      rw [List.foldl_map]
      rfl
  · rfl

end Breakdown

end Rollup
