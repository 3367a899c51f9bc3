import Rollup.Proofs.Rebuild

namespace Rollup

/-- What a bucket shows, together with the request that was added last. -/
def Bucket.shown (b : Bucket) : Summary × List String × Option Nat := (b.summary, b.values, b.lastAdded)

/-- Requests that are twins, one by one. -/
inductive View.Twins : List View → List View → Prop
  | nil : Twins [] []
  | cons {v w : View} {vs ws : List View} : v.Twin w → Twins vs ws → Twins (v :: vs) (w :: ws)

theorem View.Twins.refl (vs : List View) : Twins vs vs := by
  induction vs with
  | nil => exact .nil
  | cons v rest ih => exact .cons (.refl v) ih

theorem View.Twins.map_eq {vs ws : List View} (twins : Twins vs ws) {α : Type} {look : View → α}
    (alike : ∀ v w : View, v.Twin w → look w = look v) : ws.map look = vs.map look := by
  induction twins with
  | nil => rfl
  | cons twin _ ih => rw [List.map_cons, List.map_cons, alike _ _ twin, ih]

theorem View.Twins.parts_eq {vs ws : List View} (twins : Twins vs ws) (g : Grouping) (f : Filter) :
    ws.flatMap (g.parts f) = vs.flatMap (g.parts f) := by
  rw [List.flatMap_def, List.flatMap_def, twins.map_eq fun _ _ twin => twin.parts_eq g f]

namespace Breakdown

/-- Each bucket has the last of its parts as the last one added. -/
def Recent (b : Breakdown) (ps : List Part) : Prop :=
  ∀ key bucket, b.buckets.find? key = some bucket → bucket.lastAdded = ((Part.into ps key).getLast?).map Part.id

theorem empty_recent (g : Grouping) (f : Filter) (scale : Scale) (ps : List Part) : (empty g f scale).Recent ps := by
  intro key bucket found
  rw [buckets_empty] at found
  cases found

theorem Recent.addPart {b : Breakdown} {ps : List Part} {p : Part} (recent : b.Recent ps) (formed : b.Formed)
    (placed : b.grouping.Placed p.id p) : (b.addPart p).Recent (ps ++ [p]) := by
  intro key bucket found
  rw [Part.into_append]
  rcases addPart_find? formed placed found with ⟨other, old⟩ | ⟨same, last, _⟩
  · rw [Part.into_cons_of_ne other, Part.into_nil, List.append_nil]
    exact recent key bucket old
  · rw [Part.into_cons_of_eq same, Part.into_nil, List.getLast?_append]
    exact last

theorem Recent.removePart {b : Breakdown} {p : Part} {rest : List Part} (recent : b.Recent (p :: rest))
    (holds : b.Holds (p :: rest)) (fresh : b.RemovesFresh p) : (b.removePart p).Recent rest := by
  intro key bucket found
  have some_left : Part.into rest key ≠ [] := fun none => by
    rw [((holds.removePart fresh).missing key).mpr none] at found
    cases found
  obtain ⟨old, there, same, _⟩ := removePart_find? holds.formed (holds.placed p List.mem_cons_self) found
  rw [same, recent key old there]
  by_cases here : p.key = some key
  · obtain ⟨last, others, split⟩ := List.exists_cons_of_ne_nil some_left
    rw [Part.into_cons_of_eq here, split, List.getLast?_cons_cons]
  · rw [Part.into_cons_of_ne here]

/-- The parts that a breakdown finds in requests, one request after the other. -/
def partsOf (b : Breakdown) (views : List View) : List Part := views.flatMap (b.grouping.parts b.filter)

@[simp] theorem partsOf_nil (b : Breakdown) : b.partsOf [] = [] := rfl

@[simp] theorem partsOf_cons (b : Breakdown) (v : View) (views : List View) :
    b.partsOf (v :: views) = b.grouping.parts b.filter v ++ b.partsOf views := List.flatMap_cons

@[simp] theorem partsOf_append (b : Breakdown) (left right : List View) :
    b.partsOf (left ++ right) = b.partsOf left ++ b.partsOf right := List.flatMap_append

theorem Alike.partsOf_eq {b c : Breakdown} (alike : b.Alike c) (views : List View) : c.partsOf views = b.partsOf views := by
  rw [partsOf, partsOf, alike.grouping, alike.filter]

end Breakdown

/-- Requests in the order of their numbers, all of them below a number that
is not given out yet. -/
structure View.Numbered (views : List View) (next : Nat) : Prop where
  increase : views.Pairwise fun v w => v.id < w.id
  below : ∀ v ∈ views, v.id < next

theorem View.Numbered.tail {v : View} {rest : List View} {next : Nat} (numbered : View.Numbered (v :: rest) next) :
    View.Numbered rest next :=
  ⟨(List.pairwise_cons.mp numbered.increase).2, fun u member => numbered.below u (List.mem_cons_of_mem v member)⟩

namespace Breakdown

/-- A breakdown whose buckets know only requests from before `next`, and none
of those still there as removed. -/
structure Follows (b : Breakdown) (views : List View) (next : Nat) : Prop where
  formed : b.Formed
  marked : b.Marked (· < next) fun id => id < next ∧ ∀ v ∈ views, id < v.id

theorem empty_follows (g : Grouping) (f : Filter) (scale : Scale) (views : List View) (next : Nat) :
    (empty g f scale).Follows views next := ⟨empty_formed g f scale, empty_marked g f scale _ _⟩

theorem Follows.mono {b : Breakdown} {views : List View} {next later : Nat} (follows : b.Follows views next)
    (le : next ≤ later) : b.Follows views later where
  formed := follows.formed
  marked := follows.marked.mono (fun _ less => Nat.lt_of_lt_of_le less le)
    fun _ both => ⟨Nat.lt_of_lt_of_le both.1 le, both.2⟩

theorem Follows.twins {b : Breakdown} {vs ws : List View} {next : Nat} (follows : b.Follows vs next)
    (twins : View.Twins vs ws) : b.Follows ws next where
  formed := follows.formed
  marked := by
    have ids : ws.map View.id = vs.map View.id := twins.map_eq fun _ _ twin => twin.id_eq
    refine follows.marked.mono (fun _ less => less) fun id both => ⟨both.1, fun w member => ?_⟩
    obtain ⟨v, known, same⟩ := List.mem_map.mp (ids ▸ List.mem_map_of_mem member)
    rw [← same]
    exact both.2 v known

theorem Follows.add {b : Breakdown} {views : List View} {v : View} {next : Nat} (follows : b.Follows views next)
    (newer : next ≤ v.id) : (b.add v).Follows (views ++ [v]) (v.id + 1) where
  formed := add_formed follows.formed v
  marked := by
    refine (follows.marked.mono (fun id less => ?_) fun id both => ⟨?_, fun u member => ?_⟩).add follows.formed
      (Nat.lt_succ_self v.id)
    · omega
    · have less := both.1
      omega
    · rcases List.mem_append.mp member with old | new
      · exact both.2 u old
      · cases List.mem_singleton.mp new
        exact Nat.lt_of_lt_of_le both.1 newer

theorem Follows.remove {b : Breakdown} {v : View} {rest : List View} {next : Nat}
    (follows : b.Follows (v :: rest) next) (numbered : View.Numbered (v :: rest) next) :
    (b.remove v).Follows rest next where
  formed := remove_formed follows.formed v
  marked := by
    refine (follows.marked.mono (fun _ less => less) fun id both => ⟨both.1, fun u member => ?_⟩).remove follows.formed
      ⟨numbered.below v List.mem_cons_self, (List.pairwise_cons.mp numbered.increase).1⟩
    exact both.2 u (List.mem_cons_of_mem v member)

theorem Follows.addAll {b : Breakdown} {views arrived : List View} {next later : Nat} (follows : b.Follows views next)
    (increase : arrived.Pairwise fun v w => v.id < w.id) (newer : ∀ v ∈ arrived, next ≤ v.id)
    (le : next ≤ later) (below : ∀ v ∈ arrived, v.id < later) : (b.addAll arrived).Follows (views ++ arrived) later := by
  induction arrived generalizing b views next with
  | nil =>
    rw [List.append_nil]
    exact follows.mono le
  | cons v rest ih =>
    obtain ⟨above, increaseRest⟩ := List.pairwise_cons.mp increase
    have grown := ih (follows.add (newer v List.mem_cons_self)) increaseRest above (below v List.mem_cons_self)
      fun u member => below u (List.mem_cons_of_mem v member)
    rw [List.append_assoc] at grown
    exact grown

/-- What every fresh part keeps up as it goes in, newer requests keep up one
after the other. -/
theorem Follows.addAll_keeps {P : Breakdown → List Part → Prop}
    (step : ∀ (c : Breakdown) (p : Part) (ps : List Part), c.Formed → c.grouping.Placed p.id p → c.AddsFresh p →
      P c ps → P (c.addPart p) (ps ++ [p]))
    {b : Breakdown} {views arrived : List View} {next : Nat} (follows : b.Follows views next)
    (increase : arrived.Pairwise fun v w => v.id < w.id) (newer : ∀ v ∈ arrived, next ≤ v.id)
    (start : P b (b.partsOf views)) : P (b.addAll arrived) (b.partsOf (views ++ arrived)) := by
  induction arrived generalizing b views next with
  | nil =>
    rw [List.append_nil]
    exact start
  | cons v rest ih =>
    obtain ⟨above, increaseRest⟩ := List.pairwise_cons.mp increase
    have newest := newer v List.mem_cons_self
    have first : P (b.add v) ((b.add v).partsOf (views ++ [v])) := by
      have grown := add_keeps step follows.formed follows.marked (Nat.not_lt.mpr newest) start
      rw [(b.add_alike v).partsOf_eq]
      simpa using grown
    have kept := ih (follows.add newest) increaseRest above first
    rw [(b.add_alike v).partsOf_eq, List.append_assoc] at kept
    exact kept

theorem Follows.removeAll {b : Breakdown} {left rest : List View} {next : Nat}
    (follows : b.Follows (left ++ rest) next) (numbered : View.Numbered (left ++ rest) next) :
    (b.removeAll left).Follows rest next := by
  induction left generalizing b with
  | nil => exact follows
  | cons v others ih => exact ih (follows.remove numbered) numbered.tail

/-- What every fresh part keeps up as it goes, the oldest requests keep up one
after the other. -/
theorem Follows.removeAll_keeps {P : Breakdown → List Part → Prop}
    (step : ∀ (c : Breakdown) (p : Part) (ps : List Part), c.Formed → c.grouping.Placed p.id p → c.RemovesFresh p →
      P c (p :: ps) → P (c.removePart p) ps)
    {b : Breakdown} {left rest : List View} {next : Nat} (follows : b.Follows (left ++ rest) next)
    (numbered : View.Numbered (left ++ rest) next) (start : P b (b.partsOf (left ++ rest))) :
    P (b.removeAll left) (b.partsOf rest) := by
  induction left generalizing b with
  | nil => exact start
  | cons v others ih =>
    have alike := b.remove_alike v
    have present : ¬ (v.id < next ∧ ∀ u ∈ v :: others ++ rest, v.id < u.id) := fun both =>
      Nat.lt_irrefl _ (both.2 v List.mem_cons_self)
    have parts : b.partsOf (v :: others ++ rest) = b.grouping.parts b.filter v ++ b.partsOf (others ++ rest) :=
      b.partsOf_cons v (others ++ rest)
    rw [parts] at start
    have first := remove_keeps step follows.formed follows.marked present start
    have later := ih (follows.remove numbered) numbered.tail (alike.partsOf_eq _ ▸ first)
    rw [alike.partsOf_eq] at later
    exact later

theorem Alike.removeAll (b : Breakdown) (views : List View) : b.Alike (b.removeAll views) :=
  foldl_alike remove_alike b views

theorem Alike.addAll (b : Breakdown) (views : List View) : b.Alike (b.addAll views) := foldl_alike add_alike b views

/-- A breakdown that amounts to some requests, with the newest of them in each
bucket as the last one added. -/
structure Mirrors (b : Breakdown) (views : List View) (next : Nat) : Prop where
  follows : b.Follows views next
  holds : b.Holds (b.partsOf views)
  recent : b.Recent (b.partsOf views)

theorem empty_mirrors (g : Grouping) (f : Filter) (scale : Scale) (next : Nat) :
    (empty g f scale).Mirrors [] next :=
  ⟨empty_follows g f scale [] next, empty_holds g f scale, empty_recent g f scale []⟩

theorem Mirrors.removeAll {b : Breakdown} {left rest : List View} {next : Nat} (mirrors : b.Mirrors (left ++ rest) next)
    (numbered : View.Numbered (left ++ rest) next) : (b.removeAll left).Mirrors rest next := by
  have kept := mirrors.follows.removeAll_keeps (P := fun c ps => c.Holds ps ∧ c.Recent ps)
    (fun c p ps _ _ fresh both => ⟨both.1.removePart fresh, both.2.removePart both.1 fresh⟩) numbered
    ⟨mirrors.holds, mirrors.recent⟩
  rw [← (Alike.removeAll b left).partsOf_eq] at kept
  exact ⟨mirrors.follows.removeAll numbered, kept.1, kept.2⟩

theorem Mirrors.addAll {b : Breakdown} {views arrived : List View} {next later : Nat} (mirrors : b.Mirrors views next)
    (increase : arrived.Pairwise fun v w => v.id < w.id) (newer : ∀ v ∈ arrived, next ≤ v.id)
    (le : next ≤ later) (below : ∀ v ∈ arrived, v.id < later)
    (fits : Quantity.Fits (Part.total b.scale (b.partsOf (views ++ arrived)))) :
    (b.addAll arrived).Mirrors (views ++ arrived) later := by
  have alike := Alike.addAll b arrived
  have kept := mirrors.follows.addAll_keeps
    (P := fun c ps => Quantity.Fits (Part.total c.scale ps) → c.Holds ps ∧ c.Recent ps)
    (fun c p ps formed placed fresh held fitsMore => by
      rw [(c.addPart_alike p).scale] at fitsMore
      obtain ⟨holds, recent⟩ := held (fitsMore.mono fun q => by simp)
      exact ⟨holds.addPart placed fitsMore fresh, recent.addPart formed placed⟩)
    increase newer (fun _ => ⟨mirrors.holds, mirrors.recent⟩) (by rw [alike.scale]; exact fits)
  rw [← alike.partsOf_eq] at kept
  exact ⟨mirrors.follows.addAll increase newer le below, kept.1, kept.2⟩

theorem Mirrors.twins {b : Breakdown} {vs ws : List View} {next : Nat} (mirrors : b.Mirrors vs next)
    (twins : View.Twins vs ws) : b.Mirrors ws next := by
  have parts : b.partsOf ws = b.partsOf vs := twins.parts_eq b.grouping b.filter
  refine ⟨mirrors.follows.twins twins, ?_, ?_⟩
  · rw [parts]
    exact mirrors.holds
  · rw [parts]
    exact mirrors.recent

theorem Mirrors.find?_shown {b c : Breakdown} {views : List View} {next later : Nat} (left : b.Mirrors views next)
    (right : c.Mirrors views later) (alike : b.Alike c) (key : BucketKey) :
    (b.buckets.find? key).map Bucket.shown = (c.buckets.find? key).map Bucket.shown := by
  have parts : (b.partsOf views).Perm (c.partsOf views) := by rw [alike.partsOf_eq]
  have same := left.holds.find?_content right.holds parts alike key
  cases atLeft : b.buckets.find? key with
  | none =>
    cases atRight : c.buckets.find? key with
    | none => rfl
    | some other => simp [atLeft, atRight] at same
  | some bucket =>
    cases atRight : c.buckets.find? key with
    | none => simp [atLeft, atRight] at same
    | some other =>
      rw [atLeft, atRight] at same
      have content := Option.some.inj same
      have last : bucket.lastAdded = other.lastAdded := by
        rw [left.recent key bucket atLeft, right.recent key other atRight, alike.partsOf_eq]
      have summary : bucket.summary = other.summary := congrArg Prod.fst content
      have values : bucket.values = other.values := congrArg Prod.snd content
      exact congrArg some (Prod.ext summary (Prod.ext values last))

/-- Breakdowns that mirror the same requests differ at most in which requests
were the last ones removed. -/
theorem Mirrors.agree {b c : Breakdown} {views : List View} {next later : Nat} (left : b.Mirrors views next)
    (right : c.Mirrors views later) (alike : b.Alike c) :
    b.totals = c.totals ∧ b.entries.map (fun e => (e.1, e.2.shown)) = c.entries.map fun e => (e.1, e.2.shown) := by
  have parts : (b.partsOf views).Perm (c.partsOf views) := by rw [alike.partsOf_eq]
  exact ⟨(left.holds.agree right.holds parts alike).1, SortedMap.map_entries_congr (left.find?_shown right alike)⟩

end Breakdown

end Rollup
