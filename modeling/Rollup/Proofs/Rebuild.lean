import Rollup.Proofs.Holding
import Rollup.Proofs.Twin

namespace Rollup

/-- What a bucket shows, apart from which requests came and went last. -/
def Bucket.content (b : Bucket) : Summary × List String := (b.summary, b.values)

namespace Breakdown

/-- Every key with what its bucket shows. -/
def contents (b : Breakdown) : List (BucketKey × Summary × List String) := b.entries.map fun e => (e.1, e.2.content)

/-- Every part of a request comes out as it went in. -/
def RemovesCleanly (b : Breakdown) (v : View) : Prop := b.TakesBackAll (b.grouping.parts b.filter v)

/-- Breakdowns that amount to the same parts show the same in the same places. -/
theorem Holds.find?_content {b c : Breakdown} {ps qs : List Part} (left : b.Holds ps) (right : c.Holds qs)
    (perm : ps.Perm qs) (alike : b.Alike c) (key : BucketKey) :
    (b.buckets.find? key).map Bucket.content = (c.buckets.find? key).map Bucket.content := by
  have same := (left.perm perm).missing key
  have amounts (q : Quantity) : (b.bucketAt key).summary.amount q = (c.bucketAt key).summary.amount q := by
    rw [(left.perm perm).buckets, right.buckets, alike.scale]
  have summaries : (b.bucketAt key).summary = (c.bucketAt key).summary :=
    Summary.ext_amount (by rw [left.formed.bucketAt_scale, right.formed.bucketAt_scale, alike.scale]) amounts
  have values : (b.bucketAt key).values = (c.bucketAt key).values := by
    rw [left.formed.bucketAt_values, right.formed.bucketAt_values]
  unfold bucketAt at summaries values
  cases atLeft : b.buckets.find? key with
  | none =>
    rw [(right.missing key).mpr (same.mp atLeft)]
  | some bucket =>
    cases atRight : c.buckets.find? key with
    | none =>
      rw [same.mpr ((right.missing key).mp atRight)] at atLeft
      cases atLeft
    | some other =>
      rw [atLeft, atRight] at summaries values
      exact congrArg some (Prod.ext summaries values)

theorem Holds.agree {b c : Breakdown} {ps qs : List Part} (left : b.Holds ps) (right : c.Holds qs)
    (perm : ps.Perm qs) (alike : b.Alike c) : b.totals = c.totals ∧ b.contents = c.contents := by
  refine ⟨Summary.ext_amount ?_ fun q => ?_, SortedMap.map_entries_congr (left.find?_content right perm alike)⟩
  · rw [left.formed.totalsScale, right.formed.totalsScale, alike.scale]
  · rw [left.totals, right.totals, alike.scale, Part.total_perm perm]

theorem Holds.add {b : Breakdown} {ps : List Part} {v : View} {added removed : Nat → Prop} (holds : b.Holds ps)
    (marked : b.Marked added removed) (new : ¬ added v.id)
    (fits : Quantity.Fits (Part.total b.scale (ps ++ b.grouping.parts b.filter v))) :
    (b.add v).Holds (ps ++ b.grouping.parts b.filter v) := by
  refine add_keeps (P := fun c qs => Quantity.Fits (Part.total c.scale qs) → c.Holds qs)
    (fun c p qs _ placed fresh held fitsMore => ?_) holds.formed marked new (fun _ => holds) ?_
  · rw [(c.addPart_alike p).scale] at fitsMore
    exact (held (fitsMore.mono fun q => by simp)).addPart placed fitsMore fresh
  · rw [(b.add_alike v).scale]
    exact fits

theorem Holds.remove {b : Breakdown} {rest : List Part} {v : View} {added removed : Nat → Prop}
    (holds : b.Holds (b.grouping.parts b.filter v ++ rest)) (marked : b.Marked added removed)
    (present : ¬ removed v.id) : b.RemovesCleanly v ∧ (b.remove v).Holds rest := by
  rw [remove_eq_foldl]
  refine holds.removeParts (Grouping.parts_distinct _ _ v) fun p member key _ bucket found last => present ?_
  rw [(Grouping.parts_placed p member).id] at last
  exact marked.lastRemoved key bucket found v.id last

theorem Marked.add {b : Breakdown} {v : View} {added removed : Nat → Prop} (marked : b.Marked added removed)
    (formed : b.Formed) (more : added v.id) : (b.add v).Marked added removed := by
  rw [add_eq_foldl]
  refine (foldl_parts addPart_alike (P := fun c => c.Formed ∧ c.Marked added removed) ?_ ⟨formed, marked⟩ rfl
    Grouping.parts_placed).2
  intro c p both same placed
  rw [← same] at placed
  exact ⟨addPart_formed both.1 rfl placed, both.2.addPart both.1 placed.self (placed.id ▸ more)⟩

theorem Marked.remove {b : Breakdown} {v : View} {added removed : Nat → Prop} (marked : b.Marked added removed)
    (formed : b.Formed) (gone : removed v.id) : (b.remove v).Marked added removed := by
  rw [remove_eq_foldl]
  refine (foldl_parts removePart_alike (P := fun c => c.Formed ∧ c.Marked added removed) ?_ ⟨formed, marked⟩ rfl
    Grouping.parts_placed).2
  intro c p both same placed
  rw [← same] at placed
  exact ⟨removePart_formed both.1 rfl placed, both.2.removePart both.1 placed.self (placed.id ▸ gone)⟩

end Breakdown

namespace Move

/-- The requests that were added and not removed, in the order they came. -/
def remaining (moves : List Move) : List View := (added moves).filter fun v => v.id ∉ (removed moves).map View.id

/-- Each request is added at most once, and removed at most once, after it was
added. -/
structure Orderly (moves : List Move) : Prop where
  addedOnce : ((added moves).map View.id).Nodup
  removedOnce : ((removed moves).map View.id).Nodup
  addedBefore : ∀ before w after, moves = before ++ .remove w :: after → ∃ v ∈ added before, v.Twin w

theorem Orderly.left {before after : List Move} (orderly : Orderly (before ++ after)) : Orderly before where
  addedOnce := by
    have once := orderly.addedOnce
    rw [added_append, List.map_append] at once
    exact (List.nodup_append.mp once).1
  removedOnce := by
    have once := orderly.removedOnce
    rw [removed_append, List.map_append] at once
    exact (List.nodup_append.mp once).1
  addedBefore first w later split := orderly.addedBefore first w (later ++ after) (by rw [split]; simp)

theorem Orderly.removed_added {moves : List Move} (orderly : Orderly moves) {id : Nat}
    (gone : id ∈ (removed moves).map View.id) : id ∈ (added moves).map View.id := by
  obtain ⟨w, member, rfl⟩ := List.mem_map.mp gone
  obtain ⟨before, after, split⟩ := mem_removed member
  obtain ⟨v, there, twin⟩ := orderly.addedBefore before w after split
  rw [split, added_append, twin.id_eq]
  exact List.mem_map_of_mem (List.mem_append_left _ there)

theorem Orderly.add_new {before : List Move} {v : View} (orderly : Orderly (before ++ [.add v])) :
    v.id ∉ (added before).map View.id := by
  intro member
  have once := orderly.addedOnce
  rw [added_append, List.map_append] at once
  exact (List.nodup_append.mp once).2.2 v.id member v.id (by simp) rfl

theorem Orderly.remaining_add {before : List Move} {v : View} (orderly : Orderly (before ++ [.add v])) :
    remaining (before ++ [.add v]) = remaining before ++ [v] := by
  have present (w : View) (gone : w ∈ removed before) : w.id ≠ v.id := fun same =>
    orderly.add_new (orderly.left.removed_added (same ▸ List.mem_map_of_mem gone))
  unfold remaining
  rw [added_append, removed_append, List.filter_append]
  simpa using present

theorem Orderly.remove_present {before : List Move} {w : View} (orderly : Orderly (before ++ [.remove w])) :
    w.id ∉ (removed before).map View.id := by
  intro member
  have once := orderly.removedOnce
  rw [removed_append, List.map_append] at once
  exact (List.nodup_append.mp once).2.2 w.id member w.id (by simp) rfl

theorem perm_cons_others {views : List View} {u : View} (once : (views.map View.id).Nodup) (member : u ∈ views) :
    views.Perm (u :: views.filter fun v => v.id ≠ u.id) := by
  induction views with
  | nil => cases member
  | cons v rest ih =>
    obtain ⟨apart, onceRest⟩ := List.nodup_cons.mp once
    rcases List.mem_cons.mp member with rfl | deeper
    · have all : rest.filter (fun v => v.id ≠ u.id) = rest := by
        refine List.filter_eq_self.mpr fun v known => decide_eq_true fun same => apart ?_
        rw [← same]
        exact List.mem_map_of_mem known
      rw [List.filter_cons_of_neg (by simp), all]
    · have other : v.id ≠ u.id := fun same => apart (same ▸ List.mem_map_of_mem deeper)
      rw [List.filter_cons_of_pos (by simpa using other)]
      exact ((ih onceRest deeper).cons v).trans (List.Perm.swap u v _)

/-- The request that goes was there, and all others stay. -/
theorem Orderly.remaining_remove {before : List Move} {w : View} (orderly : Orderly (before ++ [.remove w])) :
    ∃ v, v.Twin w ∧ (remaining before).Perm (v :: remaining (before ++ [.remove w])) := by
  obtain ⟨v, there, twin⟩ := orderly.addedBefore before w [] rfl
  have present : v ∈ remaining before :=
    List.mem_filter.mpr ⟨there, decide_eq_true (twin.id_eq ▸ orderly.remove_present)⟩
  have once : ((remaining before).map View.id).Nodup :=
    orderly.left.addedOnce.sublist (List.filter_sublist.map _)
  have others : remaining (before ++ [.remove w]) = (remaining before).filter fun u => u.id ≠ v.id := by
    unfold remaining
    rw [added_append, removed_append, List.filter_filter]
    simp [twin.id_eq, and_comm]
  exact ⟨v, twin, others ▸ perm_cons_others once present⟩

end Move

namespace Breakdown

section Runs

variable {g : Grouping} {f : Filter} {scale : Scale}

/-- After some moves a breakdown amounts to the requests that remain, and its
buckets only know requests that were added and removed. -/
structure Tracks (g : Grouping) (f : Filter) (scale : Scale) (b : Breakdown) (moves : List Move) : Prop where
  alike : (empty g f scale).Alike b
  holds : b.Holds ((Move.remaining moves).flatMap (g.parts f))
  marked : b.Marked (· ∈ (Move.added moves).map View.id) (· ∈ (Move.removed moves).map View.id)

theorem Marked.later {b : Breakdown} {before : List Move} (after : List Move)
    (marked : b.Marked (· ∈ (Move.added before).map View.id) (· ∈ (Move.removed before).map View.id)) :
    b.Marked (· ∈ (Move.added (before ++ after)).map View.id) (· ∈ (Move.removed (before ++ after)).map View.id) := by
  refine marked.mono (fun id member => ?_) fun id member => ?_
  · rw [Move.added_append, List.map_append]
    exact List.mem_append_left _ member
  · rw [Move.removed_append, List.map_append]
    exact List.mem_append_left _ member

theorem Tracks.add {b : Breakdown} {before : List Move} {v : View} (tracks : Tracks g f scale b before)
    (orderly : Move.Orderly (before ++ [.add v]))
    (fits : Quantity.Fits (g.exact f scale (Move.added (before ++ [.add v])))) :
    Tracks g f scale (b.add v) (before ++ [.add v]) := by
  obtain ⟨alike, holds, marked⟩ := tracks
  have parts : b.grouping.parts b.filter v = g.parts f v := by rw [alike.grouping, alike.filter]; rfl
  have remaining : (Move.remaining (before ++ [.add v])).flatMap (g.parts f) =
      (Move.remaining before).flatMap (g.parts f) ++ g.parts f v := by
    rw [orderly.remaining_add, List.flatMap_append, List.flatMap_singleton]
  have fitsParts : Quantity.Fits (Part.total scale ((Move.remaining (before ++ [.add v])).flatMap (g.parts f))) :=
    fits.mono fun q => Nat.le_trans (g.parts_exact_le f scale _ q)
      (Grouping.exact_sublist List.filter_sublist g f scale q)
  refine ⟨alike.trans (b.add_alike v), ?_, ?_⟩
  · have scaleEq : b.scale = scale := alike.scale
    have grown := holds.add marked orderly.add_new (v := v) (by rw [parts, scaleEq, ← remaining]; exact fitsParts)
    rw [parts, ← remaining] at grown
    exact grown
  · exact (marked.later [.add v]).add holds.formed (by simp)

theorem Tracks.remove {b : Breakdown} {before : List Move} {w : View} (tracks : Tracks g f scale b before)
    (orderly : Move.Orderly (before ++ [.remove w])) :
    b.RemovesCleanly w ∧ Tracks g f scale (b.remove w) (before ++ [.remove w]) := by
  obtain ⟨alike, holds, marked⟩ := tracks
  -- The request may look different when it goes, but its parts are the ones that came.
  obtain ⟨v, twin, perm⟩ := orderly.remaining_remove
  have parts : b.grouping.parts b.filter w = g.parts f v := by
    rw [alike.grouping, alike.filter]
    exact twin.parts_eq g f
  have split := holds.perm (perm.flatMap_right (g.parts f))
  rw [List.flatMap_cons, ← parts] at split
  obtain ⟨clean, shrunk⟩ := split.remove marked orderly.remove_present
  exact ⟨clean, alike.trans (b.remove_alike w), shrunk, (marked.later [.remove w]).remove holds.formed (by simp)⟩

theorem Tracks.play {before rest : List Move}
    (tracks : Tracks g f scale ((empty g f scale).play before) before) (orderly : Move.Orderly (before ++ rest))
    (fits : Quantity.Fits (g.exact f scale (Move.added (before ++ rest)))) :
    Tracks g f scale ((empty g f scale).play (before ++ rest)) (before ++ rest) := by
  induction rest generalizing before with
  | nil =>
    rw [List.append_nil]
    exact tracks
  | cons m rest ih =>
    have together : before ++ m :: rest = before ++ [m] ++ rest := by simp
    rw [together] at orderly fits ⊢
    refine ih ?_ orderly fits
    have played : (empty g f scale).play (before ++ [m]) = ((empty g f scale).play before).move m := by
      rw [Breakdown.play, List.foldl_append]
      rfl
    rw [played]
    cases m with
    | add v =>
      refine tracks.add orderly.left (fits.mono fun q => ?_)
      rw [Move.added_append _ rest, Grouping.exact_append]
      exact Nat.le_add_right _ _
    | remove w => exact (tracks.remove orderly.left).2

theorem play_tracks {moves : List Move} (orderly : Move.Orderly moves)
    (fits : Quantity.Fits (g.exact f scale (Move.added moves))) :
    Tracks g f scale ((empty g f scale).play moves) moves := by
  have start : Tracks g f scale ((empty g f scale).play []) [] :=
    ⟨.refl _, empty_holds g f scale, empty_marked g f scale _ _⟩
  have whole : Move.Orderly ([] ++ moves) := orderly
  exact start.play whole fits

/-- A fresh breakdown that takes different requests in amounts to them. -/
theorem addAll_holds {views : List View} (once : (views.map View.id).Nodup)
    (fits : Quantity.Fits (g.exact f scale views)) :
    ((empty g f scale).addAll views).Holds (views.flatMap (g.parts f)) := by
  have added : Move.added (views.map .add) = views := by
    unfold Move.added
    rw [List.filterMap_map]
    exact List.filterMap_some
  have removed : Move.removed (views.map .add) = [] := by
    unfold Move.removed
    rw [List.filterMap_map]
    exact List.filterMap_eq_nil_iff.mpr fun v _ => rfl
  have orderly : Move.Orderly (views.map .add) := by
    refine ⟨by rw [added]; exact once, by rw [removed]; exact .nil, fun before w after split => ?_⟩
    have member : .remove w ∈ views.map Move.add := by rw [split]; simp
    obtain ⟨v, _, same⟩ := List.mem_map.mp member
    cases same
  have played : (empty g f scale).play (views.map .add) = (empty g f scale).addAll views := by
    unfold play addAll
    rw [List.foldl_map]
    rfl
  have remaining : Move.remaining (views.map .add) = views := by
    rw [Move.remaining, added, removed]
    exact List.filter_eq_self.mpr fun v _ => rfl
  have tracks : Tracks g f scale ((empty g f scale).play (views.map .add)) (views.map .add) :=
    play_tracks orderly (added.symm ▸ fits)
  have holds := tracks.holds
  rw [played, remaining] at holds
  exact holds

end Runs

/-- Requests come and go one at a time, in any order, and the breakdown is
always the one that a fresh start makes of the requests that remain, taken in
any order. Nothing that goes is missing, is short of anything or leaves
anything behind. -/
theorem play_eq_rebuild {g : Grouping} {f : Filter} {scale : Scale} {moves : List Move}
    (orderly : Move.Orderly moves) (fits : Quantity.Fits (g.exact f scale (Move.added moves))) :
    (∀ rest, rest.Perm (Move.remaining moves) →
        ((empty g f scale).play moves).totals = ((empty g f scale).addAll rest).totals ∧
        ((empty g f scale).play moves).contents = ((empty g f scale).addAll rest).contents) ∧
      ∀ before v after, moves = before ++ .remove v :: after →
        ((empty g f scale).play before).RemovesCleanly v := by
  constructor
  · intro rest perm
    have tracks := play_tracks orderly fits
    have once : (rest.map View.id).Nodup :=
      (orderly.addedOnce.sublist (List.filter_sublist.map _)).perm (perm.map _).symm
    have fitsRest : Quantity.Fits (g.exact f scale rest) := fits.mono fun q =>
      Nat.le_trans (Nat.le_of_eq (Grouping.exact_perm perm g f scale q))
        (Grouping.exact_sublist List.filter_sublist g f scale q)
    have alike : (empty g f scale).Alike ((empty g f scale).addAll rest) := foldl_alike add_alike _ rest
    exact tracks.holds.agree (addAll_holds once fitsRest) (perm.symm.flatMap_right _) (tracks.alike.symm.trans alike)
  · intro before v after split
    have together : moves = before ++ [.remove v] ++ after := by rw [split]; simp
    rw [together] at orderly fits
    have fitsBefore : Quantity.Fits (g.exact f scale (Move.added before)) := fits.mono fun q => by
      simp only [Move.added_append, Grouping.exact_append]
      omega
    exact ((play_tracks orderly.left.left fitsBefore).remove orderly.left).1

/-- The newer of two requests goes first. -/
theorem play_eq_rebuild_newest_first :
    let older := View.plain 1 (.ofSecs 3)
    let newer := View.plain 2 (.ofSecs 4)
    let b := (empty (.byAttributes [.script]) .any .standard).play [.add older, .add newer, .remove newer]
    let c := (empty (.byAttributes [.script]) .any .standard).addAll [older]
    b.totals = c.totals ∧ b.contents = c.contents ∧
      ((empty (.byAttributes [.script]) .any .standard).play [.add older, .add newer]).RemovesCleanly newer := by
  intro older newer b c
  have orderly : Move.Orderly [.add older, .add newer, .remove newer] := by
    refine ⟨by decide, by decide, fun before w after split => ?_⟩
    obtain ⟨_, same⟩ | ⟨_, rfl, second⟩ := List.cons_eq_append_iff.mp split
    · cases same
    obtain ⟨_, same⟩ | ⟨_, rfl, third⟩ := List.cons_eq_append_iff.mp second
    · cases same
    obtain ⟨rfl, same⟩ | ⟨_, rfl, fourth⟩ := List.cons_eq_append_iff.mp third
    · cases same
      exact ⟨newer, by simp, .refl newer⟩
    · simp at fourth
  have fits : Quantity.Fits (Grouping.exact (.byAttributes [.script]) .any .standard [older, newer]) := by
    intro f cap stops
    cases f <;> cases stops <;> decide
  obtain ⟨same, clean⟩ := play_eq_rebuild orderly fits
  exact ⟨(same [older] (.refl _)).1, (same [older] (.refl _)).2, clean [.add older, .add newer] newer [] rfl⟩

end Breakdown

end Rollup
