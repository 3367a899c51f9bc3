import Rollup.Monitor
import Rollup.Proofs.Reading

namespace Rollup

namespace Window

/-- Timestamps never go backwards, and no more requests are kept than fit. -/
structure Steady (w : Window) : Prop where
  sorted : w.requests.Pairwise fun r s => r.timestamp ≤ s.timestamp
  newest : ∀ r ∈ w.requests, r.timestamp ≤ w.lastTimestamp
  size_le : w.size ≤ w.capacity

theorem empty_steady (capacity growStep shrinkFactor mostWords : Nat) :
    (empty capacity growStep shrinkFactor mostWords).Steady :=
  ⟨.nil, fun _ member => (nomatch member), Nat.zero_le _⟩

/-- The time of a request that comes at `now`. -/
def moment (w : Window) (now : Instant) : Instant := max (max now w.lastTimestamp) firstMoment

/-- Keeps submissions one after the other, whether they fit or not. -/
def keepAll (w : Window) (now : Instant) (batch : List Submission) : Window :=
  batch.foldl (fun w s => w.keep s now) w

variable {w : Window}

theorem lastTimestamp_le_moment (w : Window) (now : Instant) : w.lastTimestamp ≤ w.moment now := by
  simp only [Instant.le_iff, moment, Instant.nanos_max]
  omega

theorem le_moment (w : Window) (now : Instant) : now ≤ w.moment now := by
  simp only [Instant.le_iff, moment, Instant.nanos_max]
  omega

theorem dropOldest_moment (w : Window) (n : Nat) (now : Instant) : (w.dropOldest n).moment now = w.moment now := by
  rw [moment, dropOldest_lastTimestamp]
  rfl

theorem moment_keep (w : Window) (s : Submission) (now : Instant) : (w.keep s now).moment now = w.moment now := by
  have last : (w.keep s now).lastTimestamp = w.moment now := rfl
  rw [moment, last]
  ext
  simp only [moment, Instant.nanos_max]
  omega

theorem size_keep (w : Window) (s : Submission) (now : Instant) : (w.keep s now).size = w.size + 1 := by
  rw [size, keep_requests, List.length_append]
  rfl

theorem size_dropOldest (w : Window) (n : Nat) : (w.dropOldest n).size = w.size - n := by
  rw [size, dropOldest_requests, List.length_drop]
  rfl

theorem Steady.keep (steady : w.Steady) (s : Submission) (now : Instant) (room : w.size < w.capacity) :
    (w.keep s now).Steady where
  sorted := by
    rw [keep_requests]
    refine List.pairwise_append.mpr ⟨steady.sorted, List.pairwise_singleton _ _, fun r old new isNew => ?_⟩
    cases List.mem_singleton.mp isNew
    exact Int.le_trans (steady.newest r old) (w.lastTimestamp_le_moment now)
  newest r member := by
    rcases List.mem_append.mp (w.keep_requests s now ▸ member) with old | isNew
    · exact Int.le_trans (steady.newest r old) (w.lastTimestamp_le_moment now)
    · cases List.mem_singleton.mp isNew
      exact Int.le_refl _
  size_le := by
    have capacity : (w.keep s now).capacity = w.capacity := rfl
    rw [size_keep, capacity]
    exact room

theorem Steady.dropOldest (steady : w.Steady) (n : Nat) : (w.dropOldest n).Steady where
  sorted := by
    rw [dropOldest_requests]
    exact steady.sorted.sublist (List.drop_sublist n _)
  newest r member := by
    rw [dropOldest_requests] at member
    rw [dropOldest_lastTimestamp]
    exact steady.newest r (List.mem_of_mem_drop member)
  size_le := by
    have before := steady.size_le
    rw [size_dropOldest, dropOldest_capacity]
    omega

theorem Steady.keepAll (steady : w.Steady) (now : Instant) {batch : List Submission}
    (room : w.size + batch.length ≤ w.capacity) : (w.keepAll now batch).Steady := by
  induction batch generalizing w with
  | nil => exact steady
  | cons s rest ih =>
    rw [List.length_cons] at room
    refine ih (steady.keep s now (by omega)) ?_
    have capacity : (w.keep s now).capacity = w.capacity := rfl
    rw [size_keep, capacity]
    omega

/-- What is older than a moment stands in front, so letting that many go
leaves just what is not older. -/
theorem Steady.drop_countOlder (steady : w.Steady) (cutoff : Instant) :
    w.requests.drop (w.countOlder cutoff) = w.requests.filter (cutoff ≤ ·.timestamp) := by
  have sorted := steady.sorted
  unfold countOlder
  generalize w.requests = records at sorted ⊢
  induction records with
  | nil => rfl
  | cons r rest ih =>
    obtain ⟨later, tail⟩ := List.pairwise_cons.mp sorted
    by_cases older : r.timestamp < cutoff
    · have gone : ¬cutoff ≤ r.timestamp := Int.not_le.mpr older
      rw [List.takeWhile_cons_of_pos (by simpa using older), List.filter_cons_of_neg (by simpa using gone)]
      exact ih tail
    · -- Nothing from here on is older.
      have stays : ∀ s ∈ r :: rest, decide (cutoff ≤ s.timestamp) = true := by
        have front : cutoff ≤ r.timestamp := Int.not_lt.mp older
        intro s member
        rcases List.mem_cons.mp member with rfl | deeper
        · exact decide_eq_true front
        · exact decide_eq_true (Int.le_trans front (later s deeper))
      rw [List.takeWhile_cons_of_neg (by simpa using older), List.filter_eq_self.mpr stays]
      rfl

theorem append_of_room {s : Submission} (sound : s.isSound) (now : Instant) (room : w.size < w.capacity) :
    w.append s now = .ok (w.keep s now, w.nextId) := by
  have notFull : ¬w.isFull := by
    rw [isFull, decide_eq_true_eq]
    omega
  unfold Submission.isSound at sound
  unfold append
  split at sound
  · rename_i checked
    rw [checked]
    exact if_neg notFull
  · cases sound

/-- Sound submissions are all kept while there is room. -/
theorem appendAll_of_room {now : Instant} {batch : List Submission} (sound : ∀ s ∈ batch, s.isSound)
    (room : w.size + batch.length ≤ w.capacity) : Monitor.appendAll w now batch = (w.keepAll now batch, 0) := by
  induction batch generalizing w with
  | nil => rfl
  | cons s rest ih =>
    rw [List.length_cons] at room
    have capacity : (w.keep s now).capacity = w.capacity := rfl
    have later := ih (w := w.keep s now) (fun t member => sound t (List.mem_cons_of_mem s member)) (by
      rw [size_keep, capacity]
      omega)
    unfold Monitor.appendAll
    rw [append_of_room (sound s List.mem_cons_self) now (by omega)]
    exact later

section KeepAll

variable (now : Instant) (batch : List Submission)

theorem keepAll_capacity (w : Window) : (w.keepAll now batch).capacity = w.capacity := by
  induction batch generalizing w with
  | nil => rfl
  | cons s rest ih => exact ih (w.keep s now)

theorem keepAll_nextId (w : Window) : (w.keepAll now batch).nextId = w.nextId + batch.length := by
  induction batch generalizing w with
  | nil => rfl
  | cons s rest ih =>
    have next : (w.keep s now).nextId = w.nextId + 1 := rfl
    have later := ih (w.keep s now)
    rw [next] at later
    rw [List.length_cons, Nat.add_comm rest.length, ← Nat.add_assoc]
    exact later

theorem keepAll_moment (w : Window) : (w.keepAll now batch).moment now = w.moment now := by
  induction batch generalizing w with
  | nil => rfl
  | cons s rest ih => exact (ih (w.keep s now)).trans (w.moment_keep s now)

theorem keepAll_lastTimestamp (w : Window) (some : batch ≠ []) :
    (w.keepAll now batch).lastTimestamp = w.moment now := by
  induction batch generalizing w with
  | nil => exact absurd rfl some
  | cons s rest ih =>
    cases rest with
    | nil => rfl
    | cons t others => exact (ih (w.keep s now) (List.cons_ne_nil _ _)).trans (w.moment_keep s now)

/-- New requests are numbered on, and all have the same time. -/
theorem keepAll_keys (w : Window) : (w.keepAll now batch).requests.map (fun r => (r.id, r.timestamp)) =
    w.requests.map (fun r => (r.id, r.timestamp)) ++
      (List.range' w.nextId batch.length).map fun id => (id, w.moment now) := by
  induction batch generalizing w with
  | nil => exact (List.append_nil _).symm
  | cons s rest ih =>
    have later := ih (w.keep s now)
    have next : (w.keep s now).nextId = w.nextId + 1 := rfl
    rw [keep_requests, List.map_append, moment_keep, next, List.append_assoc] at later
    exact later

/-- Time goes on, and only with a request that is kept. -/
theorem keepAll_advances (w : Window) : w.lastTimestamp ≤ (w.keepAll now batch).lastTimestamp ∧
    ((w.keepAll now batch).lastTimestamp = w.lastTimestamp ∨
      ∃ r ∈ (w.keepAll now batch).requests, r.timestamp = (w.keepAll now batch).lastTimestamp) := by
  cases batch with
  | nil => exact ⟨Int.le_refl _, Or.inl rfl⟩
  | cons s rest =>
    have last := w.keepAll_lastTimestamp now (s :: rest) (List.cons_ne_nil s rest)
    have first : (w.nextId, w.moment now) ∈
        (w.keepAll now (s :: rest)).requests.map fun r => (r.id, r.timestamp) := by
      rw [keepAll_keys]
      exact List.mem_append_right _ (List.mem_map.mpr ⟨w.nextId, List.mem_cons_self, rfl⟩)
    obtain ⟨r, kept, key⟩ := List.mem_map.mp first
    rw [last]
    exact ⟨w.lastTimestamp_le_moment now, Or.inr ⟨r, kept, congrArg Prod.snd key⟩⟩

theorem size_keepAll (w : Window) : (w.keepAll now batch).size = w.size + batch.length := by
  have keys := congrArg List.length (w.keepAll_keys now batch)
  simp only [List.length_map, List.length_append, List.length_range'] at keys
  exact keys

/-- Requests that were there before stay, and the new ones tell what was sent. -/
theorem Sound.keepAll_views (sound : w.Sound) :
    (w.keepAll now batch).Sound ∧ w.lexicon.Extends (w.keepAll now batch).lexicon ∧
      ∃ new, (w.keepAll now batch).views = w.views.map (·.relearn (w.keepAll now batch).lexicon) ++ new ∧
        List.Forall₂ View.Tells new batch := by
  induction batch generalizing w with
  | nil => exact ⟨sound, .refl _, [], by rw [List.append_nil]; exact (relearn_views w).symm, .nil⟩
  | cons s rest ih =>
    obtain ⟨later, extended, new, views, tells⟩ := ih (sound.keep_sound s now)
    have first := w.keep_extends s now
    rw [sound.keep_views, List.map_append, List.map_map, List.append_assoc] at views
    exact ⟨later, first.trans extended, _, views, .cons ((w.keep_tells s now).relearn extended) tells⟩

theorem Sound.keepAll_tells (sound : w.Sound) :
    ∃ new, (w.keepAll now batch).views = w.views.map (·.relearn (w.keepAll now batch).lexicon) ++ new ∧
      List.Forall₂ (fun v s => v.lexicon = (w.keepAll now batch).lexicon ∧ v.Tells s) new batch := by
  obtain ⟨_, _, new, views, tells⟩ := sound.keepAll_views now batch
  refine ⟨new, views, (List.forall₂_and_left _ _).mpr ⟨fun v member => view_lexicon ?_, tells⟩⟩
  rw [views]
  exact List.mem_append_right _ member

/-- Before the new ones, all requests read as they did. -/
theorem Sound.keepAll_readings (sound : w.Sound) : (w.keepAll now batch).views.map View.reading =
    w.views.map View.reading ++ batch.map (·.readingIn (w.keepAll now batch).lexicon) := by
  obtain ⟨new, views, tells⟩ := sound.keepAll_tells now batch
  have extended := (sound.keepAll_views now batch).2.1
  have arrived : new.map View.reading = batch.map (·.readingIn (w.keepAll now batch).lexicon) := by
    rw [← List.forall₂_eq_eq_eq, List.forall₂_map_left_iff, List.forall₂_map_right_iff]
    exact tells.imp fun v s ⟨words, told⟩ => words ▸ told.reading_eq
  have stayed : (w.views.map (·.relearn (w.keepAll now batch).lexicon)).map View.reading = w.views.map View.reading := by
    rw [List.map_map]
    exact List.map_congr_left fun v member => (sound.relearn_twin extended member).reading_eq
  rw [views, List.map_append, arrived, stayed]

theorem Sound.keepAll_told (sound : w.Sound) {s : Submission} (member : s ∈ batch) :
    s.Told (w.keepAll now batch).lexicon := by
  obtain ⟨new, views, tells⟩ := sound.keepAll_tells now batch
  obtain ⟨soundAfter, -, -⟩ := sound.keepAll_views now batch
  obtain ⟨i, within, rfl⟩ := List.getElem_of_mem member
  have inside : i < new.length := tells.length_eq ▸ within
  obtain ⟨words, told⟩ := tells.get inside within
  intro later extended
  have known : new[i] ∈ (w.keepAll now batch).views := by
    rw [views]
    exact List.mem_append_right _ (List.getElem_mem inside)
  have here : new[i].reading = batch[i].readingIn (w.keepAll now batch).lexicon := words ▸ told.reading_eq
  rw [← here, ← (soundAfter.relearn_twin extended known).reading_eq]
  exact (told.reads later (words ▸ extended)).symm

/-- While there is room for words, no tag is dropped. -/
theorem Sound.keepAll_whole (sound : w.Sound) (room : (w.keepAll now batch).lexicon.Roomy) :
    batch.map (·.readingIn (w.keepAll now batch).lexicon) = batch.map Submission.reading := by
  obtain ⟨new, -, tells⟩ := sound.keepAll_tells now batch
  generalize (w.keepAll now batch).lexicon = lexicon at tells room
  induction tells with
  | nil => rfl
  | cons told _ ih =>
    obtain ⟨rfl, tells⟩ := told
    rw [List.map_cons, List.map_cons, tells.complete _ (.refl _) room, ih]

end KeepAll

/-- What becomes of a window that lets its oldest requests go and takes some
others in. -/
structure Renews (w after : Window) (gone : Nat) (kept : List Submission) : Prop where
  sound : after.Sound
  steady : after.Steady
  size : after.size = w.size - gone + kept.length
  extended : w.lexicon.Extends after.lexicon
  told : ∀ s ∈ kept, s.Told after.lexicon
  readings : after.views.map View.reading =
    (w.views.map View.reading).drop gone ++ kept.map (·.readingIn after.lexicon)

theorem Sound.renews (sound : w.Sound) (steady : w.Steady) (now : Instant) {gone : Nat} {kept : List Submission}
    (room : w.size - gone + kept.length ≤ w.capacity) :
    w.Renews ((w.dropOldest gone).keepAll now kept) gone kept := by
  have aged := sound.dropOldest_sound gone
  have size := w.size_dropOldest gone
  obtain ⟨soundAfter, extended, -⟩ := aged.keepAll_views now kept
  have readings := aged.keepAll_readings now kept
  rw [dropOldest_lexicon] at extended
  rw [sound.dropOldest_views, List.map_drop] at readings
  refine ⟨soundAfter, (steady.dropOldest gone).keepAll now ?_, ?_, extended, fun s => aged.keepAll_told now kept, readings⟩
  · rw [size, dropOldest_capacity]
    exact room
  · rw [size_keepAll, size]

end Window

end Rollup
