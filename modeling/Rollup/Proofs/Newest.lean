import Rollup.Proofs.Merge

namespace Rollup

namespace Monitor

/-- The time of the newest request that there was so far, and a number above
those of all requests. -/
structure Latest (m : Monitor) (history : List Event) (newest : Instant) (next : Nat) : Prop where
  older : ∀ earlier, earlier <+: history → ∀ r ∈ (m.run earlier).window.requests, r.timestamp ≤ newest
  below : ∀ earlier, earlier <+: history → ∀ r ∈ (m.run earlier).window.requests, r.id < next
  reached : newest = .epoch ∨ ∃ earlier, earlier <+: history ∧ ∃ r ∈ (m.run earlier).window.requests, r.timestamp = newest

/-- Time and numbers go on, and time only with a request. -/
theorem Steady.step_window {m : Monitor} (steady : m.Steady) (event : Event) :
    m.window.lastTimestamp ≤ (m.step event).window.lastTimestamp ∧ m.window.nextId ≤ (m.step event).window.nextId ∧
      ((m.step event).window.lastTimestamp = m.window.lastTimestamp ∨
        ∃ r ∈ (m.step event).window.requests, r.timestamp = (m.step event).window.lastTimestamp) := by
  have still {m' : Monitor} (same : m'.window = m.window) : m.window.lastTimestamp ≤ m'.window.lastTimestamp ∧
      m.window.nextId ≤ m'.window.nextId ∧ (m'.window.lastTimestamp = m.window.lastTimestamp ∨
        ∃ r ∈ m'.window.requests, r.timestamp = m'.window.lastTimestamp) := by
    rw [same]
    exact ⟨Int.le_refl _, Nat.le_refl _, Or.inl rfl⟩
  rcases m.step_cases event with ⟨s, _, same⟩ | ⟨now, _, same⟩ | ⟨_, roster, same⟩
  · exact still (by rw [same]; rfl)
  · have advances := ((m.window.dropOldest (m.expiring now)).dropOldest (m.crowd now)).keepAll_advances now m.pooled
    have next := ((m.window.dropOldest (m.expiring now)).dropOldest (m.crowd now)).keepAll_nextId now m.pooled
    rw [Window.dropOldest_lastTimestamp, Window.dropOldest_lastTimestamp] at advances
    rw [Window.dropOldest_nextId, Window.dropOldest_nextId] at next
    rw [same, (steady.merged now).window, next]
    exact ⟨advances.1, Nat.le_add_right _ _, advances.2⟩
  · exact still (by rw [same])

theorem run_latest {m : Monitor} (sound : m.Sound) (steady : m.Steady) (start : m.window.lastTimestamp = .epoch)
    (history : List Event) :
    m.Latest history (m.run history).window.lastTimestamp (m.run history).window.nextId := by
  -- By induction from the end, as what came earlier is a beginning of the history.
  induction history using List.reverseRecOn with
  | nil =>
    have itself (earlier : List Event) (before : earlier <+: []) : m.run earlier = m := by
      rw [List.prefix_nil.mp before]
      rfl
    refine ⟨fun earlier before r kept => ?_, fun earlier before r kept => ?_, Or.inl start⟩
    · exact steady.window.newest r (itself earlier before ▸ kept)
    · exact sound.window.id_lt (itself earlier before ▸ kept)
  | append_singleton history event ih =>
    have steadyNow := steady.run (history ++ [event])
    have soundNow := run_sound sound (history ++ [event])
    obtain ⟨later, further, new⟩ := (steady.run history).step_window event
    rw [← run_snoc] at later further new
    refine ⟨fun earlier before r kept => ?_, fun earlier before r kept => ?_, ?_⟩
    · rcases List.prefix_concat_iff.mp before with rfl | before
      · exact steadyNow.window.newest r kept
      · exact Int.le_trans (ih.older earlier before r kept) later
    · rcases List.prefix_concat_iff.mp before with rfl | before
      · exact soundNow.window.id_lt kept
      · exact Nat.lt_of_lt_of_le (ih.below earlier before r kept) further
    · rcases new with same | ⟨r, kept, time⟩
      · rw [same]
        refine ih.reached.imp_right fun ⟨earlier, before, there⟩ => ⟨earlier, ?_, there⟩
        exact before.trans (List.prefix_append _ _)
      · exact Or.inr ⟨_, List.prefix_rfl, r, kept, time⟩

/-- What waits are the submissions given last, in order. -/
theorem Steady.run_waiting {m : Monitor} (steady : m.Steady) {given : List Submission}
    (latest : m.inbox.waiting <:+ given) (history : List Event) :
    (m.run history).inbox.waiting <:+ given ++ submitted history := by
  induction history generalizing m given with
  | nil => exact (List.append_nil given).symm ▸ latest
  | cons event rest ih =>
    have next : (m.step event).inbox.waiting <:+ given ++ submitted [event] := by
      rcases m.step_cases event with ⟨s, rfl, same⟩ | ⟨now, rfl, same⟩ | ⟨none, roster, same⟩
      · exact same ▸ Inbox.push_suffix latest s
      · rw [same, (steady.merged now).inbox]
        exact List.nil_suffix
      · rw [same, none, List.append_nil]
        exact latest
    have later := ih (steady.step event) next
    rw [List.append_assoc, ← submitted_append] at later
    exact later

/-- The last elements of two lists: those of the second, and of the first as
many as make it up to `n`. -/
theorem rtake_append {α : Type} (xs ys : List α) (n : Nat) :
    (xs ++ ys).rtake n = xs.drop (xs.length + (ys.rtake n).length - n) ++ ys.rtake n := by
  rw [length_rtake, List.rtake, List.length_append, List.drop_append, List.rtake]
  have back : xs.length + ys.length - n - xs.length = ys.length - n := by omega
  rw [back]
  rcases Nat.le_total ys.length n with few | many
  · rw [Nat.min_eq_left few]
  · have none : xs.drop (xs.length + ys.length - n) = [] := List.drop_eq_nil_of_le (by omega)
    have neither : xs.drop (xs.length + n - n) = [] := List.drop_eq_nil_of_le (by omega)
    rw [Nat.min_eq_right many, none, neither]

theorem rtake_of_length_le {α : Type} {l : List α} {n : Nat} (fits : l.length ≤ n) : l.rtake n = l := by
  rw [List.rtake, Nat.sub_eq_zero_of_le fits]
  rfl

theorem rtake_map {α β : Type} (f : α → β) (l : List α) (n : Nat) : (l.map f).rtake n = (l.rtake n).map f := by
  rw [List.rtake, List.rtake, List.length_map, List.map_drop]

theorem Steady.survivors_views {m : Monitor} (steady : m.Steady) (sound : m.Sound) (now : Instant) :
    (m.window.dropOldest (m.expiring now)).views = (m.survivors now).map m.window.viewOf := by
  rw [sound.window.dropOldest_views, Window.views, ← List.map_drop, steady.survivors_eq]

theorem Steady.merge_readings {m : Monitor} (steady : m.Steady) (sound : m.Sound) (now : Instant) :
    (m.merge now).1.window.views.map View.reading =
      ((m.survivors now).map (fun r => (m.window.viewOf r).reading) ++
        m.arrivals.map (·.readingIn (m.merge now).1.window.lexicon)).rtake m.window.capacity := by
  have aged := sound.window.dropOldest_sound (m.expiring now)
  have stayed : (m.window.dropOldest (m.expiring now)).views.map View.reading =
      (m.survivors now).map fun r => (m.window.viewOf r).reading := by
    rw [steady.survivors_views sound, List.map_map]
    rfl
  rw [(steady.merged now).window, (aged.dropOldest_sound _).keepAll_readings, aged.dropOldest_views, List.map_drop,
    stayed, rtake_append, rtake_map, List.length_map, List.length_map]
  rfl

theorem Steady.merge_keys {m : Monitor} (steady : m.Steady) (now : Instant) :
    (m.merge now).1.window.requests.map (fun r => (r.id, r.timestamp)) =
      ((m.survivors now).map (fun r => (r.id, r.timestamp)) ++
        (List.range' m.window.nextId m.pooled.length).map fun id => (id, m.window.moment now)).rtake m.window.capacity := by
  have moment : ((m.window.dropOldest (m.expiring now)).dropOldest (m.crowd now)).moment now = m.window.moment now := by
    rw [Window.dropOldest_moment, Window.dropOldest_moment]
  have few : ((List.range' m.window.nextId m.pooled.length).map fun id => (id, m.window.moment now)).length ≤
      m.window.capacity := by
    rw [List.length_map, List.length_range', length_pooled]
    exact Nat.min_le_right _ _
  rw [(steady.merged now).window, Window.keepAll_keys, moment, Window.dropOldest_nextId, Window.dropOldest_nextId,
    Window.dropOldest_requests, Window.dropOldest_requests, steady.survivors_eq, List.map_drop, rtake_append,
    rtake_of_length_le few, List.length_map, List.length_map, List.length_range']
  rfl

theorem Steady.length_expired {m : Monitor} (steady : m.Steady) (now : Instant) :
    (m.window.requests.filter (!·.within m.settings.retention now)).length = m.expiring now := by
  have stay := steady.length_survivors now
  have aged := m.expiring_le now
  have all := m.window.requests.length_eq_length_filter_add (·.within m.settings.retention now)
  unfold survivors at stay
  unfold Window.size at stay aged
  omega

/-- Under any settings that are fit, and whatever happened before: a merge
keeps the newest of the requests that are not too old and, behind them, of the
sound submissions that waited, as many as the window holds. Requests stay as
they are. New ones are numbered on and get the time of the merge, unless there
was a later one, and show what was sent but for tags whose words found no
room. Nothing waits then, and all that left or was refused is counted. -/
theorem merge_keeps_newest {settings : Settings} (fit : settings.check = .ok ()) (start : Instant) :
    ∃ m, create settings start = .ok m ∧ ∀ history now,
      let before := m.run history
      let after := (before.merge now).1
      let done := (before.merge now).2
      let stay := before.window.requests.filter (·.within settings.retention now)
      let come := before.inbox.waiting.filter (·.isSound)
      before.inbox.waiting <:+ submitted history ∧
      after.window.views.map View.reading =
        (stay.map (fun r => (before.window.viewOf r).reading) ++
          come.map (·.readingIn after.window.lexicon)).rtake settings.windowCapacity ∧
      (∃ newest next, m.Latest history newest next ∧
        after.window.requests.map (fun r => (r.id, r.timestamp)) =
          (stay.map (fun r => (r.id, r.timestamp)) ++ (List.range' next done.appended).map
            fun id => (id, max (max now newest) Window.firstMoment)).rtake settings.windowCapacity) ∧
      after.inbox.waiting = [] ∧
      done.expired = (before.window.requests.filter (!·.within settings.retention now)).length ∧
      done.malformed = (before.inbox.waiting.filter (!·.isSound)).length ∧
      done.appended = min come.length settings.windowCapacity ∧
      done.displaced = stay.length + come.length - settings.windowCapacity := by
  obtain ⟨m, created⟩ := create_of_check fit start
  have sound := (create_start created).1
  have obeys := create_obeys fit created
  obtain ⟨scale, new⟩ := create_eq created
  refine ⟨m, created, fun history now => ?_⟩
  have steady := (obeys.run history).steady
  have merged := steady.merged now
  have latest := run_latest sound obeys.steady (new ▸ rfl) history
  have waiting : (m.run history).inbox.waiting <:+ [] ++ submitted history :=
    obeys.steady.run_waiting (new ▸ List.nil_suffix) history
  have keys := steady.merge_keys now
  rw [← merged.appended] at keys
  rw [← (obeys.run history).capacity, ← (obeys.run history).fixed]
  refine ⟨waiting, steady.merge_readings (run_sound sound history) now, ⟨_, _, latest, keys⟩, ?_, ?_, ?_, ?_, ?_⟩
  · rw [merged.inbox]
  · rw [merged.expired, steady.length_expired]
  · exact merged.malformed
  · rw [merged.appended, length_pooled]
    rfl
  · exact merged.displaced

def tight : Settings := { windowCapacity := 2, inboxCapacity := 4 }

/-- One request is there when more come than fit, a faulty one among them. -/
def rush : List Event := [
  .submit { script := "first" },
  .merge ⟨1000000000⟩,
  .submit { script := "second" },
  .submit { script := "faulty", tagNames := [0] },
  .submit { script := "third" },
  .submit { script := "fourth" }]

theorem rush_keeps_newest : ∃ m, create tight .epoch = .ok m ∧
    let after := ((m.run rush).merge ⟨500000000⟩).1
    let done := ((m.run rush).merge ⟨500000000⟩).2
    done.displaced = 2 ∧ done.malformed = 1 ∧ after.inbox.waiting = [] ∧
      after.window.requests.map (fun r => (r.id, r.timestamp, r.script)) =
        [(2, ⟨1000000000⟩, "third"), (3, ⟨1000000000⟩, "fourth")] := by
  obtain ⟨m, created, keeps⟩ := merge_keeps_newest (show tight.check = .ok () from rfl) .epoch
  obtain ⟨_, _, _, empty, _⟩ := keeps rush ⟨500000000⟩
  have counted := passes_of_create created (fun m =>
    ((m.run rush).merge ⟨500000000⟩).2.displaced = 2 ∧ ((m.run rush).merge ⟨500000000⟩).2.malformed = 1 ∧
      ((m.run rush).merge ⟨500000000⟩).1.window.requests.map (fun r => (r.id, r.timestamp, r.script)) =
        [(2, ⟨1000000000⟩, "third"), (3, ⟨1000000000⟩, "fourth")]) (by decide +kernel)
  obtain ⟨displaced, malformed, left⟩ := of_decide_eq_true counted
  exact ⟨m, created, displaced, malformed, empty, left⟩

end Monitor

end Rollup
