import Mathlib.Data.List.DropRight
import Rollup.Proofs.Batch
import Rollup.Proofs.Reports

namespace Rollup

/-- Retention still covers a request at `now`: it is not from before the moment
that retention reaches back to, if the clock can name that moment. -/
def Record.within (r : Record) (retention : Duration) (now : Instant) : Bool :=
  (now.before? retention).all (· ≤ r.timestamp)

theorem Inbox.popMany_of_le {inbox : Inbox} {most : Nat} (enough : inbox.size ≤ most) :
    inbox.popMany most = (inbox.waiting, { inbox with waiting := [] }) := by
  obtain ⟨capacity, waiting⟩ := inbox
  induction most generalizing waiting with
  | zero =>
    cases List.length_eq_zero_iff.mp (Nat.le_zero.mp enough)
    rfl
  | succ most ih =>
    cases waiting with
    | nil => rfl
    | cons s rest =>
      have later := ih rest (Nat.le_of_succ_le_succ enough)
      unfold popMany
      dsimp only [pop?]
      rw [later]

/-- Of a submission that is put in and the one that goes for it, one stays. -/
theorem Inbox.size_push {inbox : Inbox} (room : 0 < inbox.capacity) (s : Submission) :
    (inbox.push s).size + (if inbox.isFull then 1 else 0) = inbox.size + 1 := by
  unfold push size
  split
  · rename_i full
    have some : inbox.capacity ≤ inbox.waiting.length := of_decide_eq_true full
    rw [List.length_append, List.length_tail, List.length_singleton]
    omega
  · rw [List.length_append, List.length_singleton]

theorem Inbox.push_suffix {inbox : Inbox} {given : List Submission} (latest : inbox.waiting <:+ given)
    (s : Submission) : (inbox.push s).waiting <:+ given ++ [s] := by
  have tail : (if inbox.isFull then inbox.waiting.tail else inbox.waiting) <:+ given := by
    split
    · exact (List.tail_suffix _).trans latest
    · exact latest
  obtain ⟨front, rfl⟩ := tail
  exact ⟨front, (List.append_assoc _ _ _).symm⟩

namespace Monitor

/-- The requests that are not too old at `now`. -/
def survivors (m : Monitor) (now : Instant) : List Record :=
  m.window.requests.filter (·.within m.settings.retention now)

/-- The submissions that wait and have no fault. -/
def arrivals (m : Monitor) : List Submission := m.inbox.waiting.filter (·.isSound)

/-- The newest of these, as many as a window holds. -/
def pooled (m : Monitor) : List Submission := m.arrivals.rtake m.window.capacity

/-- How many requests have to make room at `now`. -/
def crowd (m : Monitor) (now : Instant) : Nat :=
  (m.survivors now).length + m.pooled.length - m.window.capacity

/-- Neither the window nor the inbox holds more than fits. -/
structure Steady (m : Monitor) : Prop where
  window : m.window.Steady
  inbox : m.inbox.size ≤ m.inbox.capacity
  room : 0 < m.inbox.capacity

theorem length_rtake {α : Type} (l : List α) (n : Nat) : (l.rtake n).length = min l.length n := by
  rw [List.rtake, List.length_drop]
  omega

theorem tearDownIdle_eq (m : Monitor) (now : Instant) : ∃ roster, (m.tearDownIdle now).1 = { m with roster } := by
  rcases m.tearDownIdle_roster now with same | ⟨cutoff, fewer⟩
  · exact ⟨m.roster, same⟩
  · exact ⟨_, fewer⟩

/-- What retention covers is what is left once the requests that age out are
gone. -/
theorem Steady.survivors_eq {m : Monitor} (steady : m.Steady) (now : Instant) :
    m.window.requests.drop (m.expiring now) = m.survivors now := by
  unfold expiring survivors Record.within
  cases now.before? m.settings.retention with
  | none => exact (List.filter_eq_self.mpr fun _ _ => rfl).symm
  | some cutoff => exact steady.window.drop_countOlder cutoff

theorem Steady.length_survivors {m : Monitor} (steady : m.Steady) (now : Instant) :
    (m.survivors now).length = m.window.size - m.expiring now := by
  rw [← steady.survivors_eq, List.length_drop]
  rfl

theorem expiring_le (m : Monitor) (now : Instant) : m.expiring now ≤ m.window.size := by
  unfold expiring
  cases now.before? m.settings.retention with
  | none => exact Nat.zero_le _
  | some cutoff => exact (List.takeWhile_sublist _).length_le

/-- What comes in finds room once the oldest requests left for it, and what
would not fit even then is lost. -/
theorem absorb_eq {m : Monitor} (steady : m.window.Steady) (now : Instant) {batch kept : List Submission} {k : Nat}
    (sound : ∀ s ∈ batch, s.isSound) (newest : kept = batch.rtake m.window.capacity)
    (crowd : k = m.window.size + kept.length - m.window.capacity) : ∃ roster, m.absorb now batch =
      ({ m with window := (m.window.dropOldest k).keepAll now kept, roster },
        { appended := kept.length, displaced := m.window.size + batch.length - m.window.capacity }) := by
  have size := steady.size_le
  have few : kept.length = min batch.length m.window.capacity := newest ▸ length_rtake _ _
  have leaving : kept.length - (m.window.capacity - min m.window.size m.window.capacity) = k := by omega
  have displaced : batch.length - m.window.capacity + k = m.window.size + batch.length - m.window.capacity := by omega
  have room : (m.window.dropOldest k).size + kept.length ≤ (m.window.dropOldest k).capacity := by
    rw [Window.size_dropOldest, Window.dropOldest_capacity]
    omega
  have fit : ∀ s ∈ kept, s.isSound := fun s member => sound s (List.mem_of_mem_drop (newest ▸ member))
  have behind : batch.drop (batch.length - m.window.capacity) = kept := newest.symm
  obtain ⟨roster, evicted⟩ := m.evict_eq k
  unfold absorb
  dsimp only
  rw [behind, leaving, displaced, evicted]
  dsimp only
  rw [Window.appendAll_of_room fit room]
  dsimp only
  split
  · exact ⟨_, rfl⟩
  · exact ⟨_, rfl⟩

theorem finishMerge_eq {m : Monitor} (steady : m.window.Steady) (now : Instant) (expired : Nat)
    (taken : List Submission) : ∃ roster tornDown,
      let came := taken.filter (·.isSound)
      let kept := came.rtake m.window.capacity
      let merge : Merge := {
        appended := kept.length
        malformed := (taken.filter (!·.isSound)).length
        expired
        displaced := m.window.size + came.length - m.window.capacity
        tornDown }
      m.finishMerge now expired taken =
        ({ m with
            window := (m.window.dropOldest (m.window.size + kept.length - m.window.capacity)).keepAll now kept
            roster
            counters := m.counters.record merge
            recorder := Recorder.record m.recorder merge }, merge) := by
  have split : taken.partition Submission.isSound = (taken.filter (·.isSound), taken.filter (!·.isSound)) :=
    List.partition_eq_filter_filter
  have fit : ∀ s ∈ taken.filter (·.isSound), s.isSound := fun s member => (List.mem_filter.mp member).2
  obtain ⟨busy, absorbed⟩ := absorb_eq steady now fit rfl rfl
  unfold finishMerge
  rw [split]
  dsimp only
  rw [absorbed]
  dsimp only
  obtain ⟨roster, torn⟩ := tearDownIdle_eq { m with
    window := (m.window.dropOldest (m.window.size + ((taken.filter (·.isSound)).rtake m.window.capacity).length -
      m.window.capacity)).keepAll now ((taken.filter (·.isSound)).rtake m.window.capacity)
    roster := busy } now
  rw [torn]
  exact ⟨roster, _, rfl⟩

/-- All that a merge does but for the reports. -/
structure Merged (m : Monitor) (now : Instant) (m' : Monitor) (merge : Merge) : Prop where
  settings : m'.settings = m.settings
  inbox : m'.inbox = { m.inbox with waiting := [] }
  window : m'.window = ((m.window.dropOldest (m.expiring now)).dropOldest (m.crowd now)).keepAll now m.pooled
  counters : m'.counters = m.counters.record merge
  recorder : m'.recorder = Recorder.record m.recorder merge
  appended : merge.appended = m.pooled.length
  malformed : merge.malformed = (m.inbox.waiting.filter (!·.isSound)).length
  expired : merge.expired = m.expiring now
  displaced : merge.displaced = (m.survivors now).length + m.arrivals.length - m.window.capacity

theorem Steady.merged {m : Monitor} (steady : m.Steady) (now : Instant) :
    m.Merged now (m.merge now).1 (m.merge now).2 := by
  have size : (m.window.dropOldest (m.expiring now)).size = (m.survivors now).length := by
    rw [Window.size_dropOldest, steady.length_survivors]
  have capacity := m.window.dropOldest_capacity (m.expiring now)
  -- What ages out goes before anything is taken out of the inbox, so the rest
  -- of the merge starts from a smaller window.
  obtain ⟨left, evicted⟩ := m.evict_eq (m.expiring now)
  have popped := Inbox.popMany_of_le steady.inbox
  obtain ⟨roster, tornDown, finished⟩ := finishMerge_eq
    (m := { m with
      window := m.window.dropOldest (m.expiring now), inbox := { m.inbox with waiting := [] }, roster := left })
    (steady.window.dropOldest _) now (m.expiring now) m.inbox.waiting
  unfold merge
  dsimp only
  rw [evicted]
  dsimp only
  rw [popped]
  dsimp only
  rw [finished]
  dsimp only
  rw [size, capacity]
  exact ⟨rfl, rfl, rfl, rfl, rfl, rfl, rfl, rfl, rfl⟩

theorem Merged.size {m m' : Monitor} {now : Instant} {merge : Merge} (merged : m.Merged now m' merge) :
    m'.window.size = m.window.size - m.expiring now - m.crowd now + m.pooled.length := by
  rw [merged.window, Window.size_keepAll, Window.size_dropOldest, Window.size_dropOldest]

theorem length_pooled (m : Monitor) : m.pooled.length = min m.arrivals.length m.window.capacity := length_rtake _ _

/-- Once the crowd is gone there is room for what comes in. -/
theorem Steady.merge_room {m : Monitor} (steady : m.Steady) (now : Instant) :
    ((m.window.dropOldest (m.expiring now)).dropOldest (m.crowd now)).size + m.pooled.length ≤
      ((m.window.dropOldest (m.expiring now)).dropOldest (m.crowd now)).capacity := by
  have size := steady.window.size_le
  have stay := steady.length_survivors now
  have pooled := m.length_pooled
  rw [Window.size_dropOldest, Window.size_dropOldest, Window.dropOldest_capacity, Window.dropOldest_capacity, crowd]
  omega

theorem ask_eq {m m' : Monitor} {now : Instant} {q : Query} {serial : Nat} (asked : m.ask now q = .ok (m', serial)) :
    ∃ roster, m' = { m with roster } := by
  rcases ask_cases asked with ⟨report, same⟩ | ⟨_, g, _, same⟩
  · exact ⟨_, same⟩
  · exact ⟨_, same⟩

theorem lookup_eq {m m' : Monitor} {now : Instant} {id : String} {serial : Nat}
    (found : m.lookup now id = .ok (m', serial)) : ∃ roster, m' = { m with roster } := by
  rcases lookup_cases found with ⟨report, same⟩ | ⟨q, _, asked⟩
  · exact ⟨_, same⟩
  · exact ask_eq asked

/-- All but a submission and a merge leaves everything but the reports alone. -/
theorem step_cases (m : Monitor) (event : Event) :
    (∃ s, event = .submit s ∧ m.step event = m.submit s) ∨
      (∃ now, event = .merge now ∧ m.step event = (m.merge now).1) ∨
        (submitted [event] = [] ∧ ∃ roster, m.step event = { m with roster }) := by
  cases event with
  | submit s => exact Or.inl ⟨s, rfl, rfl⟩
  | merge now => exact Or.inr (Or.inl ⟨now, rfl, rfl⟩)
  | lookup now id =>
    refine Or.inr (Or.inr ⟨rfl, ?_⟩)
    unfold step
    dsimp only
    split
    · exact lookup_eq ‹_›
    · exact ⟨m.roster, rfl⟩
  | ask now q =>
    refine Or.inr (Or.inr ⟨rfl, ?_⟩)
    unfold step
    dsimp only
    split
    · exact ask_eq ‹_›
    · exact ⟨m.roster, rfl⟩
  | tearDownIdle now => exact Or.inr (Or.inr ⟨rfl, m.tearDownIdle_eq now⟩)

theorem Steady.submit {m : Monitor} (steady : m.Steady) (s : Submission) : (m.submit s).Steady where
  window := steady.window
  inbox := by
    have size := Inbox.size_push steady.room s
    have before := steady.inbox
    have inbox : (m.submit s).inbox = m.inbox.push s := rfl
    have capacity : (m.inbox.push s).capacity = m.inbox.capacity := rfl
    rw [inbox, capacity]
    split at size
    · omega
    · rename_i free
      have notFull : ¬m.inbox.capacity ≤ m.inbox.size := fun full => free (decide_eq_true full)
      omega
  room := steady.room

theorem Steady.merge {m : Monitor} (steady : m.Steady) (now : Instant) : (m.merge now).1.Steady := by
  have merged := steady.merged now
  refine ⟨?_, ?_, ?_⟩
  · rw [merged.window]
    exact ((steady.window.dropOldest _).dropOldest _).keepAll now (steady.merge_room now)
  · rw [merged.inbox]
    exact Nat.zero_le _
  · rw [merged.inbox]
    exact steady.room

theorem Steady.step {m : Monitor} (steady : m.Steady) (event : Event) : (m.step event).Steady := by
  rcases m.step_cases event with ⟨s, _, same⟩ | ⟨now, _, same⟩ | ⟨_, roster, same⟩
  · exact same ▸ steady.submit s
  · exact same ▸ steady.merge now
  · exact same ▸ ⟨steady.window, steady.inbox, steady.room⟩

theorem Steady.run {m : Monitor} (steady : m.Steady) (history : List Event) : (m.run history).Steady := by
  induction history generalizing m with
  | nil => exact steady
  | cons event rest ih => exact ih (steady.step event)

/-- What settings fix, in a state that was reached under them. -/
structure Obeys (m : Monitor) (settings : Settings) : Prop where
  steady : m.Steady
  fixed : m.settings = settings
  capacity : m.window.capacity = settings.windowCapacity

theorem Obeys.step {m : Monitor} {settings : Settings} (obeys : m.Obeys settings) (event : Event) :
    (m.step event).Obeys settings := by
  refine ⟨obeys.steady.step event, ?_, ?_⟩
  · rcases m.step_cases event with ⟨s, _, same⟩ | ⟨now, _, same⟩ | ⟨_, roster, same⟩
    · exact same ▸ obeys.fixed
    · rw [same, (obeys.steady.merged now).settings]
      exact obeys.fixed
    · exact same ▸ obeys.fixed
  · rcases m.step_cases event with ⟨s, _, same⟩ | ⟨now, _, same⟩ | ⟨_, roster, same⟩
    · exact same ▸ obeys.capacity
    · rw [same, (obeys.steady.merged now).window, Window.keepAll_capacity, Window.dropOldest_capacity,
        Window.dropOldest_capacity]
      exact obeys.capacity
    · exact same ▸ obeys.capacity

theorem Obeys.run {m : Monitor} {settings : Settings} (obeys : m.Obeys settings) (history : List Event) :
    (m.run history).Obeys settings := by
  induction history generalizing m with
  | nil => exact obeys
  | cons event rest ih => exact ih (obeys.step event)

theorem positive_of_check {settings : Settings} (fit : settings.check = .ok ()) {field : String} {n : Nat}
    (member : (field, n) ∈ settings.positiveFields) : 0 < n := by
  unfold Settings.check at fit
  split at fit
  · cases fit
  · rename_i none
    have nonzero := List.find?_eq_none.mp none (field, n) member
    exact Nat.pos_of_ne_zero fun zero => nonzero (decide_eq_true zero)

theorem create_obeys {settings : Settings} {now : Instant} {m : Monitor} (fit : settings.check = .ok ())
    (created : create settings now = .ok m) : m.Obeys settings := by
  have window : ("request_pool_size", settings.windowCapacity) ∈ settings.positiveFields := by
    simp [Settings.positiveFields]
  have inbox : ("staging_capacity", settings.inboxCapacity) ∈ settings.positiveFields := by
    simp [Settings.positiveFields]
  obtain ⟨scale, rfl⟩ := create_eq created
  exact ⟨⟨Window.empty_steady _ _ _ _, Nat.zero_le _, positive_of_check fit inbox⟩, rfl,
    Nat.max_eq_left (positive_of_check fit window)⟩

end Monitor

end Rollup
