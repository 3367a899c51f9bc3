import Rollup.Proofs.Newest
import Rollup.Proofs.Numbering

namespace Rollup

/-- A request as it reads, with its time. -/
def View.timed (v : View) : Instant × Reading := (v.record.timestamp, v.reading)

theorem Instant.before?_le {t cutoff : Instant} {d : Duration} (reaches : t.before? d = some cutoff) : cutoff ≤ t := by
  unfold before? at reaches
  split at reaches
  · cases reaches
    simp only [le_iff]
    omega
  · cases reaches

/-- What is left of the first elements is not needed to tell the last ones. -/
theorem rtake_rtake_append {α : Type} (xs ys : List α) (n : Nat) : (xs.rtake n ++ ys).rtake n = (xs ++ ys).rtake n := by
  have few := Monitor.length_rtake ys n
  have size := Monitor.length_rtake xs n
  rw [Monitor.rtake_append, Monitor.rtake_append, size]
  have again : xs.rtake n = xs.drop (xs.length - n) := rfl
  have count : xs.length - n + (min xs.length n + (ys.rtake n).length - n) = xs.length + (ys.rtake n).length - n := by
    omega
  rw [again, List.drop_drop, count]

namespace Window

theorem map_timed (w : Window) :
    w.views.map View.timed = (w.requests.map (·.timestamp)).zip (w.views.map View.reading) := by
  rw [views, List.map_map, List.map_map, List.zip_map']
  rfl

/-- New requests show all that was sent, with one and the same time. -/
theorem Sound.keepAll_timed {w : Window} (sound : w.Sound) (now : Instant) (batch : List Submission)
    (room : (w.keepAll now batch).lexicon.Roomy) : (w.keepAll now batch).views.map View.timed =
      w.views.map View.timed ++ batch.map fun s => (w.moment now, s.reading) := by
  have stamps : (w.keepAll now batch).requests.map (·.timestamp) =
      w.requests.map (·.timestamp) ++ batch.map fun _ => w.moment now := by
    have keys := congrArg (List.map Prod.snd) (w.keepAll_keys now batch)
    simpa [Function.comp_def] using keys
  have sizes : (w.requests.map (·.timestamp)).length = (w.views.map View.reading).length := by
    rw [views, List.length_map, List.length_map, List.length_map]
  rw [map_timed, stamps, sound.keepAll_readings, sound.keepAll_whole now batch room, List.zip_append sizes, ← map_timed,
    List.zip_map']

end Window

/-- What there is to see of a state: the requests, the reports but for their
numbers, and what became of all other requests. -/
@[ext]
structure Outcome where
  requests : List (Instant × Reading)
  reports : List Report × SortedMap String Report
  malformed : Nat
  expired : Nat
  displaced : Nat

namespace Monitor

def outcome (m : Monitor) : Outcome where
  requests := m.window.views.map View.timed
  reports := m.roster.faces
  malformed := m.counters.malformed
  expired := m.counters.expired
  displaced := m.counters.displaced

/-- What there is going to be once a merge at `now` follows on some submissions
that are still to come. -/
def forecast (m : Monitor) (now : Instant) (later : List Submission) : Outcome where
  requests := ((m.survivors now).map (fun r => (m.window.viewOf r).timed) ++
    ((m.inbox.waiting ++ later).filter (·.isSound)).map fun s =>
      (m.window.moment now, s.reading)).rtake m.window.capacity
  reports := Roster.retained (m.settings.idleTimeout.bind now.before?) m.roster.faces
  malformed := m.counters.malformed + ((m.inbox.waiting ++ later).filter (!·.isSound)).length
  expired := m.counters.expired + m.expiring now
  displaced := m.counters.displaced +
    ((m.survivors now).length + ((m.inbox.waiting ++ later).filter (·.isSound)).length - m.window.capacity)

/-- Nothing waits, and nothing is too old. -/
structure Settled (m : Monitor) (now : Instant) : Prop where
  waiting : m.inbox.waiting = []
  survivors : m.survivors now = m.window.requests
  expiring : m.expiring now = 0
  reports : Roster.retained (m.settings.idleTimeout.bind now.before?) m.roster.faces = m.roster.faces

theorem Settled.forecast_nil {m : Monitor} {now : Instant} (settled : m.Settled now) (steady : m.Steady) :
    m.forecast now [] = m.outcome := by
  have size : m.window.requests.length ≤ m.window.capacity := steady.window.size_le
  have fits : ((m.window.requests.map fun r => (m.window.viewOf r).timed) ++
      ([] : List Submission).map fun s => (m.window.moment now, s.reading)).length ≤ m.window.capacity := by
    simpa using size
  unfold forecast outcome
  rw [settled.waiting, settled.survivors, settled.expiring, settled.reports, List.append_nil, List.filter_nil,
    List.filter_nil, rtake_of_length_le fits, List.map_nil, List.append_nil, Window.views, List.map_map]
  ext1
  · rfl
  · rfl
  · rfl
  · rfl
  · show m.counters.displaced + (m.window.requests.length + 0 - m.window.capacity) = m.counters.displaced
    omega

/-- What was just taken in is not too old. -/
theorem Steady.merge_within {m : Monitor} (steady : m.Steady) (now : Instant) :
    ∀ r ∈ (m.merge now).1.window.requests, r.within m.settings.retention now := by
  intro r member
  have key : (r.id, r.timestamp) ∈ (m.merge now).1.window.requests.map fun r => (r.id, r.timestamp) :=
    List.mem_map_of_mem member
  rw [steady.merge_keys now] at key
  rcases List.mem_append.mp (List.mem_of_mem_drop key) with old | new
  · obtain ⟨s, stayed, same⟩ := List.mem_map.mp old
    have time : s.timestamp = r.timestamp := congrArg Prod.snd same
    have within := (List.mem_filter.mp stayed).2
    rw [Record.within, ← time]
    exact within
  · obtain ⟨_, _, same⟩ := List.mem_map.mp new
    have time : m.window.moment now = r.timestamp := congrArg Prod.snd same
    rw [Record.within, ← time]
    cases reaches : now.before? m.settings.retention with
    | none => rfl
    | some cutoff => exact decide_eq_true (Int.le_trans (Instant.before?_le reaches) (m.window.le_moment now))

theorem Steady.merge_settled {m : Monitor} (steady : m.Steady) (now : Instant) : (m.merge now).1.Settled now := by
  have merged := steady.merged now
  have within := steady.merge_within now
  rw [← merged.settings] at within
  refine ⟨by rw [merged.inbox], List.filter_eq_self.mpr within, ?_, ?_⟩
  · have none : (m.merge now).1.window.requests.filter (!·.within (m.merge now).1.settings.retention now) = [] :=
      List.filter_eq_nil_iff.mpr fun r member old => by rw [within r member] at old; cases old
    rw [← (steady.merge now).length_expired, none]
    rfl
  · rw [merged.settings, m.merge_faces, Roster.retained_retained]

theorem Steady.merge_timed {m : Monitor} (steady : m.Steady) (sound : m.Sound) (now : Instant)
    (room : (m.merge now).1.window.lexicon.Roomy) : (m.merge now).1.window.views.map View.timed =
      ((m.survivors now).map (fun r => (m.window.viewOf r).timed) ++
        m.arrivals.map fun s => (m.window.moment now, s.reading)).rtake m.window.capacity := by
  have aged := sound.window.dropOldest_sound (m.expiring now)
  have stayed : (m.window.dropOldest (m.expiring now)).views.map View.timed =
      (m.survivors now).map fun r => (m.window.viewOf r).timed := by
    rw [steady.survivors_views sound, List.map_map]
    rfl
  rw [(steady.merged now).window] at room ⊢
  rw [(aged.dropOldest_sound _).keepAll_timed now _ room, aged.dropOldest_views, List.map_drop, stayed,
    Window.dropOldest_moment, Window.dropOldest_moment, rtake_append, rtake_map, List.length_map, List.length_map]
  rfl

/-- A submission that finds a place is one that is no longer to come. -/
theorem forecast_submit {m : Monitor} (room : m.inbox.size < m.inbox.capacity) (now : Instant) (s : Submission)
    (later : List Submission) : (m.submit s).forecast now later = m.forecast now (s :: later) := by
  have waiting : (m.submit s).inbox.waiting ++ later = m.inbox.waiting ++ s :: later := by
    have free : ¬m.inbox.isFull := by
      rw [Inbox.isFull, decide_eq_true_eq]
      omega
    show (if m.inbox.isFull then m.inbox.waiting.tail else m.inbox.waiting) ++ [s] ++ later = _
    rw [if_neg free, List.append_assoc]
    rfl
  unfold forecast
  rw [waiting]
  rfl

/-- A merge in between changes nothing about what there is going to be. -/
theorem Steady.forecast_merge {m : Monitor} (steady : m.Steady) (sound : m.Sound) (now : Instant)
    (room : (m.merge now).1.window.lexicon.Roomy) (later : List Submission) :
    (m.merge now).1.forecast now later = m.forecast now later := by
  have merged := steady.merged now
  have settled := steady.merge_settled now
  have capacity : (m.merge now).1.window.capacity = m.window.capacity := by
    rw [merged.window, Window.keepAll_capacity, Window.dropOldest_capacity, Window.dropOldest_capacity]
  ext1
  · have moment : (m.merge now).1.window.moment now = m.window.moment now := by
      rw [merged.window, Window.keepAll_moment, Window.dropOldest_moment, Window.dropOldest_moment]
    have stayed : (m.merge now).1.window.requests.map (fun r => ((m.merge now).1.window.viewOf r).timed) =
        (m.merge now).1.window.views.map View.timed := by
      rw [Window.views, List.map_map]
      rfl
    unfold forecast
    dsimp only
    rw [settled.survivors, settled.waiting, capacity, moment, stayed, steady.merge_timed sound now room,
      rtake_rtake_append, List.nil_append, List.filter_append, List.map_append, List.append_assoc]
    rfl
  · have faces := settled.reports
    unfold forecast
    dsimp only
    rw [faces, m.merge_faces]
  · show (m.merge now).1.counters.malformed + _ = m.counters.malformed + _
    rw [settled.waiting, merged.counters, Counters.record, merged.malformed, List.nil_append, List.filter_append,
      List.length_append, Nat.add_assoc]
  · show (m.merge now).1.counters.expired + _ = m.counters.expired + _
    rw [settled.expiring, merged.counters, Counters.record, merged.expired]
    rfl
  · have size : (m.merge now).1.window.requests.length =
        m.window.size - m.expiring now - m.crowd now + m.pooled.length := merged.size
    have stay := steady.length_survivors now
    have full := steady.window.size_le
    have pooled := m.length_pooled
    have crowd : m.crowd now = (m.survivors now).length + m.pooled.length - m.window.capacity := rfl
    have arrivals : (m.inbox.waiting.filter (·.isSound)).length = m.arrivals.length := rfl
    have counted : (m.merge now).1.counters.displaced = m.counters.displaced + (m.merge now).2.displaced := by
      rw [merged.counters]
      rfl
    unfold forecast
    dsimp only
    rw [settled.survivors, settled.waiting, capacity, size, counted, merged.displaced, List.nil_append,
      List.filter_append, List.length_append, arrivals]
    omega

/-- Submissions that find a place, with merges at one moment in between, leave
the forecast for that moment as it is. -/
theorem Steady.forecast_run {m : Monitor} (steady : m.Steady) (sound : m.Sound) {now : Instant} {events : List Event}
    (only : ∀ event ∈ events, event = .merge now ∨ ∃ s, event = .submit s)
    (places : m.inbox.size + (submitted events).length ≤ m.inbox.capacity)
    (room : (m.run events).window.lexicon.Roomy) (later : List Submission) :
    (m.run events).forecast now later = m.forecast now (submitted events ++ later) := by
  induction events generalizing m with
  | nil => rfl
  | cons event rest ih =>
    obtain ⟨_, _, slides⟩ := step_slides sound event
    have next := ih (steady.step event) slides.sound fun other member => only other (List.mem_cons_of_mem event member)
    have extended := (steady.step event).run_extends slides.sound rest
    rcases only event List.mem_cons_self with rfl | ⟨s, rfl⟩
    · have emptied : (m.merge now).1.inbox = { m.inbox with waiting := [] } := (steady.merged now).inbox
      have given : submitted (.merge now :: rest) = submitted rest := rfl
      have stepped : m.step (.merge now) = (m.merge now).1 := rfl
      have ran : m.run (.merge now :: rest) = (m.step (.merge now)).run rest := rfl
      rw [given] at places ⊢
      rw [stepped] at next extended ran
      rw [ran] at room ⊢
      have places' : (m.merge now).1.inbox.size + (submitted rest).length ≤ (m.merge now).1.inbox.capacity := by
        rw [emptied]
        exact Nat.le_trans (Nat.add_le_add_right (Nat.zero_le _) _) places
      exact (next places' room).trans (steady.forecast_merge sound now (extended.roomy room) _)
    · have given : submitted (.submit s :: rest) = s :: submitted rest := rfl
      rw [given, List.length_cons] at places
      rw [given, List.cons_append]
      have free : m.inbox.size < m.inbox.capacity := by omega
      have places' : (m.submit s).inbox.size + (submitted rest).length ≤ (m.submit s).inbox.capacity := by
        have size := Inbox.size_push steady.room s
        show (m.inbox.push s).size + _ ≤ m.inbox.capacity
        omega
      exact (next places' room).trans (forecast_submit free now s _)

/-- A merge in the end makes the forecast come true. -/
theorem Steady.outcome_run {m : Monitor} (steady : m.Steady) (sound : m.Sound) {now : Instant} {events : List Event}
    (only : ∀ event ∈ events, event = .merge now ∨ ∃ s, event = .submit s)
    (places : m.inbox.size + (submitted events).length ≤ m.inbox.capacity)
    (room : (m.run (events ++ [.merge now])).window.lexicon.Roomy) :
    (m.run (events ++ [.merge now])).outcome = m.forecast now (submitted events) := by
  rw [run_snoc] at room ⊢
  have steadyThen := steady.run events
  have soundThen := run_sound sound events
  have before := (steadyThen.merge_extends soundThen now).roomy room
  have foretold := steady.forecast_run sound only places before []
  rw [List.append_nil, ← steadyThen.forecast_merge soundThen now room] at foretold
  exact ((steadyThen.merge_settled now).forecast_nil (steadyThen.merge now)).symm.trans foretold

/-- Submissions with merges at one moment in between. -/
def Interleaves (now : Instant) (requests : List Submission) (events : List Event) : Prop :=
  events.filter (· ≠ .merge now) = requests.map .submit

variable {now : Instant} {requests : List Submission} {events : List Event}

theorem Interleaves.only (mixed : Interleaves now requests events) :
    ∀ event ∈ events, event = .merge now ∨ ∃ s, event = .submit s := by
  intro event member
  by_cases merge : event = .merge now
  · exact Or.inl merge
  · have kept : event ∈ events.filter (· ≠ .merge now) := List.mem_filter.mpr ⟨member, decide_eq_true merge⟩
    rw [show events.filter (· ≠ .merge now) = _ from mixed] at kept
    obtain ⟨s, _, same⟩ := List.mem_map.mp kept
    exact Or.inr ⟨s, same.symm⟩

theorem Interleaves.submitted_eq (mixed : Interleaves now requests events) : submitted events = requests := by
  have kept : submitted (events.filter (· ≠ .merge now)) = submitted events := by
    unfold submitted
    rw [List.filterMap_filter]
    refine List.filterMap_congr fun event _ => ?_
    cases event with
    | merge other => simp
    | _ => rfl
  rw [← kept, show events.filter (· ≠ .merge now) = _ from mixed, submitted, List.filterMap_map]
  exact List.filterMap_some

theorem Interleaves.of_submissions (now : Instant) (requests : List Submission) :
    Interleaves now requests (requests.map .submit) := by
  refine List.filter_eq_self.mpr fun event member => ?_
  obtain ⟨s, _, rfl⟩ := List.mem_map.mp member
  exact decide_eq_true fun same => (nomatch same)

theorem Interleaves.submitted_run (mixed : Interleaves now requests events) (history : List Event) :
    submitted (history ++ (events ++ [.merge now])) = submitted history ++ requests := by
  rw [submitted_append, submitted_append, mixed.submitted_eq]
  exact congrArg _ (List.append_nil _)

theorem Interleaves.outcome_eq (mixed : Interleaves now requests events) {m : Monitor} (steady : m.Steady)
    (sound : m.Sound) (places : m.inbox.size + requests.length ≤ m.inbox.capacity)
    (room : (m.run (events ++ [.merge now])).window.lexicon.Roomy) :
    (m.run (events ++ [.merge now])).outcome = m.forecast now requests := by
  have foretold := steady.outcome_run sound mixed.only (mixed.submitted_eq ▸ places) room
  rw [mixed.submitted_eq] at foretold
  exact foretold

theorem Faithful.figures_of_outcome {m m' : Monitor} (left : m.Faithful) (right : m'.Faithful)
    (same : m.outcome = m'.outcome) : m.roster.live.map Report.figures = m'.roster.live.map Report.figures := by
  have readings := congrArg (fun outcome => outcome.requests.map Prod.snd) same
  have reports := congrArg (fun outcome => outcome.reports.1 ++ outcome.reports.2.values) same
  simp only [outcome, List.map_map] at readings reports
  refine left.figures_eq right readings ?_
  rw [Roster.faces_live, Roster.faces_live]
  exact reports

/-- In every state, and while there is room for what is submitted: further
merges at the moment of the last one make no difference. The same requests are
kept, in the same order and with the same times; the same reports are there
and show the same; and as many requests were malformed, too old or displaced.
No word may run out of room, and no sum may stop. -/
theorem extra_merges_irrelevant {settings : Settings} (fit : settings.check = .ok ()) (start : Instant) :
    ∃ m, create settings start = .ok m ∧ ∀ history now requests events, Interleaves now requests events →
      let before := m.run history
      let once := before.run (requests.map .submit ++ [.merge now])
      let often := before.run (events ++ [.merge now])
      before.inbox.size + requests.length ≤ before.inbox.capacity →
      Submission.Moderate (submitted history ++ requests) →
      once.window.lexicon.Roomy → often.window.lexicon.Roomy →
      often.window.views.map View.timed = once.window.views.map View.timed ∧
      often.roster.live.map Report.figures = once.roster.live.map Report.figures ∧
      often.counters.malformed = once.counters.malformed ∧
      often.counters.expired = once.counters.expired ∧
      often.counters.displaced = once.counters.displaced := by
  obtain ⟨m, created⟩ := create_of_check fit start
  have sound := (create_start created).1
  have steady := (create_obeys fit created).steady
  refine ⟨m, created, fun history now requests events mixed places moderate roomOnce roomOften => ?_⟩
  have plain := Interleaves.of_submissions now requests
  have outcome {events : List Event} (mixed : Interleaves now requests events) :=
    mixed.outcome_eq (steady.run history) (run_sound sound history) places
  have faithful {events : List Event} (mixed : Interleaves now requests events) :
      ((m.run history).run (events ++ [.merge now])).Faithful := by
    rw [← run_append]
    exact run_faithful fit created (mixed.submitted_run history ▸ moderate)
  have same := (outcome mixed roomOften).trans (outcome plain roomOnce).symm
  exact ⟨congrArg Outcome.requests same, (faithful mixed).figures_of_outcome (faithful plain) same,
    congrArg Outcome.malformed same, congrArg Outcome.expired same, congrArg Outcome.displaced same⟩

def opened : List Event := [.submit { script := "first" }, .merge ⟨1000000000⟩]

def crowded : List Submission := [
  { script := "second", dictionary := ["group", "db"], tagNames := [0], tagValues := [1] },
  { script := "faulty", tagNames := [0] },
  { script := "third" },
  { script := "fourth" }]

/-- More requests come than the window holds; the second one is only kept for
a while if there are further merges. -/
def restless : List Event := [
  .submit { script := "second", dictionary := ["group", "db"], tagNames := [0], tagValues := [1] },
  .merge ⟨2000000000⟩,
  .submit { script := "faulty", tagNames := [0] },
  .submit { script := "third" },
  .merge ⟨2000000000⟩,
  .merge ⟨2000000000⟩,
  .submit { script := "fourth" }]

theorem restless_merges_irrelevant : ∃ m, create tight .epoch = .ok m ∧
    let once := (m.run opened).run (crowded.map .submit ++ [.merge ⟨2000000000⟩])
    let often := (m.run opened).run (restless ++ [.merge ⟨2000000000⟩])
    once.counters.accepted = 3 ∧ often.counters.accepted = 4 ∧
      often.window.views.map View.timed = once.window.views.map View.timed ∧
      often.roster.live.map Report.figures = once.roster.live.map Report.figures ∧
      often.counters.displaced = once.counters.displaced := by
  obtain ⟨m, created, irrelevant⟩ := extra_merges_irrelevant (show tight.check = .ok () from rfl) .epoch
  have places := passes_of_create created (fun m =>
    (m.run opened).inbox.size + crowded.length ≤ (m.run opened).inbox.capacity) (by decide +kernel)
  have once := passes_of_create created (fun m =>
    ((m.run opened).run (crowded.map .submit ++ [.merge ⟨2000000000⟩])).window.lexicon.Roomy ∧
      ((m.run opened).run (crowded.map .submit ++ [.merge ⟨2000000000⟩])).counters.accepted = 3) (by decide +kernel)
  have often := passes_of_create created (fun m =>
    ((m.run opened).run (restless ++ [.merge ⟨2000000000⟩])).window.lexicon.Roomy ∧
      ((m.run opened).run (restless ++ [.merge ⟨2000000000⟩])).counters.accepted = 4) (by decide +kernel)
  have moderate : Submission.Moderate (submitted opened ++ crowded) := by
    intro f cap stops
    cases f <;> cases stops <;> decide
  obtain ⟨roomOnce, acceptedOnce⟩ := of_decide_eq_true once
  obtain ⟨roomOften, acceptedOften⟩ := of_decide_eq_true often
  obtain ⟨requests, reports, _, _, displaced⟩ := irrelevant opened ⟨2000000000⟩ crowded restless rfl
    (of_decide_eq_true places) moderate roomOnce roomOften
  exact ⟨m, created, acceptedOnce, acceptedOften, requests, reports, displaced⟩

end Monitor

end Rollup
