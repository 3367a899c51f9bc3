import Rollup.Proofs.Rounds

namespace Rollup

namespace Station

/-- What became of a request that left the inbox. The worker has it in its
hands until a merge settles whether it comes into the window, is refused for a
fault, or is lost as more were taken than the window holds; unless it went to
make room in the inbox for another. -/
inductive Fate
  | taken
  | accepted
  | malformed
  | lost
  | dropped
deriving DecidableEq

structure Departure where
  request : Submission
  fate : Fate
deriving DecidableEq

/-- The request that waits longest, as it leaves. -/
def leaving (s : Station) (fate : Fate) : List Departure := (s.monitor.inbox.waiting.take 1).map (⟨·, fate⟩)

/-- A merge settles what was taken. The first `lost` of those that have no
fault find no room. -/
def settle (lost : Nat) : List Departure → List Departure
  | [] => []
  | d :: rest =>
    if d.fate ≠ .taken then d :: settle lost rest
    else if !d.request.isSound then ⟨d.request, .malformed⟩ :: settle lost rest
    else if 0 < lost then ⟨d.request, .lost⟩ :: settle (lost - 1) rest
    else ⟨d.request, .accepted⟩ :: settle lost rest

/-- How many of some requests without a fault the window has no room for, even
when it is empty. -/
def excess (s : Station) (taken : List Submission) : Nat :=
  (taken.filter (·.isSound)).length - s.monitor.window.capacity

/-- The departures up to an action and with those that it brings. -/
def note (s : Station) (log : List Departure) : Action → List Departure
  | .submit _ => if s.monitor.inbox.isFull then log ++ s.leaving .dropped else log
  | .takeOne => log ++ s.leaving .taken
  | .mergeTaken => settle (s.excess s.phase.hand) log
  | _ => log

/-- The requests that have left the inbox, in the order they left. -/
def departures (s : Station) (log : List Departure) : List Action → List Departure
  | [] => log
  | a :: rest => (s.act a).departures (s.note log a) rest

/-- The requests among some actions, in the order they are submitted. -/
def submitted (actions : List Action) : List Submission :=
  actions.filterMap fun
    | .submit request => some request
    | _ => none

@[simp] theorem submitted_append (before after : List Action) :
    submitted (before ++ after) = submitted before ++ submitted after := List.filterMap_append

/-- The requests that met a fate, in the order they left the inbox. -/
def met (log : List Departure) (fate : Fate) : List Submission := (log.filter (·.fate = fate)).map (·.request)

section Settling

variable {log before now : List Departure} {fate : Fate} {lost : Nat}

@[simp] theorem met_append (log more : List Departure) (fate : Fate) :
    met (log ++ more) fate = met log fate ++ met more fate := by
  rw [met, List.filter_append, List.map_append]
  rfl

theorem met_cons (d : Departure) (log : List Departure) (fate : Fate) :
    met (d :: log) fate = if d.fate = fate then d.request :: met log fate else met log fate := by
  by_cases same : d.fate = fate <;> simp [met, same]

theorem met_eq_nil (none : ∀ d ∈ log, d.fate ≠ fate) : met log fate = [] := by
  rw [met, List.filter_eq_nil_iff.mpr fun d member => by simpa using none d member]
  rfl

theorem settle_requests (lost : Nat) (log : List Departure) :
    (settle lost log).map (·.request) = log.map (·.request) := by
  fun_induction settle lost log <;> simp_all

theorem settle_fate {d : Departure} (member : d ∈ settle lost log) : d.fate ≠ .taken := by
  fun_induction settle lost log with
  | case1 => cases member
  | case2 lost d rest other ih =>
    rcases List.mem_cons.mp member with rfl | deeper
    · exact other
    · exact ih deeper
  | case3 lost d rest _ _ ih | case4 lost d rest _ _ _ ih | case5 lost d rest _ _ _ ih =>
    rcases List.mem_cons.mp member with rfl | deeper
    · simp
    · exact ih deeper

theorem settle_append (settled : ∀ d ∈ before, d.fate ≠ .taken) :
    settle lost (before ++ now) = before ++ settle lost now := by
  induction before with
  | nil => rfl
  | cons d rest ih =>
    rw [List.cons_append, settle, if_pos (settled d List.mem_cons_self),
      ih fun e member => settled e (List.mem_cons_of_mem d member)]
    rfl

/-- Those of the requests that were taken whom a merge leads to a fate. -/
def outcome (lost : Nat) (taken : List Submission) : Fate → List Submission
  | .accepted => (taken.filter (·.isSound)).drop lost
  | .malformed => taken.filter (!·.isSound)
  | .lost => (taken.filter (·.isSound)).take lost
  | .taken | .dropped => []

theorem met_settle_pending (pending : ∀ d ∈ now, d.fate = .taken ∨ d.fate = .dropped) (other : fate ≠ .taken) :
    met (settle lost now) fate = met now fate ++ outcome lost (met now .taken) fate := by
  induction now generalizing lost with
  | nil => cases fate <;> simp [settle, met, outcome]
  | cons d rest ih =>
    have later (lost : Nat) : met (settle lost rest) fate = met rest fate ++ outcome lost (met rest .taken) fate :=
      ih fun e member => pending e (List.mem_cons_of_mem d member)
    have fresh (neither : fate ≠ .dropped) : met rest fate = [] := met_eq_nil fun e member => by
      rcases pending e (List.mem_cons_of_mem d member) with same | same
      · exact same ▸ other.symm
      · exact same ▸ neither.symm
    rcases pending d List.mem_cons_self with taken | dropped
    · by_cases sound : d.request.isSound
      · cases lost with
        | zero => cases fate <;> simp_all [settle, met_cons, outcome]
        | succ lost => cases fate <;> simp_all [settle, met_cons, outcome]
      · cases fate <;> simp_all [settle, met_cons, outcome]
    · cases fate <;> simp_all [settle, met_cons, outcome]

/-- What a merge settled left before all that it did not settle yet. -/
def Ordered (log : List Departure) : Prop := ∃ before now, log = before ++ now ∧
  (∀ d ∈ before, d.fate ≠ .taken) ∧ ∀ d ∈ now, d.fate = .taken ∨ d.fate = .dropped

theorem Ordered.append {more : List Departure} (ordered : Ordered log)
    (pending : ∀ d ∈ more, d.fate = .taken ∨ d.fate = .dropped) : Ordered (log ++ more) := by
  obtain ⟨before, now, rfl, settled, rest⟩ := ordered
  refine ⟨before, now ++ more, List.append_assoc .., settled, fun d member => ?_⟩
  exact (List.mem_append.mp member).elim (rest d) (pending d)

theorem ordered_settle (lost : Nat) (log : List Departure) : Ordered (settle lost log) :=
  ⟨settle lost log, [], (List.append_nil _).symm, fun _ => settle_fate, by simp⟩

/-- A merge adds those that it leads to a fate behind those that met it before. -/
theorem Ordered.met_settle (ordered : Ordered log) (other : fate ≠ .taken) :
    met (settle lost log) fate = met log fate ++ outcome lost (met log .taken) fate := by
  obtain ⟨before, now, rfl, settled, pending⟩ := ordered
  rw [settle_append settled, met_append, met_append, met_append, met_eq_nil settled, List.nil_append,
    met_settle_pending pending other, List.append_assoc]

end Settling

theorem leaving_pending {s : Station} {fate : Fate} (either : fate = .taken ∨ fate = .dropped) :
    ∀ d ∈ s.leaving fate, d.fate = .taken ∨ d.fate = .dropped := by
  intro d member
  obtain ⟨request, _, rfl⟩ := List.mem_map.mp member
  exact either

theorem leaving_eq {s : Station} {oldest : Submission} {rest : List Submission}
    (waiting : s.monitor.inbox.waiting = oldest :: rest) (fate : Fate) : s.leaving fate = [⟨oldest, fate⟩] := by
  rw [leaving, waiting]
  rfl

/-- A move that leaves the monitor alone, and what the worker has in its hands. -/
structure Still (s t : Station) : Prop where
  monitor : t.monitor = s.monitor
  hand : t.phase.hand = s.phase.hand
  aged : t.phase.aged = s.phase.aged

theorem still_of_phase {s t : Station} {phase : Phase} (before : s.phase = phase) (monitor : t.monitor = s.monitor)
    (hand : t.phase.hand = phase.hand) (aged : t.phase.aged = phase.aged) : s.Still t :=
  ⟨monitor, before ▸ hand, before ▸ aged⟩

/-- All that an action does to requests. -/
inductive Move (s : Station) : Action → Prop
  | submits (request : Submission) : Move s (.submit request)
  | begins {last : Bool} (now : Instant) : s.phase = .resting last → Move s (.beginRound now)
  | takes {round : Round} {left : Nat} {oldest : Submission} {rest : List Submission} :
      s.phase = .taking round (left + 1) → s.monitor.inbox.waiting = oldest :: rest → Move s .takeOne
  | merges {round : Round} : s.phase = .merging round → Move s .mergeTaken
  | stays {a : Action} : s.Still (s.act a) → submitted [a] = [] → (∀ log, s.note log a = log) → Move s a

theorem move_of_allowed {s : Station} {a : Action} (allowed : s.allows a = true) : s.Move a := by
  have ready := allows_iff.mp allowed
  cases a with
  | submit request => exact .submits request
  | sendFlush =>
    have still : s.Still (s.act .sendFlush) := by
      refine ⟨?_, ?_, ?_⟩ <;>
      · simp only [act, sendFlush]
        split <;> rfl
    exact .stays still rfl fun _ => rfl
  | addClient => exact .stays ⟨rfl, rfl, rfl⟩ rfl fun _ => rfl
  | dropClient => exact .stays ⟨rfl, rfl, rfl⟩ rfl fun _ => rfl
  | requestShutdown => exact .stays ⟨rfl, rfl, rfl⟩ rfl fun _ => rfl
  | beginRound now =>
    obtain ⟨last, phase⟩ := ready
    exact .begins now phase
  | takeOne =>
    obtain ⟨round, left, phase, some⟩ := ready
    obtain ⟨oldest, rest, waiting⟩ := List.exists_cons_of_ne_nil some
    exact .takes phase waiting
  | stopTaking =>
    obtain ⟨round, left, phase, _⟩ := ready
    have still : s.Still (s.act .stopTaking) := by
      rw [act, stopTaking_eq phase]
      exact still_of_phase phase rfl rfl rfl
    exact .stays still rfl fun _ => rfl
  | mergeTaken =>
    obtain ⟨round, phase⟩ := ready
    exact .merges phase
  | releaseHeld =>
    obtain ⟨last, held, phase⟩ := ready
    have still : s.Still (s.act .releaseHeld) := by
      rw [act, releaseHeld_eq phase]
      exact still_of_phase phase rfl rfl rfl
    exact .stays still rfl fun _ => rfl
  | checkLast =>
    obtain ⟨last, phase⟩ := ready
    have still : s.Still (s.act .checkLast) := by
      cases last with
      | true =>
        rw [act, checkLast_stops phase]
        exact still_of_phase phase rfl rfl rfl
      | false =>
        rw [act, checkLast_goes_on phase]
        exact still_of_phase phase rfl rfl rfl
    exact .stays still rfl fun _ => rfl

/-- What the departures since a monitor was `opened` tell of its inbox: the
requests that left and those that wait are all that there ever were, in order;
as many of them were dropped as are counted; and what the worker has in its
hands is what it took and has not merged. -/
structure Queued (s : Station) (opened : Monitor) (log : List Departure) (requests : List Submission) : Prop where
  fits : s.monitor.inbox.size ≤ s.monitor.inbox.capacity
  room : 0 < s.monitor.inbox.capacity
  order : log.map (·.request) ++ s.monitor.inbox.waiting = requests
  dropped : s.monitor.counters.inboxDropped = opened.counters.inboxDropped + (met log .dropped).length
  hand : met log .taken = s.phase.hand

namespace Queued

variable {s t : Station} {opened : Monitor} {log : List Departure} {requests : List Submission}

/-- What leaves inbox and hands as they are changes nothing about it. -/
theorem quiet (queued : s.Queued opened log requests) (inbox : t.monitor.inbox = s.monitor.inbox)
    (counted : t.monitor.counters.inboxDropped = s.monitor.counters.inboxDropped)
    (hand : t.phase.hand = s.phase.hand) : t.Queued opened log requests where
  fits := inbox ▸ queued.fits
  room := inbox ▸ queued.room
  order := inbox ▸ queued.order
  dropped := counted.trans queued.dropped
  hand := queued.hand.trans hand.symm

theorem submit (queued : s.Queued opened log requests) (request : Submission) :
    (s.submit request).Queued opened (s.note log (.submit request)) (requests ++ [request]) := by
  obtain ⟨fits, room, order, counted, hand⟩ := queued
  have size := s.monitor.inbox.size_push room request
  have counter : (s.submit request).monitor.counters.inboxDropped =
      s.monitor.counters.inboxDropped + if s.monitor.inbox.isFull then 1 else 0 := rfl
  have inbox : (s.submit request).monitor.inbox = s.monitor.inbox.push request := rfl
  unfold note
  by_cases full : s.monitor.inbox.isFull = true
  · rw [if_pos full] at size counter ⊢
    have least : s.monitor.inbox.capacity ≤ s.monitor.inbox.size := of_decide_eq_true full
    cases waiting : s.monitor.inbox.waiting with
    | nil =>
      rw [Inbox.size, waiting, List.length_nil] at least
      omega
    | cons oldest rest =>
      have pushed : (s.monitor.inbox.push request).waiting = rest ++ [request] := by
        simp [Inbox.push, full, waiting]
      rw [waiting] at order
      rw [leaving_eq waiting]
      refine ⟨?_, room, ?_, ?_, ?_⟩
      · rw [inbox]
        show _ ≤ s.monitor.inbox.capacity
        omega
      · rw [inbox, pushed, ← order]
        simp
      · rw [counter, counted, met_append, List.length_append]
        exact Nat.add_assoc ..
      · rw [met_append]
        exact (List.append_nil _).trans hand
  · rw [if_neg full] at size counter ⊢
    have below : s.monitor.inbox.size < s.monitor.inbox.capacity := by simpa [Inbox.isFull] using full
    have pushed : (s.monitor.inbox.push request).waiting = s.monitor.inbox.waiting ++ [request] := by
      simp [Inbox.push, full]
    refine ⟨?_, room, ?_, counter.trans counted, hand⟩
    · rw [inbox]
      show _ ≤ s.monitor.inbox.capacity
      omega
    · rw [inbox, pushed, ← order, List.append_assoc]

theorem takeOne (queued : s.Queued opened log requests) {round : Round} {left : Nat} {oldest : Submission}
    {rest : List Submission} (phase : s.phase = .taking round (left + 1))
    (waiting : s.monitor.inbox.waiting = oldest :: rest) :
    s.takeOne.Queued opened (s.note log .takeOne) requests := by
  obtain ⟨fits, room, order, counted, hand⟩ := queued
  have size : s.monitor.inbox.size = rest.length + 1 := by simp [Inbox.size, waiting]
  have held : met log .taken = round.taken := by
    rw [hand, phase]
    rfl
  rw [waiting] at order
  rw [takeOne_eq phase waiting, note, leaving_eq waiting]
  refine ⟨?_, room, ?_, ?_, ?_⟩
  · show rest.length ≤ s.monitor.inbox.capacity
    omega
  · rw [← order]
    simp
  · rw [met_append]
    exact counted.trans (by simp [met])
  · rw [met_append, held]
    rfl

theorem mergeTaken (queued : s.Queued opened log requests) (ordered : Ordered log) (steady : s.monitor.window.Steady)
    {round : Round} (phase : s.phase = .merging round) :
    s.mergeTaken.Queued opened (s.note log .mergeTaken) requests := by
  obtain ⟨fits, room, order, counted, hand⟩ := queued
  obtain ⟨roster, tornDown, finished⟩ := Monitor.finishMerge_eq steady round.now round.expired round.taken
  rw [mergeTaken_eq phase, note, finished]
  refine ⟨fits, room, ?_, ?_, met_eq_nil fun d => settle_fate⟩
  · rw [settle_requests]
    exact order
  · rw [ordered.met_settle (by simp)]
    exact counted.trans (by simp [outcome])

end Queued

/-- What the departures since a monitor was `opened` tell of its window and its
counters: what was accepted came behind the requests that were there, and the
window shows the last of these all; what was refused had a fault; and each that
was accepted, refused or lost is counted as such, once those that aged out are
too. -/
structure Booked (opened : Monitor) (log : List Departure) (w : Window) (counters : Counters) (aged : Nat) : Prop where
  ordered : Ordered log
  sound : w.Sound
  steady : w.Steady
  accepted : counters.accepted = opened.counters.accepted + (met log .accepted).length
  malformed : counters.malformed = opened.counters.malformed + (met log .malformed).length
  faults : ∀ request ∈ met log .malformed, request.isSound = false
  flawless : ∀ request, request ∈ met log .accepted ∨ request ∈ met log .lost → request.isSound = true
  whole : w.size + aged + counters.expired + counters.displaced = opened.window.size + opened.counters.expired +
    opened.counters.displaced + (met log .accepted).length + (met log .lost).length
  told : ∀ request ∈ met log .accepted, request.Told w.lexicon
  shows : w.views.map View.reading <:+ opened.window.views.map View.reading ++
    (met log .accepted).map (·.readingIn w.lexicon)

namespace Booked

variable {opened : Monitor} {log more : List Departure} {w : Window} {counters : Counters} {aged : Nat}

/-- Requests that are dropped, or come into the hands of the worker, change
nothing about it. -/
theorem append (booked : Booked opened log w counters aged) (pending : ∀ d ∈ more, d.fate = .taken ∨ d.fate = .dropped)
    (n : Nat) : Booked opened (log ++ more) w { counters with inboxDropped := n } aged := by
  have same (fate : Fate) (untaken : fate ≠ .taken) (undropped : fate ≠ .dropped) :
      met (log ++ more) fate = met log fate := by
    have none : met more fate = [] := met_eq_nil fun d member => by
      rcases pending d member with same | same
      · exact same ▸ untaken.symm
      · exact same ▸ undropped.symm
    rw [met_append, none, List.append_nil]
  have accepted := same .accepted (by simp) (by simp)
  have malformed := same .malformed (by simp) (by simp)
  have lost := same .lost (by simp) (by simp)
  exact ⟨booked.ordered.append pending, booked.sound, booked.steady, accepted ▸ booked.accepted,
    malformed ▸ booked.malformed, malformed ▸ booked.faults, lost ▸ accepted ▸ booked.flawless,
    lost ▸ accepted ▸ booked.whole, accepted ▸ booked.told, accepted ▸ booked.shows⟩

/-- The requests that age out leave the window and are counted later. -/
theorem dropOldest (booked : Booked opened log w counters 0) {n : Nat} (few : n ≤ w.size) :
    Booked opened log (w.dropOldest n) counters n := by
  obtain ⟨ordered, sound, steady, accepted, malformed, faults, flawless, whole, told, shows⟩ := booked
  have lexicon := w.dropOldest_lexicon n
  refine ⟨ordered, sound.dropOldest_sound n, steady.dropOldest n, accepted, malformed, faults, flawless, ?_,
    lexicon.symm ▸ told, ?_⟩
  · rw [Window.size_dropOldest]
    omega
  · rw [lexicon, sound.dropOldest_views, List.map_drop]
    exact (List.drop_suffix n _).trans shows

/-- A merge settles the requests in the hands of the worker, and the newest of
those that have no fault come into the window. -/
theorem merge (booked : Booked opened log w counters aged) (now : Instant) {taken came kept : List Submission}
    {merge : Merge} (hand : met log .taken = taken) (sound : came = taken.filter (·.isSound))
    (newest : kept = came.rtake w.capacity) (appended : merge.appended = kept.length)
    (malformed : merge.malformed = (taken.filter (!·.isSound)).length) (expired : merge.expired = aged)
    (displaced : merge.displaced = w.size + came.length - w.capacity) :
    Booked opened (settle (came.length - w.capacity) log)
      ((w.dropOldest (w.size + kept.length - w.capacity)).keepAll now kept) (counters.record merge) 0 := by
  have size := booked.steady.size_le
  have few : kept.length = min came.length w.capacity := newest ▸ Monitor.length_rtake _ _
  have settled {fate : Fate} (other : fate ≠ .taken) : met (settle (came.length - w.capacity) log) fate =
      met log fate ++ outcome (came.length - w.capacity) taken fate := hand ▸ booked.ordered.met_settle other
  have accepted : met (settle (came.length - w.capacity) log) .accepted = met log .accepted ++ kept := by
    rw [settled (by simp), newest, sound]
    rfl
  have refused : met (settle (came.length - w.capacity) log) .malformed =
      met log .malformed ++ taken.filter (!·.isSound) := settled (by simp)
  have lost : met (settle (came.length - w.capacity) log) .lost =
      met log .lost ++ came.take (came.length - w.capacity) := by
    rw [settled (by simp), sound]
    rfl
  have renews : w.Renews _ (w.size + kept.length - w.capacity) kept :=
    booked.sound.renews booked.steady now (by omega)
  generalize (w.dropOldest (w.size + kept.length - w.capacity)).keepAll now kept = after at *
  have fit (s : Submission) (member : s ∈ came) : s.isSound = true := (List.mem_filter.mp (sound ▸ member)).2
  refine ⟨ordered_settle _ _, renews.sound, renews.steady, ?_, ?_, ?_, ?_, ?_, ?_, ?_⟩
  · rw [accepted, List.length_append, ← appended, ← Nat.add_assoc, ← booked.accepted]
    rfl
  · rw [refused, List.length_append, ← malformed, ← Nat.add_assoc, ← booked.malformed]
    rfl
  · rw [refused]
    intro request member
    rcases List.mem_append.mp member with old | new
    · exact booked.faults request old
    · simpa using (List.mem_filter.mp new).2
  · rw [accepted, lost]
    intro request member
    rcases member with member | member <;> rcases List.mem_append.mp member with old | new
    · exact booked.flawless request (Or.inl old)
    · exact fit request (List.mem_of_mem_drop (newest ▸ new))
    · exact booked.flawless request (Or.inr old)
    · exact fit request (List.mem_of_mem_take new)
  · have whole := booked.whole
    rw [accepted, lost, List.length_append, List.length_append, List.length_take, renews.size]
    simp only [Counters.record, expired, displaced]
    omega
  · rw [accepted]
    intro request member
    rcases List.mem_append.mp member with old | new
    · exact (booked.told request old).extends renews.extended
    · exact renews.told request new
  · have before : (met log .accepted).map (·.readingIn after.lexicon) = (met log .accepted).map (·.readingIn w.lexicon) :=
      List.map_congr_left fun request member => booked.told request member after.lexicon renews.extended
    rw [renews.readings, accepted, List.map_append, before, ← List.append_assoc]
    obtain ⟨gone, same⟩ := (List.drop_suffix _ _).trans booked.shows
    exact ⟨gone, by rw [← same, List.append_assoc]⟩

end Booked

/-- The departures since a monitor was `opened` tell what the station did to
all requests. -/
structure Logged (s : Station) (opened : Monitor) (log : List Departure) (requests : List Submission) : Prop where
  queued : s.Queued opened log requests
  booked : Booked opened log s.monitor.window s.monitor.counters s.phase.aged

section Log

variable {s : Station} {opened : Monitor} {log : List Departure} {requests : List Submission}

theorem Logged.act (logged : s.Logged opened log requests) {a : Action} (allowed : s.allows a = true) :
    (s.act a).Logged opened (s.note log a) (requests ++ submitted [a]) := by
  obtain ⟨queued, booked⟩ := logged
  cases move_of_allowed allowed with
  | submits request =>
    refine ⟨queued.submit request, ?_⟩
    show Booked opened (if s.monitor.inbox.isFull then log ++ s.leaving .dropped else log) _ _ _
    split
    · exact booked.append (leaving_pending (Or.inr rfl)) _
    · exact log.append_nil ▸ booked.append (by simp) _
  | begins now phase =>
    obtain ⟨roster, evicted⟩ := s.monitor.evict_eq (s.monitor.expiring now)
    have still : s.phase.hand = [] ∧ s.phase.aged = 0 := by simp [phase, Phase.hand, Phase.aged]
    rw [still.2] at booked
    rw [Station.act, beginRound_eq phase, evicted]
    exact ⟨(requests.append_nil).symm ▸ queued.quiet rfl rfl still.1.symm, booked.dropOldest (s.monitor.expiring_le now)⟩
  | takes phase waiting =>
    refine ⟨(requests.append_nil).symm ▸ queued.takeOne phase waiting, ?_⟩
    have booked := booked.append (leaving_pending (s := s) (Or.inl rfl)) s.monitor.counters.inboxDropped
    rw [phase] at booked
    rw [Station.act, takeOne_eq phase waiting]
    exact booked
  | @merges round phase =>
    refine ⟨(requests.append_nil).symm ▸ queued.mergeTaken booked.ordered booked.steady phase, ?_⟩
    obtain ⟨roster, tornDown, finished⟩ := Monitor.finishMerge_eq booked.steady round.now round.expired round.taken
    have still : s.phase.hand = round.taken ∧ s.phase.aged = round.expired := by simp [phase, Phase.hand, Phase.aged]
    rw [still.2] at booked
    rw [Station.act, mergeTaken_eq phase, finished, note, excess, still.1]
    exact booked.merge round.now (queued.hand.trans still.1) rfl rfl rfl rfl rfl rfl
  | stays still none quiet =>
    rw [none, List.append_nil, quiet]
    exact ⟨queued.quiet (by rw [still.monitor]) (by rw [still.monitor]) still.hand, by
      rw [still.monitor, still.aged]
      exact booked⟩

theorem Logged.play (logged : s.Logged opened log requests) {actions : List Action} (legal : s.legal actions = true) :
    (s.play actions).Logged opened (s.departures log actions) (requests ++ submitted actions) := by
  induction actions generalizing s log requests with
  | nil => simpa [submitted, Station.play, departures] using logged
  | cons a rest ih =>
    obtain ⟨allowed, legalRest⟩ := Bool.and_eq_true_iff.mp legal
    have later := ih (logged.act allowed) legalRest
    rw [List.append_assoc, ← submitted_append] at later
    exact later

end Log

end Station

end Rollup
