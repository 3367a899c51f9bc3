import Rollup.Proofs.Departures
import Rollup.Proofs.Reports

namespace Rollup

namespace Phase

/-- The flush signals that the worker holds. -/
def held : Phase → List Nat
  | .taking round _ => round.held
  | .merging round => round.held
  | .releasing _ held => held
  | _ => []

/-- Whether the last round has begun. -/
def closing : Phase → Bool
  | .resting _ => false
  | .taking round _ => round.last
  | .merging round => round.last
  | .releasing last _ => last
  | .checking last => last
  | .gone => true

/-- Whether the worker has seen that it shall stop. -/
def ending : Phase → Bool
  | .resting last => last
  | phase => phase.closing

theorem ending_of_closing {phase : Phase} (closing : phase.closing = true) : phase.ending = true := by
  cases phase with
  | resting last => cases closing
  | _ => exact closing

end Phase

namespace Station

/-- The first `n` requests have left the inbox, and none of them is in the hands
of the worker any more. -/
def Settled (log : List Departure) (n : Nat) : Prop := n ≤ log.length ∧ ∀ d ∈ log.take n, d.fate ≠ .taken

/-- The first `n` requests will be settled when the worker is through with its
round. While it takes requests out, those of them that still wait are no more
than it may take. -/
def Covers (log : List Departure) (n : Nat) : Phase → Prop
  | .taking _ left => n ≤ log.length + left
  | .merging _ => n ≤ log.length
  | _ => Settled log n

theorem Settled.append {log : List Departure} {n : Nat} (settled : Settled log n) (more : List Departure) :
    Settled (log ++ more) n := by
  obtain ⟨left, fates⟩ := settled
  refine ⟨by rw [List.length_append]; omega, ?_⟩
  rw [List.take_append_of_le_length left]
  exact fates

theorem settled_settle {log : List Departure} {n : Nat} (left : n ≤ log.length) (lost : Nat) :
    Settled (settle lost log) n := by
  have requests := congrArg List.length (settle_requests lost log)
  rw [List.length_map, List.length_map] at requests
  exact ⟨requests ▸ left, fun d member => settle_fate (List.mem_of_mem_take member)⟩

theorem Settled.note {log : List Departure} {n : Nat} (settled : Settled log n) (s : Station) (a : Action) :
    Settled (s.note log a) n := by
  unfold Station.note
  split
  · split
    · exact settled.append _
    · exact settled
  · exact settled.append _
  · exact settled_settle settled.1 _
  · exact settled

theorem Covers.append {log : List Departure} {n : Nat} {phase : Phase} (covers : Covers log n phase)
    (more : List Departure) : Covers (log ++ more) n phase := by
  cases phase with
  | taking round left =>
    have enough : n ≤ log.length + left := covers
    show n ≤ (log ++ more).length + left
    rw [List.length_append]
    omega
  | merging round =>
    have enough : n ≤ log.length := covers
    show n ≤ (log ++ more).length
    rw [List.length_append]
    omega
  | _ => exact Settled.append covers more

theorem sendFlush_phase (s : Station) : s.sendFlush.phase = s.phase := by
  unfold sendFlush
  dsimp only
  split <;> rfl

section Act

variable {s : Station} {opened : Monitor} {log : List Departure} {requests : List Submission} {n : Nat} {a : Action}

theorem Logged.total (logged : s.Logged opened log requests) :
    log.length + s.monitor.inbox.size = requests.length := by
  rw [← logged.queued.order, List.length_append, List.length_map]
  rfl

/-- A new round covers all that were submitted before it began. -/
theorem Logged.covers_round (logged : s.Logged opened log requests) (known : n ≤ requests.length) {last : Bool}
    (phase : s.phase = .resting last) (now : Instant) : Covers log n (s.beginRound now).phase := by
  have total := logged.total
  have fits := logged.queued.fits
  rw [beginRound_eq phase]
  show n ≤ log.length + s.monitor.inbox.capacity
  omega

/-- Requests that are covered stay so, whatever happens. -/
theorem Covers.act (covers : Covers log n s.phase) (logged : s.Logged opened log requests)
    (known : n ≤ requests.length) (allowed : s.allows a = true) : Covers (s.note log a) n (s.act a).phase := by
  have ready := allows_iff.mp allowed
  cases a with
  | submit request =>
    show Covers (if s.monitor.inbox.isFull then log ++ s.leaving .dropped else log) n s.phase
    split
    · exact covers.append _
    · exact covers
  | sendFlush =>
    show Covers log n s.sendFlush.phase
    rw [s.sendFlush_phase]
    exact covers
  | addClient => exact covers
  | dropClient => exact covers
  | requestShutdown => exact covers
  | beginRound now =>
    obtain ⟨last, phase⟩ := ready
    exact logged.covers_round known phase now
  | takeOne =>
    obtain ⟨round, left, phase, some⟩ := ready
    obtain ⟨oldest, rest, waiting⟩ := List.exists_cons_of_ne_nil some
    rw [phase] at covers
    have enough : n ≤ log.length + (left + 1) := covers
    show Covers (log ++ s.leaving .taken) n s.takeOne.phase
    rw [takeOne_eq phase waiting, leaving_eq waiting]
    show n ≤ (log ++ [_]).length + left
    rw [List.length_append, List.length_singleton]
    omega
  | stopTaking =>
    obtain ⟨round, left, phase, done⟩ := ready
    have total := logged.total
    rw [phase] at covers
    have enough : n ≤ log.length + left := covers
    show Covers log n s.stopTaking.phase
    rw [stopTaking_eq phase]
    show n ≤ log.length
    rcases done with none | empty
    · omega
    · rw [Inbox.size, empty, List.length_nil] at total
      omega
  | mergeTaken =>
    obtain ⟨round, phase⟩ := ready
    rw [phase] at covers
    show Covers (settle _ log) n s.mergeTaken.phase
    rw [mergeTaken_eq phase]
    exact settled_settle covers _
  | releaseHeld =>
    obtain ⟨last, held, phase⟩ := ready
    rw [phase] at covers
    show Covers log n s.releaseHeld.phase
    rw [releaseHeld_eq phase]
    exact covers
  | checkLast =>
    obtain ⟨last, phase⟩ := ready
    rw [phase] at covers
    show Covers log n s.checkLast.phase
    cases last with
    | true =>
      rw [checkLast_stops phase]
      exact covers
    | false =>
      rw [checkLast_goes_on phase]
      exact covers

/-- The last round is under way if it was before, or if a round begins. -/
theorem closing_act (allowed : s.allows a = true) (closing : (s.act a).phase.closing = true) :
    s.phase.closing = true ∨ ∃ now last, a = .beginRound now ∧ s.phase = .resting last := by
  have ready := allows_iff.mp allowed
  cases a with
  | submit request => exact Or.inl closing
  | sendFlush =>
    have same : (s.act .sendFlush).phase = s.phase := s.sendFlush_phase
    rw [same] at closing
    exact Or.inl closing
  | addClient => exact Or.inl closing
  | dropClient => exact Or.inl closing
  | requestShutdown => exact Or.inl closing
  | beginRound now =>
    obtain ⟨last, phase⟩ := ready
    exact Or.inr ⟨now, last, rfl, phase⟩
  | takeOne =>
    obtain ⟨round, left, phase, some⟩ := ready
    obtain ⟨request, rest, waiting⟩ := List.exists_cons_of_ne_nil some
    rw [Station.act, takeOne_eq phase waiting] at closing
    exact Or.inl (by rw [phase]; exact closing)
  | stopTaking =>
    obtain ⟨round, left, phase, _⟩ := ready
    rw [Station.act, stopTaking_eq phase] at closing
    exact Or.inl (by rw [phase]; exact closing)
  | mergeTaken =>
    obtain ⟨round, phase⟩ := ready
    rw [Station.act, mergeTaken_eq phase] at closing
    exact Or.inl (by rw [phase]; exact closing)
  | releaseHeld =>
    obtain ⟨last, held, phase⟩ := ready
    rw [Station.act, releaseHeld_eq phase] at closing
    exact Or.inl (by rw [phase]; exact closing)
  | checkLast =>
    obtain ⟨last, phase⟩ := ready
    cases last with
    | true => exact Or.inl (by rw [phase]; rfl)
    | false =>
      rw [Station.act, checkLast_goes_on phase] at closing
      cases closing

/-- What the last round covers while it is under way, it covers to its end. -/
theorem Logged.closing_covers (logged : s.Logged opened log requests) (known : n ≤ requests.length)
    (covers : s.phase.closing = true → Covers log n s.phase) (allowed : s.allows a = true)
    (closing : (s.act a).phase.closing = true) : Covers (s.note log a) n (s.act a).phase := by
  rcases closing_act allowed closing with before | ⟨now, last, rfl, phase⟩
  · exact (covers before).act logged known allowed
  · exact logged.covers_round known phase now

end Act

section Signals

variable {s : Station} {a : Action}

theorem shutdown_act (other : a ≠ .requestShutdown) : (s.act a).shutdown = s.shutdown := by
  cases a with
  | requestShutdown => exact absurd rfl other
  | submit request => rfl
  | addClient => rfl
  | dropClient => rfl
  | takeOne =>
    simp only [act, takeOne]
    split
    · split <;> rfl
    · rfl
  | _ =>
    simp only [act, sendFlush, beginRound, stopTaking, mergeTaken, releaseHeld, checkLast]
    split <;> rfl

theorem shutdown_play {actions : List Action} (none : .requestShutdown ∉ actions) :
    (s.play actions).shutdown = s.shutdown := by
  induction actions generalizing s with
  | nil => rfl
  | cons a rest ih =>
    have other : a ≠ .requestShutdown := fun same => none (same ▸ List.mem_cons_self)
    exact (ih fun member => none (List.mem_cons_of_mem a member)).trans (shutdown_act other)

/-- How a flush signal can come to wait, to be held and to be released. -/
structure Passed (s : Station) (a : Action) (signal : Nat) : Prop where
  next : s.nextSignal ≤ (s.act a).nextSignal
  waits : signal ∈ (s.act a).signals →
    signal ∈ s.signals ∧ (∀ now, a ≠ .beginRound now) ∨ signal = s.nextSignal ∧ signal < (s.act a).nextSignal
  held : signal ∈ (s.act a).phase.held → signal ∈ s.phase.held ∨ signal ∈ s.signals ∧ ∃ now last,
    a = .beginRound now ∧ s.phase = .resting last
  released : signal ∈ (s.act a).released → signal ∈ s.released ∨
    signal ∈ s.phase.held ∧ (∃ last held, s.phase = .releasing last held) ∨
    signal ∈ s.signals ∧ s.phase = .checking true ∨ signal = s.nextSignal ∧ signal < (s.act a).nextSignal

/-- Where worker and signals stay as they are, so does a signal. -/
theorem Passed.quiet {signal : Nat} (other : ∀ now, a ≠ .beginRound now) (next : (s.act a).nextSignal = s.nextSignal)
    (signals : (s.act a).signals = s.signals) (held : (s.act a).phase.held = s.phase.held)
    (released : (s.act a).released = s.released) : s.Passed a signal where
  next := Nat.le_of_eq next.symm
  waits member := Or.inl ⟨signals ▸ member, other⟩
  held member := Or.inl (held ▸ member)
  released member := Or.inl (released ▸ member)

theorem passed (allowed : s.allows a = true) (signal : Nat) : s.Passed a signal := by
  have ready := allows_iff.mp allowed
  cases a with
  | submit request => exact .quiet (by simp) rfl rfl rfl rfl
  | addClient => exact .quiet (by simp) rfl rfl rfl rfl
  | dropClient => exact .quiet (by simp) rfl rfl rfl rfl
  | requestShutdown => exact .quiet (by simp) rfl rfl rfl rfl
  | sendFlush =>
    have same : (s.act .sendFlush).phase = s.phase := s.sendFlush_phase
    have next : (s.act .sendFlush).nextSignal = s.nextSignal + 1 := by
      simp only [act, sendFlush]
      split <;> rfl
    refine ⟨by omega, fun member => ?_, fun member => Or.inl (same ▸ member), fun member => ?_⟩
    · by_cases gone : s.phase = .gone
      · rw [act, sendFlush_gone gone] at member
        exact Or.inl ⟨member, by simp⟩
      · rw [act, sendFlush_waits gone, List.mem_append, List.mem_singleton] at member
        rcases member with old | new
        · exact Or.inl ⟨old, by simp⟩
        · exact Or.inr ⟨by omega, by omega⟩
    · by_cases gone : s.phase = .gone
      · rw [act, sendFlush_gone gone, List.mem_append, List.mem_singleton] at member
        rcases member with old | new
        · exact Or.inl old
        · exact Or.inr (Or.inr (Or.inr ⟨by omega, by omega⟩))
      · rw [act, sendFlush_waits gone] at member
        exact Or.inl member
  | beginRound now =>
    obtain ⟨last, phase⟩ := ready
    have began := beginRound_eq phase now
    refine ⟨by rw [act, began], fun member => ?_, fun member => ?_, fun member => ?_⟩
    · rw [act, began] at member
      cases member
    · rw [act, began] at member
      exact Or.inr ⟨member, now, last, rfl, phase⟩
    · rw [act, began] at member
      exact Or.inl member
  | takeOne =>
    obtain ⟨round, left, phase, some⟩ := ready
    obtain ⟨request, rest, waiting⟩ := List.exists_cons_of_ne_nil some
    refine .quiet (by simp) ?_ ?_ ?_ ?_ <;> simp [act, takeOne_eq phase waiting, phase, Phase.held]
  | stopTaking =>
    obtain ⟨round, left, phase, _⟩ := ready
    refine .quiet (by simp) ?_ ?_ ?_ ?_ <;> simp [act, stopTaking_eq phase, phase, Phase.held]
  | mergeTaken =>
    obtain ⟨round, phase⟩ := ready
    refine .quiet (by simp) ?_ ?_ ?_ ?_ <;> simp [act, mergeTaken_eq phase, phase, Phase.held]
  | releaseHeld =>
    obtain ⟨last, held, phase⟩ := ready
    have next := releaseHeld_eq phase
    refine ⟨by rw [act, next], fun member => ?_, fun member => ?_, fun member => ?_⟩
    · rw [act, next] at member
      exact Or.inl ⟨member, by simp⟩
    · rw [act, next] at member
      cases member
    · rw [act, next] at member
      rcases List.mem_append.mp member with before | there
      · exact Or.inl before
      · exact Or.inr (Or.inl ⟨by rw [phase]; exact there, last, held, phase⟩)
  | checkLast =>
    obtain ⟨last, phase⟩ := ready
    cases last with
    | true =>
      have next := checkLast_stops phase
      refine ⟨by rw [act, next], fun member => ?_, fun member => ?_, fun member => ?_⟩
      · rw [act, next] at member
        cases member
      · rw [act, next] at member
        cases member
      · rw [act, next] at member
        rcases List.mem_append.mp member with before | there
        · exact Or.inl before
        · exact Or.inr (Or.inr (Or.inl ⟨there, phase⟩))
    | false =>
      have next := checkLast_goes_on phase
      refine .quiet (by simp) ?_ ?_ ?_ ?_ <;> simp [act, next, phase, Phase.held]

end Signals

/-- What holds all the time: flush signals that were sent have numbers that will
not be given out again, and the worker sees that it shall stop only when it is
told to, or no client is left. -/
structure Regular (s : Station) : Prop where
  issued : ∀ signal, signal ∈ s.signals ∨ signal ∈ s.phase.held ∨ signal ∈ s.released → signal < s.nextSignal
  ending : s.phase.ending = true → s.shutdown = true ∨ s.clients = 0

section Runs

variable {s : Station} {opened : Monitor} {log : List Departure} {requests : List Submission} {n : Nat} {a : Action}

theorem Regular.act_issued (regular : s.Regular) (allowed : s.allows a = true) (signal : Nat)
    (known : signal ∈ (s.act a).signals ∨ signal ∈ (s.act a).phase.held ∨ signal ∈ (s.act a).released) :
    signal < (s.act a).nextSignal := by
  obtain ⟨next, waits, held, released⟩ := passed allowed signal
  have old (before : signal ∈ s.signals ∨ signal ∈ s.phase.held ∨ signal ∈ s.released) :
      signal < (s.act a).nextSignal := Nat.lt_of_lt_of_le (regular.issued signal before) next
  rcases known with there | there | there
  · rcases waits there with ⟨before, _⟩ | ⟨_, new⟩
    · exact old (Or.inl before)
    · exact new
  · rcases held there with before | ⟨before, _⟩
    · exact old (Or.inr (Or.inl before))
    · exact old (Or.inl before)
  · rcases released there with before | ⟨before, _⟩ | ⟨before, _⟩ | ⟨_, new⟩
    · exact old (Or.inr (Or.inr before))
    · exact old (Or.inr (Or.inl before))
    · exact old (Or.inl before)
    · exact new

theorem Regular.act_ending (regular : s.Regular) (allowed : s.allows a = true)
    (ending : (s.act a).phase.ending = true) : (s.act a).shutdown = true ∨ (s.act a).clients = 0 := by
  have ready := allows_iff.mp allowed
  cases a with
  | submit request => exact regular.ending ending
  | sendFlush =>
    have same : (s.act .sendFlush).phase = s.phase := s.sendFlush_phase
    have clients : (s.act .sendFlush).clients = s.clients := by
      simp only [act, sendFlush]
      split <;> rfl
    rw [same] at ending
    rw [shutdown_act (by simp), clients]
    exact regular.ending ending
  | addClient =>
    have some : 0 < s.clients := ready
    rcases regular.ending ending with told | none
    · exact Or.inl told
    · omega
  | dropClient =>
    refine (regular.ending ending).imp_right fun none => ?_
    show s.clients - 1 = 0
    omega
  | requestShutdown => exact Or.inl rfl
  | beginRound now =>
    obtain ⟨last, phase⟩ := ready
    rw [act, beginRound_eq phase] at ending ⊢
    exact regular.ending (by rw [phase]; exact ending)
  | takeOne =>
    obtain ⟨round, left, phase, some⟩ := ready
    obtain ⟨request, rest, waiting⟩ := List.exists_cons_of_ne_nil some
    rw [act, takeOne_eq phase waiting] at ending ⊢
    exact regular.ending (by rw [phase]; exact ending)
  | stopTaking =>
    obtain ⟨round, left, phase, _⟩ := ready
    rw [act, stopTaking_eq phase] at ending ⊢
    exact regular.ending (by rw [phase]; exact ending)
  | mergeTaken =>
    obtain ⟨round, phase⟩ := ready
    rw [act, mergeTaken_eq phase] at ending ⊢
    exact regular.ending (by rw [phase]; exact ending)
  | releaseHeld =>
    obtain ⟨last, held, phase⟩ := ready
    rw [act, releaseHeld_eq phase] at ending ⊢
    exact regular.ending (by rw [phase]; exact ending)
  | checkLast =>
    obtain ⟨last, phase⟩ := ready
    cases last with
    | true =>
      rw [act, checkLast_stops phase]
      exact regular.ending (by rw [phase]; rfl)
    | false =>
      rw [act, checkLast_goes_on phase] at ending ⊢
      simpa [Phase.ending] using ending

theorem Regular.act (regular : s.Regular) (allowed : s.allows a = true) : (s.act a).Regular where
  issued := regular.act_issued allowed
  ending := regular.act_ending allowed

theorem Regular.play {actions : List Action} (regular : s.Regular) (legal : s.legal actions = true) :
    (s.play actions).Regular := by
  induction actions generalizing s with
  | nil => exact regular
  | cons a rest ih =>
    obtain ⟨allowed, legalRest⟩ := Bool.and_eq_true_iff.mp legal
    exact ih (regular.act allowed) legalRest

/-- As long as there is a client and nobody asked for a shutdown, the last round
does not begin. -/
theorem Regular.not_closing (regular : s.Regular) (untold : s.shutdown = false) (client : 0 < s.clients) :
    s.phase.closing = false := by
  refine Bool.eq_false_iff.mpr fun closing => ?_
  rcases regular.ending (Phase.ending_of_closing closing) with told | none
  · rw [told] at untold
    cases untold
  · omega

/-- Where a flush signal is that was sent behind the first `n` requests: it
waits for a round, which is not the last one if that has begun; or a round that
covers them holds it; or it is released, and they are settled. -/
structure Tracked (s : Station) (log : List Departure) (n signal : Nat) : Prop where
  issued : signal < s.nextSignal
  waits : signal ∈ s.signals → s.phase.closing = false
  held : signal ∈ s.phase.held → Covers log n s.phase
  released : signal ∈ s.released → Settled log n

theorem Tracked.act {signal : Nat} (tracked : s.Tracked log n signal) (logged : s.Logged opened log requests)
    (known : n ≤ requests.length) (allowed : s.allows a = true) : (s.act a).Tracked (s.note log a) n signal := by
  obtain ⟨next, waits, held, released⟩ := passed allowed signal
  have new : signal ≠ s.nextSignal := Nat.ne_of_lt tracked.issued
  refine ⟨Nat.lt_of_lt_of_le tracked.issued next, fun there => ?_, fun there => ?_, fun there => ?_⟩
  · rcases waits there with ⟨before, other⟩ | ⟨same, _⟩
    · refine Bool.eq_false_iff.mpr fun closing => ?_
      rcases closing_act allowed closing with earlier | ⟨now, _, same, _⟩
      · rw [tracked.waits before] at earlier
        cases earlier
      · exact other now same
    · exact absurd same new
  · rcases held there with before | ⟨_, now, last, rfl, phase⟩
    · exact (tracked.held before).act logged known allowed
    · exact logged.covers_round known phase now
  · rcases released there with before | ⟨before, last, held, phase⟩ | ⟨before, phase⟩ | ⟨same, _⟩
    · exact (tracked.released before).note s a
    · have covers := tracked.held before
      rw [phase] at covers
      exact Settled.note covers s a
    · have closing := tracked.waits before
      rw [phase] at closing
      cases closing
    · exact absurd same new

theorem Tracked.play {signal : Nat} {actions : List Action} (tracked : s.Tracked log n signal)
    (logged : s.Logged opened log requests) (known : n ≤ requests.length) (legal : s.legal actions = true) :
    (s.play actions).Tracked (s.departures log actions) n signal := by
  induction actions generalizing s log requests with
  | nil => exact tracked
  | cons a rest ih =>
    obtain ⟨allowed, legalRest⟩ := Bool.and_eq_true_iff.mp legal
    have more : n ≤ (requests ++ submitted [a]).length := by
      rw [List.length_append]
      omega
    exact ih (tracked.act logged known allowed) (logged.act allowed) more legalRest

theorem Logged.play_closing {actions : List Action} (logged : s.Logged opened log requests)
    (known : n ≤ requests.length) (covers : s.phase.closing = true → Covers log n s.phase)
    (legal : s.legal actions = true) (closing : (s.play actions).phase.closing = true) :
    Covers (s.departures log actions) n (s.play actions).phase := by
  induction actions generalizing s log requests with
  | nil => exact covers closing
  | cons a rest ih =>
    obtain ⟨allowed, legalRest⟩ := Bool.and_eq_true_iff.mp legal
    have more : n ≤ (requests ++ submitted [a]).length := by
      rw [List.length_append]
      omega
    exact ih (logged.act allowed) more (logged.closing_covers known covers allowed) legalRest closing

/-- A client that sends a flush signal while nobody asked for a shutdown finds
the worker with no last round begun, so the signal waits for one that covers
all that were submitted. -/
theorem Regular.tracked (regular : s.Regular) (untold : s.shutdown = false) (client : 0 < s.clients) :
    s.sendFlush.Tracked log requests.length s.nextSignal := by
  have closing := regular.not_closing untold client
  have here : s.phase ≠ .gone := by
    intro gone
    rw [gone] at closing
    cases closing
  rw [sendFlush_waits here]
  have fresh : ¬ (s.nextSignal ∈ s.signals ∨ s.nextSignal ∈ s.phase.held ∨ s.nextSignal ∈ s.released) := fun known =>
    Nat.lt_irrefl _ (regular.issued _ known)
  exact ⟨Nat.lt_succ_self _, fun _ => closing, fun member => absurd (Or.inr (Or.inl member)) fresh,
    fun member => absurd (Or.inr (Or.inr member)) fresh⟩

end Runs

/-- The first to leave the inbox were these requests, and what becomes of each is
settled: it was accepted, refused for a fault or lost in a merge, or dropped. -/
def Cleared (log : List Departure) (requests : List Submission) : Prop :=
  ∃ gone rest, log = gone ++ rest ∧ gone.map (·.request) = requests ∧ ∀ d ∈ gone, d.fate ≠ .taken

theorem Logged.cleared {s : Station} {opened : Monitor} {log : List Departure} {before after : List Submission}
    (logged : s.Logged opened log (before ++ after)) (settled : Settled log before.length) : Cleared log before := by
  obtain ⟨left, fates⟩ := settled
  refine ⟨log.take before.length, log.drop before.length, (List.take_append_drop _ _).symm, ?_, fates⟩
  have start := congrArg (List.take before.length) logged.queued.order
  rw [List.take_append_of_le_length (by simpa using left), List.take_left] at start
  rw [List.map_take]
  exact start

/-- What still waits is not cleared. -/
theorem Cleared.leaves {s : Station} {opened : Monitor} {log : List Departure} {requests some : List Submission}
    (cleared : Cleared log some) (logged : s.Logged opened log requests) :
    some.length + s.monitor.inbox.size ≤ requests.length := by
  obtain ⟨gone, rest, rfl, same, _⟩ := cleared
  have total := logged.total
  rw [List.length_append] at total
  rw [← same, List.length_map]
  omega

theorem departures_append (s : Station) (log : List Departure) (before after : List Action) :
    s.departures log (before ++ after) = (s.play before).departures (s.departures log before) after := by
  induction before generalizing s log with
  | nil => rfl
  | cons a rest ih => exact ih (s.act a) (s.note log a)

section Ends

variable {s : Station} {opened : Monitor} {log : List Departure} {requests : List Submission} {before after : List Action}

/-- Once a flush signal is released, what was submitted before it was sent is
cleared, as nobody had asked for a shutdown by then. -/
theorem Regular.released_cleared (regular : s.Regular) (logged : s.Logged opened log requests)
    (legal : s.legal (before ++ .sendFlush :: after) = true) (none : .requestShutdown ∉ before)
    (untold : s.shutdown = false)
    (released : (s.play before).nextSignal ∈ (s.play (before ++ .sendFlush :: after)).released) :
    Cleared (s.departures log (before ++ .sendFlush :: after)) (requests ++ submitted before) := by
  have whole := logged.play legal
  rw [legal_append, Bool.and_eq_true_iff] at legal
  obtain ⟨legalBefore, legalRest⟩ := legal
  obtain ⟨allowed, legalAfter⟩ := Bool.and_eq_true_iff.mp legalRest
  have sent := logged.play legalBefore
  have tracked : (s.play before).sendFlush.Tracked (s.departures log before) (requests ++ submitted before).length
      (s.play before).nextSignal :=
    (regular.play legalBefore).tracked ((shutdown_play none).trans untold) (allows_iff.mp allowed)
  have known : (requests ++ submitted before).length ≤ (requests ++ submitted before ++ submitted [.sendFlush]).length := by
    simp
  have later := tracked.play (sent.act allowed) known legalAfter
  rw [submitted_append, ← List.append_assoc] at whole
  rw [play_append] at released
  rw [departures_append] at whole ⊢
  exact whole.cleared (later.released released)

/-- Once the worker is gone, what was submitted before its last round began is
cleared. -/
theorem Logged.gone_cleared (logged : s.Logged opened log requests) (legal : s.legal (before ++ after) = true)
    (running : (s.play before).phase.closing = false) (gone : (s.play (before ++ after)).phase = .gone) :
    Cleared (s.departures log (before ++ after)) (requests ++ submitted before) := by
  have whole := logged.play legal
  rw [legal_append, Bool.and_eq_true_iff] at legal
  obtain ⟨legalBefore, legalAfter⟩ := legal
  rw [play_append] at gone
  have closing : ((s.play before).play after).phase.closing = true := by
    rw [gone]
    rfl
  have covers := (logged.play legalBefore).play_closing (Nat.le_refl _)
    (fun begun => absurd begun (by rw [running]; simp)) legalAfter closing
  rw [gone] at covers
  rw [submitted_append, ← List.append_assoc] at whole
  rw [departures_append] at whole ⊢
  exact whole.cleared covers

end Ends

theorem start_logged {m : Monitor} (sound : m.Sound) (steady : m.Steady) :
    (idle m).start.Logged m [] m.inbox.waiting where
  queued := ⟨steady.inbox, steady.room, rfl, rfl, rfl⟩
  booked := ⟨⟨[], [], rfl, by simp, by simp⟩, sound.window, steady.window, rfl, rfl, by simp [met], by simp [met], rfl,
    by simp [met], (List.append_nil _).symm ▸ List.suffix_rfl⟩

theorem start_regular (m : Monitor) : (idle m).start.Regular where
  issued signal known := by simp [idle, start, Phase.held] at known
  ending told := by simp [idle, start, Phase.ending] at told

/-- A worker is started at a monitor with any history, and then clients, others
and the worker do what they do in any order. All requests leave the inbox in the
order they were submitted; each that the worker takes is accepted into the
window, refused or lost as a merge counts it, and others are counted as they
are dropped. When a flush signal is released that was sent before anybody asked
for a shutdown, all that were submitted before it are cleared; and when the
worker is gone, all are that were submitted before its last round began. That
round does not begin as long as there is a client and nobody asked for a
shutdown. -/
theorem flush_and_shutdown_cover {settings : Settings} (fit : settings.check = .ok ()) (now : Instant) :
    ∃ m, Monitor.create settings now = .ok m ∧ ∀ history actions,
      let opened := m.run history
      let s := (idle opened).start
      s.legal actions = true →
        let t := s.play actions
        let log := s.departures [] actions
        t.Logged opened log (opened.inbox.waiting ++ submitted actions) ∧
        (∀ before after, actions = before ++ .sendFlush :: after → .requestShutdown ∉ before →
          (s.play before).nextSignal ∈ t.released → Cleared log (opened.inbox.waiting ++ submitted before)) ∧
        (t.phase = .gone → ∀ before after, actions = before ++ after → (s.play before).phase.closing = false →
          Cleared log (opened.inbox.waiting ++ submitted before)) ∧
        ∀ before after, actions = before ++ after → .requestShutdown ∉ before → 0 < (s.play before).clients →
          (s.play before).phase.closing = false := by
  obtain ⟨m, created⟩ := Monitor.create_of_check fit now
  refine ⟨m, created, ?_⟩
  intro history actions opened s legal t log
  have logged : s.Logged opened [] opened.inbox.waiting := start_logged
    (Monitor.run_sound (Monitor.create_start created).1 history) ((Monitor.create_obeys fit created).steady.run history)
  have regular : s.Regular := start_regular opened
  refine ⟨logged.play legal, fun before after split none released => ?_, fun gone before after split running => ?_,
    fun before after split none client => ?_⟩
  · subst split
    exact regular.released_cleared logged legal none rfl released
  · subst split
    exact logged.gone_cleared legal running gone
  · subst split
    rw [legal_append, Bool.and_eq_true_iff] at legal
    exact (regular.play legal.1).not_closing (shutdown_play none) client

/-- A flush signal comes between two submissions, a full inbox drops one while
the worker takes another, more come than the window holds, and then the worker
is told to stop. -/
def busyDay : List Action := [
  .submit { script := "first" }, .submit { script := "second" }, .sendFlush, .beginRound ⟨1000000000⟩, .takeOne,
  .submit { script := "third" }, .submit { script := "fourth" }, .takeOne, .stopTaking, .mergeTaken, .releaseHeld,
  .requestShutdown, .checkLast, .beginRound ⟨2000000000⟩, .takeOne, .stopTaking, .mergeTaken, .releaseHeld, .checkLast]

/-- The signal is released once the one request before it is accepted and the
other dropped. In the merge after that the window takes only the newer of two,
and in the end all are cleared. -/
theorem busyDay_covered : ∃ m, Monitor.create { inboxCapacity := 2, windowCapacity := 1 } .epoch = .ok m ∧
    let s := (idle m).start
    let log := s.departures [] busyDay
    s.legal busyDay = true ∧ 0 ∈ (s.play busyDay).released ∧ (s.play busyDay).phase = .gone ∧
      Cleared log [{ script := "first" }, { script := "second" }] ∧
      Cleared log [{ script := "first" }, { script := "second" }, { script := "third" }, { script := "fourth" }] ∧
      log.map (·.fate) = [.lost, .dropped, .accepted, .accepted] := by
  have fit : ({ inboxCapacity := 2, windowCapacity := 1 } : Settings).check = .ok () := rfl
  obtain ⟨m, created, covered⟩ := flush_and_shutdown_cover fit .epoch
  have seen := Monitor.passes_of_create created (fun m => (idle m).start.legal busyDay = true ∧
    0 ∈ ((idle m).start.play busyDay).released ∧ ((idle m).start.play busyDay).phase = .gone ∧
    ((idle m).start.departures [] busyDay).map (·.fate) = [.lost, .dropped, .accepted, .accepted] ∧
    ((idle m).start.play (busyDay.take 11)).phase.closing = false ∧ m.inbox.waiting = []) (by decide +kernel)
  obtain ⟨legal, released, gone, fates, running, empty⟩ := of_decide_eq_true seen
  obtain ⟨_, flushed, stopped, _⟩ := covered [] busyDay legal
  have early := flushed (busyDay.take 2) (busyDay.drop 3) rfl (by decide) released
  have all := stopped gone (busyDay.take 11) (busyDay.drop 11) rfl running
  rw [show (m.run []).inbox.waiting = [] from empty] at early all
  exact ⟨m, created, legal, released, gone, early, all, fates⟩

/-- The last client leaves, and the worker with it. Then one more request comes,
and a request to shut down. -/
def afterHours : List Action := [
  .dropClient, .beginRound ⟨1000000000⟩, .stopTaking, .mergeTaken, .releaseHeld, .checkLast,
  .beginRound ⟨2000000000⟩, .stopTaking, .mergeTaken, .releaseHeld, .checkLast,
  .submit { script := "late" }, .requestShutdown]

/-- It was submitted before anybody asked for a shutdown, but waits for ever. -/
theorem afterHours_not_cleared : ∃ m, Monitor.create {} .epoch = .ok m ∧
    let s := (idle m).start
    let t := s.play afterHours
    s.legal afterHours = true ∧ t.phase = .gone ∧ t.monitor.inbox.waiting = [{ script := "late" }] ∧
      t.monitor.counters = {} ∧ afterHours = afterHours.take 12 ++ [.requestShutdown] ∧
      .requestShutdown ∉ afterHours.take 12 ∧ ¬Cleared (s.departures [] afterHours) (submitted (afterHours.take 12)) := by
  have fit : ({} : Settings).check = .ok () := rfl
  obtain ⟨m, created⟩ := Monitor.create_of_check fit .epoch
  have seen := Monitor.passes_of_create created (fun m => (idle m).start.legal afterHours = true ∧
    ((idle m).start.play afterHours).phase = .gone ∧
    ((idle m).start.play afterHours).monitor.inbox.waiting = [{ script := "late" }] ∧
    ((idle m).start.play afterHours).monitor.counters = {} ∧ m.inbox.waiting = []) (by decide +kernel)
  obtain ⟨legal, gone, waits, counters, empty⟩ := of_decide_eq_true seen
  have logged := (start_logged (Monitor.create_start created).1 (Monitor.create_obeys fit created).steady).play legal
  refine ⟨m, created, legal, gone, waits, counters, rfl, by decide, fun cleared => ?_⟩
  have few := cleared.leaves logged
  rw [empty, Inbox.size, waits] at few
  exact absurd few (by decide)

end Station

end Rollup
