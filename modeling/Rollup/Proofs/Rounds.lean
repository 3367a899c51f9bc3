import Rollup.Proofs.Merge
import Rollup.Station

namespace Rollup

/-- The submissions that the worker has taken and not yet merged. -/
def Phase.hand : Phase → List Submission
  | .taking round _ => round.taken
  | .merging round => round.taken
  | _ => []

/-- How many requests aged out that no merge has counted yet. -/
def Phase.aged : Phase → Nat
  | .taking round _ => round.expired
  | .merging round => round.expired
  | _ => 0

namespace Station

/-- What can happen at a station: what others do to it, and the moves of its
worker one at a time. -/
inductive Action
  | submit (request : Submission)
  | sendFlush
  | addClient
  | dropClient
  | requestShutdown
  | beginRound (now : Instant)
  | takeOne
  | stopTaking
  | mergeTaken
  | releaseHeld
  | checkLast
deriving DecidableEq

def act (s : Station) : Action → Station
  | .submit request => s.submit request
  | .sendFlush => s.sendFlush
  | .addClient => s.addClient
  | .dropClient => s.dropClient
  | .requestShutdown => s.requestShutdown
  | .beginRound now => s.beginRound now
  | .takeOne => s.takeOne
  | .stopTaking => s.stopTaking
  | .mergeTaken => s.mergeTaken
  | .releaseHeld => s.releaseHeld
  | .checkLast => s.checkLast

/-- Whether it can happen now. Only clients send signals, and bring other
clients in. The worker stops taking when it finds the inbox empty or has taken
an inbox full of submissions. -/
def allows (s : Station) : Action → Bool
  | .sendFlush | .addClient | .dropClient => 0 < s.clients
  | .submit _ | .requestShutdown => true
  | .beginRound _ =>
    match s.phase with
    | .resting _ => true
    | _ => false
  | .takeOne =>
    match s.phase with
    | .taking _ (_ + 1) => !s.monitor.inbox.waiting.isEmpty
    | _ => false
  | .stopTaking =>
    match s.phase with
    | .taking _ left => left = 0 || s.monitor.inbox.waiting.isEmpty
    | _ => false
  | .mergeTaken =>
    match s.phase with
    | .merging _ => true
    | _ => false
  | .releaseHeld =>
    match s.phase with
    | .releasing _ _ => true
    | _ => false
  | .checkLast =>
    match s.phase with
    | .checking _ => true
    | _ => false

def play (s : Station) (actions : List Action) : Station := actions.foldl act s

/-- Whether each of the actions can happen when its turn comes. -/
def legal (s : Station) : List Action → Bool
  | [] => true
  | a :: rest => s.allows a && (s.act a).legal rest

/-- Where clients and worker are when an action can happen. -/
def Ready (s : Station) : Action → Prop
  | .sendFlush | .addClient | .dropClient => 0 < s.clients
  | .submit _ | .requestShutdown => True
  | .beginRound _ => ∃ last, s.phase = .resting last
  | .takeOne => ∃ round left, s.phase = .taking round (left + 1) ∧ s.monitor.inbox.waiting ≠ []
  | .stopTaking => ∃ round left, s.phase = .taking round left ∧ (left = 0 ∨ s.monitor.inbox.waiting = [])
  | .mergeTaken => ∃ round, s.phase = .merging round
  | .releaseHeld => ∃ last held, s.phase = .releasing last held
  | .checkLast => ∃ last, s.phase = .checking last

theorem allows_iff {s : Station} {a : Action} : s.allows a = true ↔ s.Ready a := by
  unfold allows Ready
  cases a with
  | takeOne => cases s.phase with
    | taking round left => cases left <;> simp
    | _ => simp
  | stopTaking => cases s.phase <;> simp
  | submit | sendFlush | addClient | dropClient | requestShutdown => simp
  | _ => cases s.phase <;> simp

section Moves

variable {s : Station} {round : Round} {last : Bool} {held : List Nat} {left : Nat}

theorem sendFlush_gone (phase : s.phase = .gone) :
    s.sendFlush = { s with nextSignal := s.nextSignal + 1, released := s.released ++ [s.nextSignal] } := by
  simp [sendFlush, phase]

theorem sendFlush_waits (phase : s.phase ≠ .gone) :
    s.sendFlush = { s with nextSignal := s.nextSignal + 1, signals := s.signals ++ [s.nextSignal] } := by
  simp [sendFlush, phase]

theorem beginRound_eq (phase : s.phase = .resting last) (now : Instant) :
    s.beginRound now = { s with
      monitor := s.monitor.evict (s.monitor.expiring now)
      signals := []
      phase := .taking ⟨last, now, s.signals, s.monitor.expiring now, []⟩ s.monitor.inbox.capacity } := by
  simp only [beginRound, phase]

theorem takeOne_eq (phase : s.phase = .taking round (left + 1)) {oldest : Submission} {rest : List Submission}
    (waiting : s.monitor.inbox.waiting = oldest :: rest) :
    s.takeOne = { s with
      monitor := { s.monitor with inbox := { s.monitor.inbox with waiting := rest } }
      phase := .taking { round with taken := round.taken ++ [oldest] } left } := by
  simp only [takeOne, phase, Inbox.pop?, waiting]

theorem stopTaking_eq (phase : s.phase = .taking round left) : s.stopTaking = { s with phase := .merging round } := by
  simp only [stopTaking, phase]

theorem mergeTaken_eq (phase : s.phase = .merging round) :
    s.mergeTaken = { s with
      monitor := (s.monitor.finishMerge round.now round.expired round.taken).1
      phase := .releasing round.last round.held } := by
  simp only [mergeTaken, phase]

theorem releaseHeld_eq (phase : s.phase = .releasing last held) :
    s.releaseHeld = { s with released := s.released ++ held, phase := .checking last } := by
  simp only [releaseHeld, phase]

theorem checkLast_stops (phase : s.phase = .checking true) :
    s.checkLast = { s with released := s.released ++ s.signals, signals := [], phase := .gone } := by
  simp only [checkLast, phase]

theorem checkLast_goes_on (phase : s.phase = .checking false) :
    s.checkLast = { s with phase := .resting (s.shutdown || s.clients == 0) } := by
  simp only [checkLast, phase]

end Moves

theorem play_append (s : Station) (before after : List Action) :
    s.play (before ++ after) = (s.play before).play after := List.foldl_append

theorem legal_append {s : Station} {before after : List Action} :
    s.legal (before ++ after) = (s.legal before && (s.play before).legal after) := by
  induction before generalizing s with
  | nil => rfl
  | cons a rest ih =>
    rw [List.cons_append, legal, legal, ih, Bool.and_assoc]
    rfl

end Station

end Rollup
