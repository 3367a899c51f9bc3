import Rollup.Monitor

namespace Rollup

/-- What the worker of a station carries through a round: whether it is the
last round, the reading of the clock, the flush signals that wait for its
end, how many requests aged out, and what was taken out of the inbox. -/
structure Round where
  last : Bool
  now : Instant
  held : List Nat
  expired : Nat
  taken : List Submission
deriving DecidableEq

/-- Where the worker is. It takes submissions out of the inbox one at a time,
`left` more of them at most, merges them, releases the flush signals that it
holds, and looks whether to stop. -/
inductive Phase
  | resting (last : Bool)
  | taking (round : Round) (left : Nat)
  | merging (round : Round)
  | releasing (last : Bool) (held : List Nat)
  | checking (last : Bool)
  | gone
deriving DecidableEq

/-- A monitor that a worker merges in the background. Whoever knows the monitor
submits to it, as a client or not. Clients send flush signals that are released
once a merge covered them, and the worker needs a client to go on. -/
structure Station where
  monitor : Monitor
  clients : Nat
  signals : List Nat
  nextSignal : Nat
  released : List Nat
  shutdown : Bool
  phase : Phase
deriving DecidableEq

namespace Station

/-- A monitor that nobody but its clients merges. -/
def idle (m : Monitor) : Station := ⟨m, 0, [], 0, [], false, .gone⟩

/-- One client starts a worker. -/
def start (s : Station) : Station :=
  { s with clients := s.clients + 1, shutdown := false, phase := .resting false }

def addClient (s : Station) : Station := { s with clients := s.clients + 1 }

def dropClient (s : Station) : Station := { s with clients := s.clients - 1 }

def submit (s : Station) (request : Submission) : Station := { s with monitor := s.monitor.submit request }

/-- Sends a flush signal. Where no worker is left it is released at once. -/
def sendFlush (s : Station) : Station :=
  let s := { s with nextSignal := s.nextSignal + 1 }
  if s.phase = .gone then { s with released := s.released ++ [s.nextSignal - 1] }
  else { s with signals := s.signals ++ [s.nextSignal - 1] }

def requestShutdown (s : Station) : Station := { s with shutdown := true }

/-- The worker begins a round: it holds the signals that wait, and lets the
requests go that are too old. -/
def beginRound (s : Station) (now : Instant) : Station :=
  match s.phase with
  | .resting last =>
    let expired := s.monitor.expiring now
    { s with
      monitor := s.monitor.evict expired
      signals := []
      phase := .taking { last, now, held := s.signals, expired, taken := [] } s.monitor.inbox.capacity }
  | _ => s

/-- The worker takes one submission out of the inbox, if one is there and
it has not yet taken an inbox full of them. -/
def takeOne (s : Station) : Station :=
  match s.phase with
  | .taking round (left + 1) =>
    match s.monitor.inbox.pop? with
    | some (request, inbox) =>
      { s with
        monitor := { s.monitor with inbox }
        phase := .taking { round with taken := round.taken ++ [request] } left }
    | none => s
  | _ => s

def stopTaking (s : Station) : Station :=
  match s.phase with
  | .taking round _ => { s with phase := .merging round }
  | _ => s

def mergeTaken (s : Station) : Station :=
  match s.phase with
  | .merging round =>
    { s with
      monitor := (s.monitor.finishMerge round.now round.expired round.taken).1
      phase := .releasing round.last round.held }
  | _ => s

/-- The worker releases the signals that the merge covered. -/
def releaseHeld (s : Station) : Station :=
  match s.phase with
  | .releasing last held => { s with released := s.released ++ held, phase := .checking last }
  | _ => s

/-- The worker goes on or stops. Once it sees that it shall shut down, or that
no client is left, it does one more round; signals that came too late for that
one are released as it goes. -/
def checkLast (s : Station) : Station :=
  match s.phase with
  | .checking true => { s with released := s.released ++ s.signals, signals := [], phase := .gone }
  | .checking false => { s with phase := .resting (s.shutdown || s.clients == 0) }
  | _ => s

/-- The worker takes up to `n` submissions. -/
def takeMany (s : Station) : Nat → Station
  | 0 => s
  | n + 1 => if s.monitor.inbox.waiting.isEmpty then s else s.takeOne.takeMany n

/-- A whole round with nobody in between. -/
def round (s : Station) (now : Instant) : Station :=
  let s := s.beginRound now
  (s.takeMany s.monitor.inbox.size).stopTaking.mergeTaken.releaseHeld.checkLast

/-- Sends a flush signal and lets the worker do the round that releases it. -/
def flush (s : Station) (now : Instant) : Station := s.sendFlush.round now

/-- Asks the worker to shut down and waits until it is gone: the round after
which it sees the request, and its last one. -/
def shutDown (s : Station) (now : Instant) : Station := (s.requestShutdown.round now).round now

/-- A client leaves. When it was the last, the worker does its last rounds. -/
def leave (s : Station) (now : Instant) : Station :=
  let s := s.dropClient
  if s.clients = 0 then (s.round now).round now else s

end Station

end Rollup
