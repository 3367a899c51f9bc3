import Rollup.Submission.Walk
import Rollup.Window.TimerRing

namespace Rollup

/-- The requests kept at present, oldest first. They are numbered from one in
the order they came, and their timestamps never go backwards. -/
structure Window where
  capacity : Nat
  requests : List Record
  ring : TimerRing
  nextId : Nat
  lastTimestamp : Instant
  lexicon : Lexicon
  droppedTags : Nat
deriving DecidableEq

namespace Window

/-- Why a submission is not kept. -/
inductive Refusal
  | malformed (fault : Submission.Fault)
  | full
deriving DecidableEq

def Refusal.message : Refusal → String
  | .malformed fault => "malformed request: " ++ fault.message
  | .full => "request pool is full"

/-- A window of at least one request. -/
def empty (capacity growStep shrinkFactor mostWords : Nat) : Window where
  capacity := max capacity 1
  requests := []
  ring := .empty growStep shrinkFactor
  nextId := 1
  lastTimestamp := .epoch
  lexicon := .empty mostWords
  droppedTags := 0

def size (w : Window) : Nat := w.requests.length

def isEmpty (w : Window) : Bool := w.requests.isEmpty

def isFull (w : Window) : Bool := w.capacity ≤ w.size

/-- The first moment that a request can be from. -/
def firstMoment : Instant := ⟨1⟩

/-- Numbers the tags of timers, one timer after the other. -/
def learnTimers (lex : Lexicon) : List Submission.Timer → Lexicon × List Timer
  | [] => (lex, [])
  | timer :: rest =>
    let (lex, tags) := lex.learnTags timer.tags
    let (lex, timers) := learnTimers lex rest
    (lex, ⟨timer.value, timer.hits, timer.userTime, timer.systemTime, tags⟩ :: timers)

/-- How many tags a submission has, its timers included. -/
def tagsGiven (s : Submission) : Nat := s.timers.foldr (fun timer n => timer.tags.length + n) s.tags.length

/-- Keeps a request without looking whether it is well formed or fits. Its
names are clipped, and the tags of its timers are numbered before its own. -/
def keep (w : Window) (s : Submission) (now : Instant) : Window :=
  let (lexicon, timers) := learnTimers w.lexicon s.timers
  let (lexicon, tags) := lexicon.learnTags s.tags
  let ring := (w.ring.reserve s.timerCount).append timers
  let timestamp := max (max now w.lastTimestamp) firstMoment
  let record : Record := {
    id := w.nextId
    timestamp
    host := Text.clip Record.hostRoom s.host
    server := Text.clip Record.serverRoom s.server
    script := Text.clip Record.scriptRoom s.script
    schema := Text.clip Record.schemaRoom s.schema
    status := s.status
    requestCount := s.requestCount
    documentSize := s.documentSize
    memoryPeak := s.memoryPeak
    memoryFootprint := s.memoryFootprint
    time := s.time
    userTime := s.userTime
    systemTime := s.systemTime
    tags
    timers := .ofCount w.ring.next timers.length }
  { w with
    requests := w.requests ++ [record]
    ring
    nextId := w.nextId + 1
    lastTimestamp := timestamp
    lexicon
    droppedTags := w.droppedTags + (tagsGiven s - timers.foldr (fun timer n => timer.tags.length + n) tags.length) }

/-- Keeps a request that came at `now` as the newest one, and tells its
number. A refusal leaves the window as it is. -/
def append (w : Window) (s : Submission) (now : Instant) : Except Refusal (Window × Nat) :=
  match s.check with
  | .error fault => .error (.malformed fault)
  | .ok _ => if w.isFull then .error .full else .ok (w.keep s now, w.nextId)

/-- Drops the `n` oldest requests with their timers, or all if there are not
that many. -/
def dropOldest (w : Window) (n : Nat) : Window :=
  match (w.requests.take n).getLast? with
  | none => w
  | some last => { w with requests := w.requests.drop n, ring := w.ring.dropBelow last.timers.stop }

/-- How many requests are from before `cutoff`. They are the oldest ones, as
timestamps never go backwards. -/
def countOlder (w : Window) (cutoff : Instant) : Nat := (w.requests.takeWhile (·.timestamp < cutoff)).length

def viewOf (w : Window) (r : Record) : View := ⟨r, w.ring.read r.timers, w.lexicon⟩

/-- Every kept request, oldest first. -/
def views (w : Window) : List View := w.requests.map w.viewOf

/-- What a walk over the window comes by. It passes over records that stand
for no request, though none is ever kept. -/
def iterate (w : Window) : List View := w.views.filter (·.record.isUsable)

def oldest (w : Window) (n : Nat) : List View := (w.requests.take n).map w.viewOf

def fromPosition (w : Window) (n : Nat) : List View := (w.requests.drop n).map w.viewOf

/-- The request of that number. Numbers are consecutive, so it lies as far
behind the oldest request as its number does. -/
def view? (w : Window) (id : Nat) : Option View := do
  let front ← w.requests.head?
  if id < front.id then none else (w.requests[id - front.id]?).map w.viewOf

/-- The oldest request that is newer than the one numbered `cursor`; without
a cursor the oldest of all. The cursor itself may be gone. -/
def after? (w : Window) (cursor : Option Nat) : Option View := do
  let front ← w.requests.head?
  let position := match cursor with
    | none => 0
    | some id => if id < front.id then 0 else id - front.id + 1
  (w.requests[position]?).map w.viewOf

/-- The timestamps of the oldest and the newest request. -/
def interval? (w : Window) : Option (Instant × Instant) := do
  let first ← w.requests.head?
  let last ← w.requests.getLast?
  return (first.timestamp, last.timestamp)

/-- The requests from a position on as a client sees them who asks for one
after the other; at most `fuel` of them. -/
def pagesFrom (w : Window) : Nat → Option View → List View
  | 0, _ => []
  | _, none => []
  | fuel + 1, some view => view :: w.pagesFrom fuel (w.after? (some view.id))

def pages (w : Window) : List View := w.pagesFrom w.size (w.after? none)

/-- How much of a window is in use. -/
structure Usage where
  requests : Nat
  requestCapacity : Nat
  timers : Nat
  timerCapacity : Nat
  values : Nat
  names : Nat
  droppedTags : Nat
deriving DecidableEq

def usage (w : Window) : Usage where
  requests := w.size
  requestCapacity := w.capacity
  timers := w.ring.size
  timerCapacity := w.ring.capacity
  values := w.lexicon.values.size
  names := w.lexicon.names.size
  droppedTags := w.droppedTags

end Window

end Rollup
