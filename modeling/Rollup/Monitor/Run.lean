import Rollup.Monitor

namespace Rollup

namespace Monitor

/-- What can happen to a monitor, each with the reading of the clock. The
readings of one history may jump forwards and backwards. -/
inductive Event
  | submit (s : Submission)
  | merge (now : Instant)
  | lookup (now : Instant) (id : String)
  | ask (now : Instant) (q : Query)
  | tearDownIdle (now : Instant)
deriving DecidableEq

/-- A request for a report that fails leaves everything as it is. -/
def step (m : Monitor) : Event → Monitor
  | .submit s => m.submit s
  | .merge now => (m.merge now).1
  | .lookup now id =>
    match m.lookup now id with
    | .ok (m, _) => m
    | .error _ => m
  | .ask now q =>
    match m.ask now q with
    | .ok (m, _) => m
    | .error _ => m
  | .tearDownIdle now => (m.tearDownIdle now).1

def run (m : Monitor) (history : List Event) : Monitor := history.foldl step m

/-- The submissions of a history, in order. -/
def submitted (history : List Event) : List Submission :=
  history.filterMap fun event =>
    match event with
    | .submit s => some s
    | _ => none

end Monitor

end Rollup
