import Rollup.Submission

namespace Rollup.Submission

/-- A timer to put into a submission. CPU times may be left out. -/
structure TimerSpec where
  value : Duration
  hits : Nat := 1
  cpu : Option (Duration × Duration) := none
  tags : List (String × String) := []
deriving DecidableEq

/-- The start of a request for a script: one request, answered with 200. -/
def ofScript (script : String) : Submission := { script, status := 200, requestCount := 1 }

/-- The index of a word in the dictionary, where it is put if it is new. An
index has 32 bits. -/
def addWord (s : Submission) (word : String) : Submission × Nat :=
  match s.dictionary.idxOf? word with
  | some position => (s, Word.cut position)
  | none => ({ s with dictionary := s.dictionary ++ [word] }, Word.cut s.dictionary.length)

def addTag (s : Submission) (name value : String) : Submission :=
  let (s, name) := s.addWord name
  let (s, value) := s.addWord value
  { s with tagNames := s.tagNames ++ [name], tagValues := s.tagValues ++ [value] }

def addTimerTag (s : Submission) (tag : String × String) : Submission :=
  let (s, name) := s.addWord tag.1
  let (s, value) := s.addWord tag.2
  { s with timerTagNames := s.timerTagNames ++ [name], timerTagValues := s.timerTagValues ++ [value] }

/-- Cut or filled with zeros to a length. -/
def fitted (size : Nat) (times : List Duration) : List Duration :=
  times.take size ++ List.replicate (size - times.length) 0

/-- Notes the CPU times of the timer after the first `timers` ones. As soon
as one timer has them the earlier ones get zeros, so the arrays stay aligned. -/
def addUsage (s : Submission) (timers : Nat) (cpu : Option (Duration × Duration)) : Submission :=
  if cpu.isSome ∨ s.timerUserTimes ≠ [] then
    let (user, system) := cpu.getD (0, 0)
    { s with
      timerUserTimes := fitted timers s.timerUserTimes ++ [user]
      timerSystemTimes := fitted timers s.timerSystemTimes ++ [system] }
  else s

/-- Puts a timer behind the others. Its tags are counted in 32 bits. -/
def addTimer (s : Submission) (timer : TimerSpec) : Submission :=
  let timed := { s with
    timerValues := s.timerValues ++ [timer.value]
    timerHits := s.timerHits ++ [timer.hits]
    timerTagCounts := s.timerTagCounts ++ [Word.cut timer.tags.length] }
  timer.tags.foldl addTimerTag (timed.addUsage s.timerCount timer.cpu)

/-- What a client can put into a submission. A setting takes the place of the
one before it; tags and timers add up. -/
inductive Entry
  | host (name : String)
  | server (name : String)
  | schema (name : String)
  | status (code : Nat)
  | time (time : Duration)
  | cpu (user system : Duration)
  | documentSize (size : ByteCount)
  | memory (peak footprint : ByteCount)
  | tag (name value : String)
  | timer (spec : TimerSpec)
deriving DecidableEq

def enter (s : Submission) : Entry → Submission
  | .host name => { s with host := name }
  | .server name => { s with server := name }
  | .schema name => { s with schema := name }
  | .status code => { s with status := code }
  | .time time => { s with time }
  | .cpu user system => { s with userTime := user, systemTime := system }
  | .documentSize size => { s with documentSize := size }
  | .memory peak footprint => { s with memoryPeak := peak, memoryFootprint := footprint }
  | .tag name value => s.addTag name value
  | .timer spec => s.addTimer spec

/-- The submission for a script that some entries make, one after the other. -/
def assemble (script : String) (entries : List Entry) : Submission := entries.foldl enter (ofScript script)

end Rollup.Submission
