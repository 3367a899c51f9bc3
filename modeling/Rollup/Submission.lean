import Rollup.Duration
import Rollup.Word

namespace Rollup

/-- The largest count of bytes that is told apart from a larger one. -/
def ByteCount.cap : Nat := 18446744073709551615

/-- A number of bytes. Sums stop at the largest one. -/
abbrev ByteCount := Capped ByteCount.cap

def ByteCount.ofNat (n : Nat) : ByteCount := Capped.clamp ByteCount.cap n

/-- A request as a client sends it. The timers are spread over parallel
arrays, and names and values of tags are indices into one dictionary. -/
structure Submission where
  host : String := ""
  server : String := ""
  script : String := ""
  schema : String := ""
  status : Nat := 0
  requestCount : Nat := 0
  documentSize : ByteCount := 0
  memoryPeak : ByteCount := 0
  memoryFootprint : ByteCount := 0
  time : Duration := 0
  userTime : Duration := 0
  systemTime : Duration := 0
  dictionary : List String := []
  timerHits : List Nat := []
  timerValues : List Duration := []
  timerUserTimes : List Duration := []
  timerSystemTimes : List Duration := []
  timerTagCounts : List Nat := []
  timerTagNames : List Nat := []
  timerTagValues : List Nat := []
  tagNames : List Nat := []
  tagValues : List Nat := []
deriving DecidableEq

namespace Submission

/-- Why a submission is not a request. -/
inductive Fault
  | timerCounts (hits values tagCounts : Nat)
  | timerUsage (timers userTimes systemTimes : Nat)
  | zeroHits (timer : Nat)
  | timerTagCounts (declared names values : Nat)
  | requestTags (names values : Nat)
  | dictionaryIndex (index size : Nat)
deriving DecidableEq

def Fault.message : Fault → String
  | .timerCounts hits values tagCounts =>
    s!"timer arrays disagree: {hits} hit counts, {values} values, {tagCounts} tag counts"
  | .timerUsage timers userTimes systemTimes =>
    s!"{timers} timers but {userTimes} user times and {systemTimes} system times"
  | .zeroHits timer => s!"timer {timer} has a zero hit count"
  | .timerTagCounts declared names values =>
    s!"timers declare {declared} tags but carry {names} names and {values} values"
  | .requestTags names values => s!"{names} request tag names but {values} values"
  | .dictionaryIndex index size => s!"dictionary index {index} out of range (len {size})"

def timerCount (s : Submission) : Nat := s.timerValues.length

/-- Every index into the dictionary, those of the timers first. -/
def indices (s : Submission) : List Nat := s.timerTagNames ++ s.timerTagValues ++ s.tagNames ++ s.tagValues

/-- CPU times are given for every timer or for none. -/
def usageFits (timers : Nat) (times : List Duration) : Prop := times.length = 0 ∨ times.length = timers

instance (timers : Nat) (times : List Duration) : Decidable (usageFits timers times) :=
  inferInstanceAs (Decidable (_ ∨ _))

/-- What the tag counts of the timers add up to. -/
def tagSum (s : Submission) : Nat := s.timerTagCounts.foldr (· + ·) 0

/-- How many tags the timers are said to have. The sum is made in 64 bits, so
counts that add up to more are told as what is left over. -/
def declaredTags (s : Submission) : Nat := Word.wrap s.tagSum

/-- The first fault of a submission, if it has one: the arrays disagree in
length, a timer was never hit, or an index is outside the dictionary. -/
def check (s : Submission) : Except Fault Unit :=
  if ¬(s.timerHits.length = s.timerCount ∧ s.timerTagCounts.length = s.timerCount) then
    .error (.timerCounts s.timerHits.length s.timerCount s.timerTagCounts.length)
  else if ¬(usageFits s.timerCount s.timerUserTimes ∧ usageFits s.timerCount s.timerSystemTimes) then
    .error (.timerUsage s.timerCount s.timerUserTimes.length s.timerSystemTimes.length)
  else match s.timerHits.findIdx? (· = 0) with
  | some timer => .error (.zeroHits timer)
  | none =>
    if ¬(s.declaredTags = s.timerTagNames.length ∧ s.declaredTags = s.timerTagValues.length) then
      .error (.timerTagCounts s.declaredTags s.timerTagNames.length s.timerTagValues.length)
    else if s.tagNames.length ≠ s.tagValues.length then
      .error (.requestTags s.tagNames.length s.tagValues.length)
    else match s.indices.find? (s.dictionary.length ≤ ·) with
    | some index => .error (.dictionaryIndex index s.dictionary.length)
    | none => .ok ()

/-- Whether a submission has no fault. -/
def isSound (s : Submission) : Bool :=
  match s.check with
  | .ok _ => true
  | .error _ => false

end Submission

end Rollup
