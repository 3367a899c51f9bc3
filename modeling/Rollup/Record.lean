import Rollup.Instant
import Rollup.Lexicon
import Rollup.Submission
import Rollup.Word

namespace Rollup

/-- One timed activity within a request. Its value is the total over all
hits. -/
structure Timer where
  value : Duration
  hits : Nat
  userTime : Duration
  systemTime : Duration
  tags : List Tag
deriving DecidableEq

/-- Where the timers of a request lie in the numbering of all timers. They are
counted in 32 bits. -/
structure Span where
  start : Nat
  count : BitVec 32
deriving DecidableEq

namespace Span

/-- The span of `n` timers from a number on, as far as 32 bits count them. -/
def ofCount (start n : Nat) : Span := ⟨start, .ofNat 32 n⟩

def length (span : Span) : Nat := span.count.toNat

def stop (span : Span) : Nat := span.start + span.length

theorem length_ofCount (start n : Nat) : (ofCount start n).length = Word.cut n := BitVec.toNat_ofNat n 32

end Span

/-- A property of a request that reports can group by. -/
inductive Attribute
  | script
  | server
  | host
  | status
  | schema
deriving DecidableEq

def Attribute.name : Attribute → String
  | .script => "script"
  | .server => "server"
  | .host => "host"
  | .status => "status"
  | .schema => "schema"

/-- A request as it is kept, its timers apart from it. -/
structure Record where
  id : Nat
  timestamp : Instant
  host : String
  server : String
  script : String
  schema : String
  status : Nat
  requestCount : Nat
  documentSize : ByteCount
  memoryPeak : ByteCount
  memoryFootprint : ByteCount
  time : Duration
  userTime : Duration
  systemTime : Duration
  tags : List Tag
  timers : Span
deriving DecidableEq

namespace Record

/-- Longest names that are kept whole, in bytes. -/
def hostRoom : Nat := 32

def serverRoom : Nat := 64

def scriptRoom : Nat := 128

def schemaRoom : Nat := 16

def attributeText (r : Record) : Attribute → String
  | .script => r.script
  | .server => r.server
  | .host => r.host
  | .status => Nat.repr r.status
  | .schema => r.schema

/-- A record from the epoch itself stands for no request. -/
def isUsable (r : Record) : Bool := r.timestamp ≠ .epoch

end Record

/-- A kept request together with its timers and the words behind its tags:
all that a report gets to see of it. -/
structure View where
  record : Record
  timers : List Timer
  lexicon : Lexicon
deriving DecidableEq

namespace View

def id (v : View) : Nat := v.record.id

/-- The tags of the request, spelled out, in order. -/
def requestTags (v : View) : List (String × String) := v.record.tags.map v.lexicon.spell

def timerTags (v : View) (timer : Timer) : List (String × String) := timer.tags.map v.lexicon.spell

end View

end Rollup
