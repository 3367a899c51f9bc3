import Rollup.Settings

namespace Rollup.Settings

/-- A value in a settings document. A number is an integer only if it is
written as one. -/
inductive Value
  | null
  | integer (n : Int)
  | text (s : String)
  | other
deriving DecidableEq

namespace Value

/-- A whole number that is not negative and at most `limit`. -/
def whole? (limit : Nat) : Value → Option Nat
  | .integer n => if 0 ≤ n ∧ n ≤ limit then some n.toNat else none
  | _ => none

def text? : Value → Option String
  | .text s => some s
  | _ => none

def longest : Nat := 18446744073709551615

end Value

/-- Sets the field of that key. Keys that name no field are passed over; a
value of the wrong kind is refused. -/
def setField (s : Settings) (key : String) (value : Value) : Option Settings :=
  match key with
  | "retention_secs" => (value.whole? Value.longest).map ({ s with retentionSecs := · })
  | "merge_interval_ms" => (value.whole? Value.longest).map ({ s with mergeIntervalMs := · })
  | "request_pool_size" => (value.whole? Value.longest).map ({ s with windowCapacity := · })
  | "staging_capacity" => (value.whole? Value.longest).map ({ s with inboxCapacity := · })
  | "timer_pool_grow_step" => (value.whole? Value.longest).map ({ s with timerGrowStep := · })
  | "timer_pool_shrink_factor" => (value.whole? Value.longest).map ({ s with timerShrinkFactor := · })
  | "tag_report_timeout_secs" =>
    if value = .null then some { s with idleSecs := none }
    else (value.whole? Value.longest).map ({ s with idleSecs := some · })
  | "histogram_max_ms" => (value.whole? Value.longest).map ({ s with histogramTopMs := · })
  | "histogram_buckets" => (value.whole? Vocabulary.widest).map ({ s with histogramCells := · })
  | "report_parallelism" => (value.whole? Value.longest).map ({ s with lanes := · })
  | "max_interned" => (value.whole? Vocabulary.widest).map ({ s with mostWords := · })
  | "driver_thread_name" => value.text?.map ({ s with workerName := · })
  | "name" => value.text?.map ({ s with name := · })
  | _ => some s

/-- The settings that a document gives, on top of the standard ones. -/
def ofDocument (fields : List (String × Value)) : Option Settings :=
  fields.foldlM (fun s (key, value) => s.setField key value) standard

end Rollup.Settings
