import Rollup.Capped

namespace Rollup

/-- The longest length of time: 64 bits of whole seconds and the last
nanosecond before the next one. -/
def Duration.cap : Nat := 18446744073709551615 * 1000000000 + 999999999

/-- A length of time in nanoseconds. Sums stop at the longest one. -/
abbrev Duration := Capped Duration.cap

namespace Duration

def ofNanos (n : Nat) : Duration := Capped.clamp cap n

def ofMillis (n : Nat) : Duration := ofNanos (n * 1000000)

def ofSecs (n : Nat) : Duration := ofNanos (n * 1000000000)

def nanos (d : Duration) : Nat := d.val

/-- Whole milliseconds; the rest is dropped. -/
def millis (d : Duration) : Nat := d.val / 1000000

/-- Whole seconds; the rest is dropped. -/
def secs (d : Duration) : Nat := d.val / 1000000000

/-- An equal share of `d` among `n`, to the nanosecond below. -/
def share (d : Duration) (n : Nat) : Duration :=
  ⟨d.val / n, Nat.le_trans (Nat.div_le_self d.val n) d.le_cap⟩

/-- `n` times `d`, unless that is longer than any duration. -/
def times? (d : Duration) (n : Nat) : Option Duration :=
  if fits : d.val * n ≤ cap then some ⟨d.val * n, fits⟩ else none

/-- The digits of `n`, filled with zeros on the left up to `width`. -/
def paddedDigits (width n : Nat) : List Char :=
  let digits := (Nat.repr n).toList
  List.replicate (width - digits.length) '0' ++ digits

/-- A decimal fraction of `width` places after a point, without trailing
zeros; nothing at all when it is zero. -/
def fractionText (width n : Nat) : String :=
  match ((paddedDigits width n).reverse.dropWhile (· == '0')).reverse with
  | [] => ""
  | digits => "." ++ String.ofList digits

/-- A number of units, of as many nanoseconds each as a one with that many
zeros says. -/
def unitText (nanos places : Nat) (unit : String) : String :=
  let size := Nat.pow 10 places
  Nat.repr (nanos / size) ++ fractionText places (nanos % size) ++ unit

/-- A duration for a reader, in the largest of seconds, milliseconds,
microseconds and nanoseconds that it is at least one of. -/
def text (d : Duration) : String :=
  if 1000000000 ≤ d.val then unitText d.val 9 "s"
  else if 1000000 ≤ d.val then unitText d.val 6 "ms"
  else if 1000 ≤ d.val then unitText d.val 3 "µs"
  else unitText d.val 0 "ns"

end Duration

end Rollup
