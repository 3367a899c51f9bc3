import Rollup.Duration

namespace Rollup

/-- A point in time, in nanoseconds from the epoch; negative before it. -/
@[ext]
structure Instant where
  nanos : Int
deriving DecidableEq, Inhabited

namespace Instant

def epoch : Instant := ⟨0⟩

/-- The earliest point in time that a clock can name. -/
def earliest : Instant := ⟨-(9223372036854775808 * 1000000000)⟩

instance : LE Instant := ⟨fun a b => a.nanos ≤ b.nanos⟩

instance : LT Instant := ⟨fun a b => a.nanos < b.nanos⟩

instance (a b : Instant) : Decidable (a ≤ b) := inferInstanceAs (Decidable (a.nanos ≤ b.nanos))

instance (a b : Instant) : Decidable (a < b) := inferInstanceAs (Decidable (a.nanos < b.nanos))

instance : Max Instant := ⟨fun a b => ⟨max a.nanos b.nanos⟩⟩

theorem le_iff {a b : Instant} : a ≤ b ↔ a.nanos ≤ b.nanos := Iff.rfl

@[simp] theorem nanos_max (a b : Instant) : (max a b).nanos = max a.nanos b.nanos := rfl

def after (t : Instant) (d : Duration) : Instant := ⟨t.nanos + d.val⟩

/-- The instant `d` before `t`, if a clock can name it. -/
def before? (t : Instant) (d : Duration) : Option Instant :=
  if earliest.nanos ≤ t.nanos - d.val then some ⟨t.nanos - d.val⟩ else none

/-- The 64-bit reading of a clock in nanoseconds since the epoch: zero
before the epoch, and the largest reading past the last one. -/
def stamp (t : Instant) : Nat := min t.nanos.toNat 18446744073709551615

end Instant

end Rollup
