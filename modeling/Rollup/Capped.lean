namespace Rollup

/-- A natural number that never exceeds `cap`. Sums stop at the cap, so a
long run of additions stays representable; taking back is exact or refused. -/
@[ext]
structure Capped (cap : Nat) where
  val : Nat
  le_cap : val ≤ cap
deriving DecidableEq

namespace Capped

/-- The member closest to `n`. -/
def clamp (cap n : Nat) : Capped cap := ⟨min n cap, Nat.min_le_right n cap⟩

variable {cap : Nat}

instance : Zero (Capped cap) := ⟨⟨0, Nat.zero_le cap⟩⟩

instance : Inhabited (Capped cap) := ⟨0⟩

instance : Add (Capped cap) := ⟨fun a b => clamp cap (a.val + b.val)⟩

instance : LE (Capped cap) := ⟨fun a b => a.val ≤ b.val⟩

instance : LT (Capped cap) := ⟨fun a b => a.val < b.val⟩

instance (a b : Capped cap) : Decidable (a ≤ b) := inferInstanceAs (Decidable (a.val ≤ b.val))

instance (a b : Capped cap) : Decidable (a < b) := inferInstanceAs (Decidable (a.val < b.val))

/-- What is left of `a` once `b` is taken out of it, if `a` holds that much. -/
def sub? (a b : Capped cap) : Option (Capped cap) :=
  if b.val ≤ a.val then some ⟨a.val - b.val, Nat.le_trans (Nat.sub_le a.val b.val) a.le_cap⟩ else none

@[simp] theorem val_zero : (0 : Capped cap).val = 0 := rfl

@[simp] theorem val_clamp (n : Nat) : (clamp cap n).val = min n cap := rfl

theorem le_iff {a b : Capped cap} : a ≤ b ↔ a.val ≤ b.val := Iff.rfl

theorem lt_iff {a b : Capped cap} : a < b ↔ a.val < b.val := Iff.rfl

theorem sub?_eq_some_iff {a b c : Capped cap} :
    a.sub? b = some c ↔ b.val ≤ a.val ∧ c.val = a.val - b.val := by
  unfold sub?
  split
  · rename_i enough
    simp only [Option.some.injEq, Capped.ext_iff, enough, true_and]
    exact eq_comm
  · rename_i short
    simp [short]

end Capped

end Rollup
