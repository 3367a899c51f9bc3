import Rollup.Monitor.Lanes

namespace Rollup

namespace Lanes

theorem parts_mul_ge (n : Nat) {size : Nat} (positive : 0 < size) : n ≤ parts n size * size := by
  have division := Nat.div_add_mod (n + size - 1) size
  have rest := Nat.mod_lt (n + size - 1) positive
  rw [parts, Nat.mul_comm]
  omega

theorem parts_mul_lt (n : Nat) {size : Nat} (positive : 0 < size) : parts n size * size < n + size := by
  have division := Nat.div_add_mod (n + size - 1) size
  rw [parts, Nat.mul_comm]
  omega

theorem flatten_pieces {α : Type} (work : List α) (size count : Nat) :
    ((List.range count).map fun i => (work.drop (i * size)).take size).flatten = work.take (count * size) := by
  induction count with
  | zero => simp
  | succ count ih =>
    rw [List.range_succ, List.map_append, List.flatten_append, ih, Nat.succ_mul, List.take_add]
    simp

/-- The lanes are the work, cut up. -/
theorem flatten_split {α : Type} (count : Nat) (work : List α) : (split count work).flatten = work := by
  unfold split
  dsimp only
  split
  · exact List.append_nil work
  · rename_i several
    have positive : 0 < parts work.length (min count work.length) := by
      have enough := parts_mul_ge work.length (Nat.lt_of_lt_of_le Nat.zero_lt_one (by omega) : 0 < min count work.length)
      rcases Nat.eq_zero_or_pos (parts work.length (min count work.length)) with none | some
      · rw [none] at enough
        omega
      · exact some
    rw [flatten_pieces]
    exact List.take_of_length_le (parts_mul_ge work.length positive)

end Lanes

end Rollup
