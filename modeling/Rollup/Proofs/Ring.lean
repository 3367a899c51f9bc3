import Rollup.Proofs.Lanes
import Rollup.Proofs.Window
import Rollup.Proofs.Word

namespace Rollup

namespace TimerRing

/-- A ring without the timers numbered below `stop`, all of its slots kept. -/
def past (ring : TimerRing) (stop : Nat) : TimerRing :=
  let dropped := min (stop - ring.base) ring.size
  { ring with
    head := (ring.head + dropped) % ring.capacity
    base := ring.base + dropped
    timers := ring.timers.drop dropped }

/-- Slots that come in whole steps, one at least, and have room for `size`
timers. -/
structure Steps (step size capacity : Nat) : Prop where
  step_pos : 0 < step
  whole : step ∣ capacity
  positive : 0 < capacity
  room : size ≤ capacity

namespace Steps

variable {step size capacity : Nat}

theorem step_le (steps : Steps step size capacity) : step ≤ capacity := Nat.le_of_dvd steps.positive steps.whole

theorem resize (steps : Steps step size capacity) {other : Nat} (room : other ≤ capacity) : Steps step other capacity :=
  { steps with room }

theorem grow (steps : Steps step size capacity) (n : Nat) :
    Steps step (size + n) (capacity + Lanes.parts (size + n - capacity) step * step) := by
  have enough := Lanes.parts_mul_ge (size + n - capacity) steps.step_pos
  exact ⟨steps.step_pos, Nat.dvd_add steps.whole (Nat.dvd_mul_left step _), Nat.add_pos_left steps.positive _, by omega⟩

theorem shrink (positive : 0 < step) (left : Nat) : Steps step left (max (Lanes.parts left step) 1 * step) where
  step_pos := positive
  whole := Nat.dvd_mul_left step _
  positive := Nat.mul_pos (Nat.lt_of_lt_of_le Nat.one_pos (Nat.le_max_right _ _)) positive
  room := Nat.le_trans (Lanes.parts_mul_ge left positive) (Nat.mul_le_mul_right step (Nat.le_max_left _ _))

end Steps

/-- Slots for timers of which `asked` in all were to come so far. There is more
than one step of them only if more timers than that were to come, and then there
are not many more slots than those timers. -/
structure Sized (step size asked capacity : Nat) : Prop extends Steps step size capacity where
  needed : capacity = step ∨ step < asked ∧ capacity < asked + step

namespace Sized

variable {step size asked capacity : Nat}

theorem more (sized : Sized step size asked capacity) {n : Nat} (room : size + n ≤ capacity) :
    Sized step (size + n) (asked + n) capacity where
  toSteps := sized.resize room
  needed := sized.needed.imp_right fun needed => by omega

/-- New slots come only when the timers do not fit the old ones. -/
theorem grow (sized : Sized step size asked capacity) (inside : size ≤ asked) {n : Nat} (lacks : ¬size + n ≤ capacity) :
    Sized step (size + n) (asked + n) (capacity + Lanes.parts (size + n - capacity) step * step) := by
  have close := Lanes.parts_mul_lt (size + n - capacity) sized.step_pos
  have fewest := sized.step_le
  exact ⟨sized.toSteps.grow n, Or.inr (by omega)⟩

theorem fewer (sized : Sized step size asked capacity) {left : Nat} (less : left ≤ size) :
    Sized step left asked capacity where
  toSteps := sized.resize (Nat.le_trans less sized.room)
  needed := sized.needed

theorem shrink (sized : Sized step size asked capacity) (inside : size ≤ asked) {left : Nat} (less : left ≤ size)
    (several : step < capacity) : Sized step left asked (max (Lanes.parts left step) 1 * step) := by
  have close := Lanes.parts_mul_lt left sized.step_pos
  have needed := sized.needed
  refine ⟨Steps.shrink sized.step_pos left, ?_⟩
  rcases Nat.eq_zero_or_pos (Lanes.parts left step) with none | some
  · rw [none, Nat.max_eq_right (Nat.zero_le 1)]
    exact Or.inl step.one_mul
  · rw [Nat.max_eq_left some]
    omega

end Sized

/-- How many slots a ring has that holds `size` timers and gives the next one
the number `next`: not many of them are spare. -/
structure Fits (step factor size next capacity : Nat) : Prop extends Sized step size next capacity where
  factor_pos : 0 < factor
  spare : capacity = step ∨ capacity - size ≤ factor * step

namespace Fits

variable {step factor size next capacity : Nat}

theorem step_le_spare (fits : Fits step factor size next capacity) : step ≤ factor * step :=
  Nat.le_mul_of_pos_left step fits.factor_pos

theorem more (fits : Fits step factor size next capacity) {n : Nat} (room : size + n ≤ capacity) :
    Fits step factor (size + n) (next + n) capacity where
  toSized := fits.toSized.more room
  factor_pos := fits.factor_pos
  spare := fits.spare.imp_right fun spare => by omega

theorem grow (fits : Fits step factor size next capacity) (inside : size ≤ next) {n : Nat}
    (lacks : ¬size + n ≤ capacity) :
    Fits step factor (size + n) (next + n) (capacity + Lanes.parts (size + n - capacity) step * step) := by
  have close := Lanes.parts_mul_lt (size + n - capacity) fits.step_pos
  have most := fits.step_le_spare
  exact ⟨fits.toSized.grow inside lacks, fits.factor_pos, Or.inr (by omega)⟩

theorem fewer (fits : Fits step factor size next capacity) {left : Nat} (less : left ≤ size)
    (few : capacity ≤ step ∨ capacity - left ≤ factor * step) : Fits step factor left next capacity where
  toSized := fits.toSized.fewer less
  factor_pos := fits.factor_pos
  spare := few.imp_left fun least => Nat.le_antisymm least fits.step_le

theorem shrink (fits : Fits step factor size next capacity) (inside : size ≤ next) {left : Nat} (less : left ≤ size)
    (many : ¬(capacity ≤ step ∨ capacity - left ≤ factor * step)) :
    Fits step factor left next (max (Lanes.parts left step) 1 * step) := by
  have close := Lanes.parts_mul_lt left fits.step_pos
  have most := fits.step_le_spare
  refine ⟨fits.toSized.shrink inside less (by omega), fits.factor_pos, ?_⟩
  rcases Nat.eq_zero_or_pos (Lanes.parts left step) with none | some
  · rw [none, Nat.max_eq_right (Nat.zero_le 1)]
    exact Or.inl step.one_mul
  · rw [Nat.max_eq_left some]
    exact Or.inr (by omega)

end Fits

theorem size_le_next (ring : TimerRing) : ring.size ≤ ring.next := Nat.le_add_left _ _

/-- A ring that was to make room for `asked` timers so far, however many of them
came. -/
structure Asked (ring : TimerRing) (asked : Nat) : Prop where
  next_le : ring.next ≤ asked
  slots : Sized ring.growStep ring.size asked ring.capacity

/-- A ring whose slots fit its timers. -/
def Fitted (ring : TimerRing) : Prop := Fits ring.growStep ring.shrinkFactor ring.size ring.next ring.capacity

theorem Asked.size_le {ring : TimerRing} {asked : Nat} (sized : ring.Asked asked) : ring.size ≤ asked :=
  Nat.le_trans ring.size_le_next sized.next_le

theorem size_append (ring : TimerRing) (timers : List Timer) : (ring.append timers).size = ring.size + timers.length :=
  List.length_append

theorem next_append (ring : TimerRing) (timers : List Timer) : (ring.append timers).next = ring.next + timers.length := by
  rw [next, size_append, ← Nat.add_assoc]
  rfl

/-- The bounds that a ring is made with. -/
def limits (ring : TimerRing) : Nat × Nat := (ring.growStep, ring.shrinkFactor)

theorem limits_reserve (ring : TimerRing) (n : Nat) : (ring.reserve n).limits = ring.limits := by
  unfold reserve
  split <;> rfl

theorem limits_shrink (ring : TimerRing) : ring.shrink.limits = ring.limits := by
  unfold shrink
  split <;> rfl

theorem limits_dropBelow (ring : TimerRing) (stop : Nat) : (ring.dropBelow stop).limits = ring.limits := limits_shrink _

/-- Room is made for `n` timers, and as many or fewer are put in. -/
theorem Asked.take {ring : TimerRing} {asked : Nat} (sized : ring.Asked asked) {timers : List Timer} {n : Nat}
    (fewer : timers.length ≤ n) : ((ring.reserve n).append timers).Asked (asked + n) := by
  have next : ((ring.reserve n).append timers).next = ring.next + timers.length := by
    rw [next_append, TimerRing.next, size, reserve_timers, reserve_base]
    rfl
  refine ⟨by rw [next]; exact Nat.add_le_add sized.next_le fewer, ?_⟩
  rw [size_append, size, reserve_timers, ← size]
  unfold reserve
  split
  · rename_i room
    exact (sized.slots.more room).fewer (Nat.add_le_add_left fewer _)
  · rename_i lacks
    exact (sized.slots.grow sized.size_le lacks).fewer (Nat.add_le_add_left fewer _)

/-- Room is made for just the timers that are put in then. -/
theorem Fitted.take {ring : TimerRing} (fitted : ring.Fitted) {timers : List Timer} {n : Nat}
    (count : timers.length = n) : ((ring.reserve n).append timers).Fitted := by
  subst count
  unfold Fitted
  rw [size_append, next_append]
  unfold reserve
  split
  · rename_i room
    exact Fits.more fitted room
  · rename_i lacks
    exact Fits.grow fitted ring.size_le_next lacks

theorem size_past (ring : TimerRing) (stop : Nat) :
    (ring.past stop).size = ring.size - min (stop - ring.base) ring.size :=
  List.length_drop

theorem size_past_le (ring : TimerRing) (stop : Nat) : (ring.past stop).size ≤ ring.size := by
  rw [size_past]
  exact Nat.sub_le _ _

theorem next_past (ring : TimerRing) (stop : Nat) : (ring.past stop).next = ring.next := by
  have base : (ring.past stop).base = ring.base + min (stop - ring.base) ring.size := rfl
  rw [next, size_past, base, next]
  omega

theorem next_shrink (ring : TimerRing) : ring.shrink.next = ring.next := by
  rw [next, size, shrink_base, shrink_timers]
  rfl

theorem next_dropBelow (ring : TimerRing) (stop : Nat) : (ring.dropBelow stop).next = ring.next :=
  (next_shrink _).trans (ring.next_past stop)

theorem Asked.dropBelow {ring : TimerRing} {asked : Nat} (sized : ring.Asked asked) (stop : Nat) :
    (ring.dropBelow stop).Asked asked := by
  refine ⟨(ring.next_dropBelow stop).symm ▸ sized.next_le, ?_⟩
  have less := ring.size_past_le stop
  show Sized (ring.past stop).shrink.growStep (ring.past stop).shrink.size asked (ring.past stop).shrink.capacity
  rw [size, shrink_timers, ← size]
  unfold TimerRing.shrink
  split
  · exact sized.slots.fewer less
  · rename_i many
    exact sized.slots.shrink sized.size_le less (Nat.lt_of_not_le fun least => many (Or.inl least))

/-- A ring whose slots fit more timers than are left in it. -/
theorem Fits.shrink_fitted {ring : TimerRing} {before : Nat}
    (fits : Fits ring.growStep ring.shrinkFactor before ring.next ring.capacity) (inside : before ≤ ring.next)
    (less : ring.size ≤ before) : ring.shrink.Fitted := by
  unfold TimerRing.shrink
  split
  · rename_i few
    exact fits.fewer less few
  · rename_i many
    exact fits.shrink inside less many

theorem Fitted.past {ring : TimerRing} (fitted : ring.Fitted) (stop : Nat) :
    Fits (ring.past stop).growStep (ring.past stop).shrinkFactor ring.size (ring.past stop).next
      (ring.past stop).capacity := by
  rw [next_past]
  exact fitted

theorem Fitted.dropBelow {ring : TimerRing} (fitted : ring.Fitted) (stop : Nat) : (ring.dropBelow stop).Fitted :=
  (fitted.past stop).shrink_fitted (ring.next_past stop ▸ ring.size_le_next) (ring.size_past_le stop)

section Words

variable {ring : TimerRing}

end Words

end TimerRing

end Rollup
