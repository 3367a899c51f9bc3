import Rollup.Proofs.Quantity
import Rollup.Proofs.Spread

namespace Rollup

namespace Histogram

/-- To put samples back together with one that was taken out is to put them
back before it was. -/
theorem observeAll_forgotten {h left : Histogram} {sample : Sample} (gone : h.forget? sample = some left)
    (samples : List Sample) : left.observeAll (samples ++ [sample]) = h.observeAll samples := by
  obtain ⟨scale, counts⟩ := forget?_eq_some_iff.mp gone
  refine ext_count (by simpa using scale) fun cell => ?_
  obtain ⟨enough, less⟩ := counts cell
  rw [count_observeAll, count_observeAll, scale, Scale.observed_append, less]
  omega

/-- Taking back in place answers as taking back on a copy does. Where a sample
is missing, the ones that were out go back in. -/
theorem forgetOn_eq (h : Histogram) (taken samples : List Sample) :
    h.forgetOn taken samples = (h.forgetAll? samples).elim (h.observeAll taken, false) fun left => (left, true) := by
  induction samples generalizing h taken with
  | nil => rfl
  | cons sample rest ih =>
    have split : h.forgetAll? (sample :: rest) = (h.forget? sample).bind (·.forgetAll? rest) := rfl
    rw [forgetOn, forget, split]
    cases first : h.forget? sample with
    | none => rfl
    | some left =>
      dsimp only [Option.bind_some]
      rw [ih, observeAll_forgotten first]

theorem forgetAll_eq (h : Histogram) (samples : List Sample) :
    h.forgetAll samples = (h.forgetAll? samples).elim (h, false) fun left => (left, true) :=
  h.forgetOn_eq [] samples

/-- What a holder of a histogram can do to it. -/
inductive Call
  | observe (sample : Sample)
  | forget (sample : Sample)
  | forgetAll (samples : List Sample)
deriving DecidableEq

/-- What a call leaves behind, whether it did what it should or not. -/
def call (h : Histogram) : Call → Histogram
  | .observe sample => h.observe sample
  | .forget sample => (h.forget sample).1
  | .forgetAll samples => (h.forgetAll samples).1

/-- What some calls make of an empty histogram, one after the other. -/
def play (scale : Scale) (calls : List Call) : Histogram := calls.foldl call (empty scale)

theorem play_append (scale : Scale) (calls : List Call) (last : Call) :
    play scale (calls ++ [last]) = (play scale calls).call last := List.foldl_concat ..

theorem observe_eq (h : Histogram) (sample : Sample) : h.observe sample = h.observeAll [sample] := rfl

theorem forget_eq (h : Histogram) (sample : Sample) : h.forget sample = h.forgetAll [sample] := by
  rw [forgetAll_eq, forget]
  cases taken : h.forget? sample <;> simp [forgetAll?, taken]

/-- A batch that is there comes out of each cell, and one that isn't leaves
all as it was. -/
theorem forgetAll_cases (h : Histogram) (samples : List Sample) :
    (∃ left, h.forgetAll samples = (left, true) ∧ left.scale = h.scale ∧
      ∀ cell, left.count cell + h.scale.observed samples cell = h.count cell) ∨
    h.forgetAll samples = (h, false) ∧ ∃ cell, h.count cell < h.scale.observed samples cell := by
  rw [forgetAll_eq]
  cases taken : h.forgetAll? samples with
  | none =>
    refine Or.inr ⟨rfl, ?_⟩
    by_contra enough
    obtain ⟨left, found⟩ := forgetAll?_of_le (h := h) fun cell => Nat.not_lt.mp fun short => enough ⟨cell, short⟩
    rw [taken] at found
    cases found
  | some left =>
    obtain ⟨scale, counts⟩ := forgetAll?_eq_some_iff.mp taken
    refine Or.inl ⟨left, rfl, scale, fun cell => ?_⟩
    have one := counts cell
    omega

/-- A histogram on a scale, with no observations outside of its cells. -/
structure Inside (scale : Scale) (h : Histogram) : Prop where
  onScale : h.scale = scale
  within : ∀ cell, scale.cells ≤ cell → h.count cell = 0

theorem Inside.forgetAll {scale : Scale} {h : Histogram} (inside : h.Inside scale) (samples : List Sample) :
    (h.forgetAll samples).1.Inside scale := by
  rcases h.forgetAll_cases samples with ⟨left, taken, same, counts⟩ | ⟨refused, _⟩
  · rw [taken]
    refine ⟨same.trans inside.onScale, fun cell beyond => ?_⟩
    have less := counts cell
    have none := inside.within cell beyond
    dsimp only
    omega
  · rwa [refused]

theorem Inside.call {scale : Scale} {h : Histogram} (some_cell : 0 < scale.cells) (inside : h.Inside scale) (c : Call) :
    (h.call c).Inside scale := by
  cases c with
  | observe sample =>
    rw [Histogram.call, observe_eq]
    refine ⟨by simpa using inside.onScale, fun cell beyond => ?_⟩
    rw [count_observeAll, inside.onScale, inside.within cell beyond, Scale.observed_beyond some_cell _ beyond]
  | forget sample =>
    rw [Histogram.call, forget_eq]
    exact inside.forgetAll [sample]
  | forgetAll samples => exact inside.forgetAll samples

theorem Inside.total_eq {scale : Scale} {h : Histogram} (inside : h.Inside scale) :
    h.total = ∑ cell ∈ Finset.range scale.cells, h.count cell := by
  have whole := total_eq_sum (h := h) fun cell beyond => inside.within cell (inside.onScale ▸ beyond)
  rwa [inside.onScale] at whole

end Histogram

namespace Summary

end Summary

namespace Histogram

end Histogram

end Rollup
