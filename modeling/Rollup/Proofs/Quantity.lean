import Rollup.Grouping
import Rollup.Proofs.Histogram

namespace Rollup

namespace Sums

/-- One of the seven sums. -/
inductive Field
  | count
  | hits
  | time
  | userTime
  | systemTime
  | documentSize
  | memoryFootprint
deriving DecidableEq

/-- Where a sum stops, if it does. -/
def Field.cap? : Field → Option Nat
  | .time | .userTime | .systemTime => some Duration.cap
  | .documentSize | .memoryFootprint => some ByteCount.cap
  | .count | .hits => none

def amount (s : Sums) : Field → Nat
  | .count => s.count
  | .hits => s.hits
  | .time => s.time.val
  | .userTime => s.userTime.val
  | .systemTime => s.systemTime.val
  | .documentSize => s.documentSize.val
  | .memoryFootprint => s.memoryFootprint.val

theorem ext_amount {a b : Sums} (same : ∀ f, a.amount f = b.amount f) : a = b := by
  apply Sums.ext
  · exact same .count
  · exact same .hits
  · exact Capped.ext (same .time)
  · exact Capped.ext (same .userTime)
  · exact Capped.ext (same .systemTime)
  · exact Capped.ext (same .documentSize)
  · exact Capped.ext (same .memoryFootprint)

@[simp] theorem amount_zero (f : Field) : (0 : Sums).amount f = 0 := by
  cases f <;> rfl

theorem amount_le (s : Sums) {f : Field} {cap : Nat} (stops : f.cap? = some cap) : s.amount f ≤ cap := by
  cases f <;> cases stops
  · exact s.time.le_cap
  · exact s.userTime.le_cap
  · exact s.systemTime.le_cap
  · exact s.documentSize.le_cap
  · exact s.memoryFootprint.le_cap

/-- Sums can be taken back exactly when each of them is there. -/
theorem sub?_eq_some_iff {a b c : Sums} :
    a.sub? b = some c ↔ ∀ f, b.amount f ≤ a.amount f ∧ c.amount f = a.amount f - b.amount f := by
  constructor
  · intro taken f
    unfold sub? at taken
    split at taken
    · rename_i enough
      simp only [Option.pure_def, Option.bind_eq_bind, Option.bind_eq_some_iff, Option.some.injEq] at taken
      obtain ⟨time, atTime, user, atUser, system, atSystem, document, atDocument, memory, atMemory, rfl⟩ := taken
      cases f with
      | count => exact ⟨enough.1, rfl⟩
      | hits => exact ⟨enough.2, rfl⟩
      | time => exact Capped.sub?_eq_some_iff.mp atTime
      | userTime => exact Capped.sub?_eq_some_iff.mp atUser
      | systemTime => exact Capped.sub?_eq_some_iff.mp atSystem
      | documentSize => exact Capped.sub?_eq_some_iff.mp atDocument
      | memoryFootprint => exact Capped.sub?_eq_some_iff.mp atMemory
    · cases taken
  · intro each
    unfold sub?
    rw [if_pos ⟨(each .count).1, (each .hits).1⟩,
      Capped.sub?_eq_some_iff.mpr (each .time), Capped.sub?_eq_some_iff.mpr (each .userTime),
      Capped.sub?_eq_some_iff.mpr (each .systemTime), Capped.sub?_eq_some_iff.mpr (each .documentSize),
      Capped.sub?_eq_some_iff.mpr (each .memoryFootprint)]
    apply congrArg some
    apply ext_amount
    intro f
    cases f with
    | count => exact (each .count).2.symm
    | hits => exact (each .hits).2.symm
    | _ => rfl

theorem sub?_of_le {a b : Sums} (enough : ∀ f, b.amount f ≤ a.amount f) : ∃ c, a.sub? b = some c := by
  have capped {cap : Nat} {x y : Capped cap} (le : y.val ≤ x.val) : ∃ z, x.sub? y = some z :=
    ⟨_, if_pos le⟩
  obtain ⟨time, atTime⟩ := capped (enough .time)
  obtain ⟨user, atUser⟩ := capped (enough .userTime)
  obtain ⟨system, atSystem⟩ := capped (enough .systemTime)
  obtain ⟨document, atDocument⟩ := capped (enough .documentSize)
  obtain ⟨memory, atMemory⟩ := capped (enough .memoryFootprint)
  refine ⟨⟨a.count - b.count, a.hits - b.hits, time, user, system, document, memory⟩, ?_⟩
  rw [sub?, if_pos ⟨enough .count, enough .hits⟩, atTime, atUser, atSystem, atDocument, atMemory]
  rfl

end Sums

/-- What a summary adds up: a sum, or the observations in one cell of its
histogram. -/
inductive Quantity
  | sum (f : Sums.Field)
  | cell (i : Nat)
deriving DecidableEq

namespace Quantity

/-- An exact amount as a summary holds it. -/
def limit : Quantity → Nat → Nat
  | .sum f, n => f.cap?.elim n (min n)
  | .cell _, n => n

theorem limit_le (q : Quantity) (n : Nat) : q.limit n ≤ n := by
  cases q with
  | cell i => exact Nat.le_refl n
  | sum f =>
    rw [limit]
    cases f.cap? with
    | none => exact Nat.le_refl n
    | some cap => exact Nat.min_le_left n cap

theorem limit_limit_add (q : Quantity) (m n : Nat) : q.limit (q.limit m + n) = q.limit (m + n) := by
  cases q with
  | cell i => rfl
  | sum f =>
    rw [limit, limit, limit]
    cases f.cap? with
    | none => rfl
    | some cap => simp only [Option.elim_some]; omega

/-- No sum goes past where it stops. -/
def Fits (amount : Quantity → Nat) : Prop := ∀ f : Sums.Field, ∀ cap ∈ f.cap?, amount (.sum f) ≤ cap

theorem Fits.mono {large small : Quantity → Nat} (fits : Fits large) (below : ∀ q, small q ≤ large q) :
    Fits small := fun f cap stops => Nat.le_trans (below (.sum f)) (fits f cap stops)

theorem Fits.limit_eq {amount : Quantity → Nat} (fits : Fits amount) (q : Quantity) :
    q.limit (amount q) = amount q := by
  cases q with
  | cell i => rfl
  | sum f =>
    rw [limit]
    cases stops : f.cap? with
    | none => rfl
    | some cap => exact Nat.min_eq_left (fits f cap stops)

end Quantity

/-- What a contribution adds to a summary on a scale. -/
def Contribution.amount (scale : Scale) (c : Contribution) : Quantity → Nat
  | .sum f => c.sums.amount f
  | .cell i => scale.observed c.samples i

def Summary.amount (s : Summary) : Quantity → Nat
  | .sum f => s.sums.amount f
  | .cell i => s.histogram.count i

namespace Summary

@[simp] theorem amount_empty (scale : Scale) (q : Quantity) : (empty scale).amount q = 0 := by
  cases q with
  | sum f => exact Sums.amount_zero f
  | cell i => rfl

theorem ext_amount {s t : Summary} (scale : s.histogram.scale = t.histogram.scale)
    (same : ∀ q, s.amount q = t.amount q) : s = t := by
  have sums : s.sums = t.sums := Sums.ext_amount fun f => same (.sum f)
  have histogram : s.histogram = t.histogram := Histogram.ext_count scale fun i => same (.cell i)
  cases s
  cases t
  cases sums
  cases histogram
  rfl

/-- A summary never holds more than where its sums stop. -/
theorem fits (s : Summary) : Quantity.Fits s.amount := fun _ _ stops => s.sums.amount_le stops

@[simp] theorem add_scale (s : Summary) (sums : Sums) (samples : List Sample) :
    (s.add sums samples).histogram.scale = s.histogram.scale := Histogram.observeAll_scale _ _

theorem amount_add (s : Summary) (sums : Sums) (samples : List Sample) (q : Quantity) :
    (s.add sums samples).amount q =
      q.limit (s.amount q + Contribution.amount s.histogram.scale ⟨sums, samples⟩ q) := by
  cases q with
  | sum f => cases f <;> rfl
  | cell i => exact Histogram.count_observeAll s.histogram samples i

/-- Taking back is all or nothing: it succeeds exactly when the summary
holds every amount, and then it holds just that much less of each. -/
theorem sub?_eq_some_iff {s t : Summary} {sums : Sums} {samples : List Sample} :
    s.sub? sums samples = some t ↔ t.histogram.scale = s.histogram.scale ∧
      ∀ q, Contribution.amount s.histogram.scale ⟨sums, samples⟩ q ≤ s.amount q ∧
        t.amount q = s.amount q - Contribution.amount s.histogram.scale ⟨sums, samples⟩ q := by
  unfold sub?
  simp only [Option.pure_def, Option.bind_eq_bind, Option.bind_eq_some_iff, Option.some.injEq]
  constructor
  · rintro ⟨left, sumsTaken, histogram, samplesTaken, rfl⟩
    obtain ⟨scale, cells⟩ := Histogram.forgetAll?_eq_some_iff.mp samplesTaken
    refine ⟨scale, fun q => ?_⟩
    cases q with
    | sum f => exact Sums.sub?_eq_some_iff.mp sumsTaken f
    | cell i => exact cells i
  · rintro ⟨scale, amounts⟩
    exact ⟨t.sums, Sums.sub?_eq_some_iff.mpr fun f => amounts (.sum f), t.histogram,
      Histogram.forgetAll?_eq_some_iff.mpr ⟨scale, fun i => amounts (.cell i)⟩, rfl⟩

theorem sub?_of_le {s : Summary} {sums : Sums} {samples : List Sample}
    (enough : ∀ q, Contribution.amount s.histogram.scale ⟨sums, samples⟩ q ≤ s.amount q) :
    ∃ t, s.sub? sums samples = some t := by
  obtain ⟨left, sumsTaken⟩ := Sums.sub?_of_le fun f => enough (.sum f)
  obtain ⟨histogram, samplesTaken⟩ := Histogram.forgetAll?_of_le fun i => enough (.cell i)
  refine ⟨⟨left, histogram⟩, ?_⟩
  rw [sub?, sumsTaken, samplesTaken]
  rfl

theorem isEmpty_iff {s : Summary} : s.isEmpty = true ↔ ∀ q, s.amount q = 0 := by
  unfold isEmpty
  rw [decide_eq_true_eq, Histogram.isEmpty_iff]
  constructor
  · rintro ⟨sums, cells⟩ q
    cases q with
    | sum f => rw [amount, sums, Sums.amount_zero]
    | cell i => exact cells i
  · intro zero
    refine ⟨Sums.ext_amount fun f => ?_, fun i => zero (.cell i)⟩
    rw [Sums.amount_zero]
    exact zero (.sum f)

end Summary

end Rollup
