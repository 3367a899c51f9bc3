import Rollup.Proofs.Moves
import Rollup.Proofs.Parameters
import Rollup.Proofs.Screening

namespace Rollup

/-- Less than a millisecond apart. -/
def Duration.Near (a b : Duration) : Prop := a.nanos < b.nanos + 1000000 ∧ b.nanos < a.nanos + 1000000

instance (a b : Duration) : Decidable (a.Near b) := inferInstanceAs (Decidable (_ ∧ _))

/-- A bound is met by the same times whether or not zero counts as one. -/
theorem Filter.bound_le_iff {d time : Duration} : (∀ least ∈ bound d, least ≤ time) ↔ d ≤ time := by
  unfold bound
  split
  · rename_i zero
    rw [zero]
    exact ⟨fun _ => Nat.zero_le _, fun _ _ member => by cases member⟩
  · exact ⟨fun all => all d rfl, fun le _ member => Option.some.inj member ▸ le⟩

namespace Query

/-- A bound is longer than an id can carry, and the time lies between the
longest bound that it can and this one. -/
structure CutShort (bound time : Duration) : Prop where
  long : longestMillis < bound.millis
  after : Duration.ofMillis longestMillis ≤ time
  before : time ≤ bound

instance (bound time : Duration) : Decidable (CutShort bound time) :=
  decidable_of_iff (longestMillis < bound.millis ∧ Duration.ofMillis longestMillis ≤ time ∧ time ≤ bound)
    ⟨fun ⟨long, after, before⟩ => ⟨long, after, before⟩, fun cut => ⟨cut.long, cut.after, cut.before⟩⟩

theorem nanos_wholeMillis (d : Duration) : (wholeMillis d).nanos = min d.millis longestMillis * 1000000 := by
  have fits : min d.millis longestMillis * 1000000 ≤ Duration.cap := by
    have short := Nat.min_le_right d.millis longestMillis
    unfold longestMillis at short ⊢
    unfold Duration.cap
    omega
  exact Nat.min_eq_left fits

theorem wholeMillis_le (d : Duration) : wholeMillis d ≤ d := by
  have whole := nanos_wholeMillis d
  have fewer := Nat.min_le_left d.millis longestMillis
  have millis : d.millis = d.nanos / 1000000 := rfl
  show (wholeMillis d).nanos ≤ d.nanos
  omega

/-- From a bound as an id carries it up to the bound itself is less than a
millisecond, unless the bound is cut short. -/
theorem near_or_cutShort {bound time : Duration} (after : wholeMillis bound ≤ time) (before : time ≤ bound) :
    bound.Near time ∨ CutShort bound time := by
  have whole := nanos_wholeMillis bound
  rcases Nat.lt_or_ge longestMillis bound.millis with long | short
  · refine Or.inr ⟨long, ?_, before⟩
    have longest : wholeMillis bound = Duration.ofMillis longestMillis := by
      rw [wholeMillis, Nat.min_eq_right (Nat.le_of_lt long)]
    exact longest ▸ after
  · rw [Nat.min_eq_left short] at whole
    have millis : bound.millis = bound.nanos / 1000000 := rfl
    have least : (wholeMillis bound).nanos ≤ time.nanos := after
    have most : time.nanos ≤ bound.nanos := before
    exact Or.inl ⟨by omega, by omega⟩

theorem lower_normalized {f : Filter} {time : Duration} :
    (∀ least ∈ (normalized f).minTime, least ≤ time) ↔ ∀ least ∈ f.minTime, wholeMillis least ≤ time := by
  unfold normalized
  cases f.minTime with
  | none => simp
  | some least =>
    rw [Option.bind_some, Filter.bound_le_iff]
    simp

/-- An upper bound of at least a millisecond remains one. -/
theorem upper_normalized {f : Filter} {time : Duration} (large : ∀ most ∈ f.maxTime, Duration.ofMillis 1 ≤ most) :
    (∀ most ∈ (normalized f).maxTime, time ≤ most) ↔ ∀ most ∈ f.maxTime, time ≤ wholeMillis most := by
  unfold normalized
  cases upper : f.maxTime with
  | none => simp
  | some most =>
    have positive : wholeMillis most ≠ 0 := by
      intro zero
      have whole := nanos_wholeMillis most
      have one : (Duration.ofMillis 1).nanos = 1000000 := by decide
      have atLeast : (Duration.ofMillis 1).nanos ≤ most.nanos := large most upper
      have millis : most.millis = most.nanos / 1000000 := rfl
      have nothing : (wholeMillis most).nanos = 0 := congrArg Duration.nanos zero
      unfold longestMillis at whole
      omega
    rw [Option.bind_some, Filter.bound, if_neg positive]
    simp

/-- A time that does not lie from what an id carries of a bound up to the bound
is on the same side of the two. -/
theorem same_side {bound time : Duration} (apart : ¬(wholeMillis bound ≤ time ∧ time ≤ bound)) :
    (wholeMillis bound ≤ time ↔ bound ≤ time) ∧ (time ≤ wholeMillis bound ↔ time ≤ bound) := by
  have cut := wholeMillis_le bound
  simp only [Capped.le_iff] at cut apart ⊢
  omega

theorem acceptsTime_normalized {f : Filter} {time : Duration} (large : ∀ most ∈ f.maxTime, Duration.ofMillis 1 ≤ most)
    (apart : ∀ bound, bound ∈ f.minTime ∨ bound ∈ f.maxTime → ¬(wholeMillis bound ≤ time ∧ time ≤ bound)) :
    (normalized f).acceptsTime time = f.acceptsTime time := by
  rw [Bool.eq_iff_iff, Filter.acceptsTime_iff, Filter.acceptsTime_iff, lower_normalized, upper_normalized large]
  refine and_congr (forall₂_congr fun least isMin => ?_) (forall₂_congr fun most isMax => ?_)
  · exact (same_side (apart least (Or.inl isMin))).1
  · exact (same_side (apart most (Or.inr isMax))).2

/-- A query lets the same requests through as the filter it was given, but for
requests that took less than a millisecond more or less than a bound, and for
those between the longest bound that an id can carry and a longer one. -/
theorem withFilter_accepts {q r : Query} {f : Filter} (done : q.withFilter f = .ok r)
    (large : ∀ most ∈ f.maxTime, Duration.ofMillis 1 ≤ most) (v : View) :
    r.filter.accepts v = f.accepts v ∨ ∃ bound, (bound ∈ f.minTime ∨ bound ∈ f.maxTime) ∧
      (bound.Near v.record.time ∨ CutShort bound v.record.time) := by
  obtain ⟨_, _, _, rfl⟩ := withFilter_eq_ok_iff.mp done
  by_cases between : ∃ bound, (bound ∈ f.minTime ∨ bound ∈ f.maxTime) ∧
      wholeMillis bound ≤ v.record.time ∧ v.record.time ≤ bound
  · obtain ⟨bound, given, after, before⟩ := between
    exact Or.inr ⟨bound, given, near_or_cutShort after before⟩
  · left
    have time := acceptsTime_normalized large fun bound given inside => between ⟨bound, given, inside⟩
    rw [Filter.accepts, time]
    rfl

/-- Neither bound is a whole number of milliseconds, and the query carries two
others; the time lies well between them. -/
theorem withFilter_accepts_inside :
    let q := ofStandard ⟨"info", []⟩
    let f := (Filter.any.withMin (.ofNanos 100900000)).withMax (.ofNanos 200500000)
    let v := View.plain 1 (.ofMillis 150)
    (∀ most ∈ f.maxTime, Duration.ofMillis 1 ≤ most) ∧
      ∃ r, q.withFilter f = .ok r ∧ r.filter ≠ f ∧ r.filter.accepts v = f.accepts v := by
  intro q f v
  have large : ∀ most ∈ f.maxTime, Duration.ofMillis 1 ≤ most := by decide
  have done : q.withFilter f = .ok ⟨q.subject, normalized f⟩ := by decide
  refine ⟨large, _, done, by decide, (withFilter_accepts done large v).resolve_right ?_⟩
  rintro ⟨bound, isMin | isMax, close⟩
  · cases isMin
    exact absurd close (by decide)
  · cases isMax
    exact absurd close (by decide)

/-- An id carries a thousandth of the longest lower bound, and lets a request
through that took a thousandth of it. An upper bound of half a millisecond is
gone, and lets a request through that took ten seconds. -/
theorem bounds_move_far :
    let q := ofStandard ⟨"info", []⟩
    let longest : Duration := ⟨Duration.cap, Nat.le_refl _⟩
    let shortest := Duration.ofNanos 500000
    let lasting := View.plain 1 (.ofMillis longestMillis)
    let slow := View.plain 2 (.ofSecs 10)
    (∃ r, q.withFilter (Filter.any.withMin longest) = .ok r ∧ ¬longest.Near lasting.record.time ∧
        (Filter.any.withMin longest).accepts lasting = false ∧ r.filter.accepts lasting = true) ∧
      ∃ r, q.withFilter (Filter.any.withMax shortest) = .ok r ∧ ¬shortest.Near slow.record.time ∧
        (Filter.any.withMax shortest).accepts slow = false ∧ r.filter.accepts slow = true := by
  intro q longest shortest lasting slow
  exact ⟨⟨⟨q.subject, normalized (Filter.any.withMin longest)⟩, by decide +kernel⟩,
    ⟨q.subject, normalized (Filter.any.withMax shortest)⟩, by decide +kernel⟩

end Query

end Rollup
