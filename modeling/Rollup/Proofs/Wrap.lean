import Rollup.Proofs.Ring
import Rollup.Proofs.Walk

namespace Rollup

namespace TimerRing

open Submission (slice?)

/-- The part of a list from one position up to another, if neither lies behind
the end and the second one not before the first. -/
def between? (l : List Timer) (start stop : Nat) : Option (List Timer) := do slice? l start (← Word.sub? stop start)

/-- `cut` in machine words, where no part is taken from beyond the end of a run. -/
def cutBetween? (runs : List Timer × List Timer) (base : Nat) (span : Span) : Option (List Timer × List Timer) := do
  let size := runs.1.length + runs.2.length
  let start := min (span.start - base) size
  let stop := min (← Word.add? start span.length) size
  if stop ≤ runs.1.length then return (← between? runs.1 start stop, [])
  let inSecond ← Word.sub? stop runs.1.length
  if runs.1.length ≤ start then return (← between? runs.2 (← Word.sub? start runs.1.length) inSecond, [])
  return (← between? runs.1 start runs.1.length, ← between? runs.2 0 inSecond)

theorem between?_eq {l : List Timer} {start stop : Nat} (order : start ≤ stop) (within : stop ≤ l.length) :
    between? l start stop = some (l.extract start stop) := by
  rw [between?, Word.sub?_eq order]
  exact Submission.slice?_eq_some_iff.mpr ⟨by omega, rfl⟩

theorem between?_length {l : List Timer} {start : Nat} (within : start ≤ l.length) :
    between? l start l.length = some (l.drop start) := by
  have whole : (l.drop start).take (l.length - start) = l.drop start := by rw [← List.length_drop, List.take_length]
  exact (between?_eq within (Nat.le_refl _)).trans (congrArg some whole)

theorem between?_zero {l : List Timer} {stop : Nat} (within : stop ≤ l.length) :
    between? l 0 stop = some (l.take stop) := between?_eq (Nat.zero_le _) within

/-- The start of a span is moved into the ring before its length is put to it,
so that is the only sum that has to fit. -/
theorem cutBetween?_eq {front back : List Timer} {base : Nat} {span : Span}
    (few : min (span.start - base) (front.length + back.length) + span.length < Word.limit) :
    cutBetween? (front, back) base span = some (cut (front, back) base span) := by
  unfold cutBetween? cut
  dsimp only
  rw [Word.add?_eq few, Option.bind_eq_bind, Option.bind_some]
  generalize begun : min (span.start - base) (front.length + back.length) = start
  generalize ended : min (start + span.length) (front.length + back.length) = stop
  have order : start ≤ stop := by omega
  have within : stop ≤ front.length + back.length := ended ▸ Nat.min_le_right _ _
  by_cases inFront : stop ≤ front.length
  · rw [if_pos inFront, if_pos inFront, between?_eq order inFront]
    rfl
  · rw [if_neg inFront, if_neg inFront, Word.sub?_eq (by omega), Option.bind_some]
    by_cases inBack : front.length ≤ start
    · rw [if_pos inBack, if_pos inBack, Word.sub?_eq inBack, Option.bind_some, between?_eq (by omega) (by omega)]
      rfl
    · rw [if_neg inBack, if_neg inBack, between?_length (by omega), between?_zero (by omega)]
      rfl

/-- However the timers of a ring are split into two runs, and wherever a span
lies, no part is asked for that a run does not have. What is cut out of the runs
is, put together, what the ring has from the start of the span on, no longer
than the span: all of its timers if it lies inside the ring, and in any case
one piece of the ring. For a span that goes beyond the newest timer its length
has to fit a machine word on top of the numbers of the ring. -/
theorem any_split_reads_span (ring : TimerRing) {front back : List Timer} (split : ring.timers = front ++ back)
    (span : Span) (word : span.stop ≤ ring.next ∧ ring.next < Word.limit ∨ ring.next + span.length < Word.limit) :
    ∃ first second, cutBetween? (front, back) ring.base span = some (first, second) ∧
      first ++ second = (ring.timers.drop (span.start - ring.base)).take span.length ∧
      (ring.base ≤ span.start → span.stop ≤ ring.next → first.length + second.length = span.length) ∧
      first ++ second <:+: ring.timers ∧ ring.read span = first ++ second := by
  have size : ring.timers.length = front.length + back.length := by rw [split, List.length_append]
  have numbers : ring.base + ring.timers.length = ring.next := rfl
  have parts := cut_eq front back ring.base span
  have taken : cutBetween? (front, back) ring.base span = some (cut (front, back) ring.base span) := by
    refine cutBetween?_eq ?_
    unfold Span.stop at word
    omega
  rw [← split] at parts
  generalize cut (front, back) ring.base span = both at parts taken
  obtain ⟨first, second⟩ := both
  refine ⟨first, second, taken, parts, fun after inside => ?_, ?_, (ring.read_eq span).trans parts.symm⟩
  · unfold Span.stop at inside
    rw [← List.length_append, parts, List.length_take, List.length_drop]
    omega
  · rw [parts]
    exact (List.take_prefix _ _).isInfix.trans (List.drop_suffix _ _).isInfix

/-- Four timers, the oldest of them in the last but one of five slots. -/
def wrapped : TimerRing where
  growStep := 5
  shrinkFactor := 1
  capacity := 5
  head := 3
  base := 7
  timers := [1, 2, 3, 4].map fun n => ⟨.ofNanos n, 1, 0, 0, []⟩

/-- A span of two timers, one before the wrap and one behind it, and one that
begins in front of the ring and ends behind it. -/
theorem wrapped_reads_spans :
    let runs := (wrapped.timers.take 2, wrapped.timers.drop 2)
    runs = wrapped.runs ∧ wrapped.timers = runs.1 ++ runs.2 ∧
      (Span.stop ⟨8, 2⟩ ≤ wrapped.next ∧ wrapped.next < Word.limit) ∧ wrapped.next + 9 < Word.limit ∧
      (∃ first second, cutBetween? runs wrapped.base ⟨8, 2⟩ = some (first, second) ∧
        (first ++ second).map (·.value.val) = [2, 3] ∧ first.length + second.length = 2) ∧
      ∃ first second, cutBetween? runs wrapped.base ⟨5, 9⟩ = some (first, second) ∧
        first ++ second <:+: wrapped.timers := by
  intro runs
  have split : wrapped.timers = runs.1 ++ runs.2 := by decide
  have inside : Span.stop ⟨8, 2⟩ ≤ wrapped.next ∧ wrapped.next < Word.limit := by decide
  have word : wrapped.next + 9 < Word.limit := by decide
  obtain ⟨first, second, cut, parts, length, _⟩ := any_split_reads_span wrapped split ⟨8, 2⟩ (Or.inl inside)
  obtain ⟨early, late, all, _, _, piece, _⟩ := any_split_reads_span wrapped split ⟨5, 9⟩ (Or.inr word)
  refine ⟨rfl, split, inside, word, ⟨first, second, cut, ?_, length (by decide) inside.1⟩, early, late, all, piece⟩
  rw [parts]
  decide

end TimerRing

end Rollup
