import Rollup.Proofs.Queue
import Rollup.Proofs.Ring
import Rollup.Proofs.Walk

namespace Rollup

/-- A submission of fewer timers than 32 bits can number, each of its tag counts
one of 32 bits. -/
structure Submission.Short (s : Submission) : Prop where
  timers : s.timerCount < Word.shortLimit
  tagCounts : ∀ count ∈ s.timerTagCounts, count < Word.shortLimit

theorem Submission.Short.tagSum_lt {s : Submission} (short : s.Short) (agrees : s.Agrees) : s.tagSum < Word.limit :=
  Submission.tagSum_lt (agrees.tagCounts.trans_le short.timers.le) short.tagCounts

namespace Window

/-- The submissions that are let in, in order. -/
def admitted (w : Window) : List Action → List Submission
  | [] => []
  | .append s now :: rest =>
    match w.append s now with
    | .ok (after, _) => s :: after.admitted rest
    | .error _ => w.admitted rest
  | .drop n :: rest => (w.dropOldest n).admitted rest

/-- Spans that lie one behind the other without a gap, from one number up to
another. -/
def Adjoin : Nat → List Span → Nat → Prop
  | start, [], stop => start = stop
  | start, span :: rest, stop => span.start = start ∧ Adjoin span.stop rest stop

theorem adjoin_append {first later : List Span} {start stop : Nat} :
    Adjoin start (first ++ later) stop ↔ ∃ between, Adjoin start first between ∧ Adjoin between later stop := by
  induction first generalizing start with
  | nil => exact ⟨fun rest => ⟨start, rfl, rest⟩, fun ⟨_, same, rest⟩ => same ▸ rest⟩
  | cons span spans ih =>
    constructor
    · rintro ⟨starts, both⟩
      obtain ⟨between, front, back⟩ := ih.mp both
      exact ⟨between, ⟨starts, front⟩, back⟩
    · rintro ⟨between, ⟨starts, front⟩, back⟩
      exact ⟨starts, ih.mpr ⟨between, front, back⟩⟩

theorem Adjoin.le {spans : List Span} {start stop : Nat} (adjoin : Adjoin start spans stop) : start ≤ stop := by
  induction spans generalizing start with
  | nil => exact Nat.le_of_eq adjoin
  | cons span rest ih =>
    obtain ⟨rfl, later⟩ := adjoin
    exact Nat.le_trans (Nat.le_add_right _ _) (ih later)

theorem Adjoin.stop_last {spans : List Span} {start stop : Nat} (adjoin : Adjoin start spans stop) {last : Span}
    (found : spans.getLast? = some last) : last.stop = stop := by
  obtain ⟨front, rfl⟩ := List.getLast?_eq_some_iff.mp found
  obtain ⟨between, -, -, ends⟩ := adjoin_append.mp adjoin
  exact ends

/-- The spans of the requests fill the ring, from its oldest timer to its
newest. -/
def Tiled (w : Window) : Prop := Adjoin w.ring.base (w.requests.map (·.timers)) w.ring.next

theorem Tiled.keep {w : Window} (tiled : w.Tiled) {s : Submission} (now : Instant)
    (counted : (w.recordOf s now).timers.stop = (w.keep s now).ring.next) : (w.keep s now).Tiled := by
  unfold Tiled
  rw [keep_base, keep_requests, List.map_append]
  exact adjoin_append.mpr ⟨_, tiled, rfl, counted⟩

theorem Tiled.dropOldest {w : Window} (tiled : w.Tiled) (n : Nat) : (w.dropOldest n).Tiled := by
  unfold Window.dropOldest
  cases found : (w.requests.take n).getLast? with
  | none => exact tiled
  | some last =>
    have split : w.requests.map (·.timers) =
        (w.requests.take n).map (·.timers) ++ (w.requests.drop n).map (·.timers) := by
      rw [← List.map_append, List.take_append_drop]
    unfold Tiled at tiled
    rw [split] at tiled
    obtain ⟨between, gone, left⟩ := adjoin_append.mp tiled
    have ends : last.timers.stop = between := gone.stop_last (by rw [List.getLast?_map, found]; rfl)
    have lower := gone.le
    have upper := left.le
    have base : (w.ring.dropBelow last.timers.stop).base = between := by
      rw [TimerRing.dropBelow_base, ends]
      unfold TimerRing.next at upper
      omega
    show Adjoin (w.ring.dropBelow last.timers.stop).base _ (w.ring.dropBelow last.timers.stop).next
    rw [base, TimerRing.next_dropBelow]
    exact left

section Kept

variable {w : Window} {s : Submission} {now : Instant} {both : Window × Nat}

theorem length_learnTimers_le (lex : Lexicon) (s : Submission) : (learnTimers lex s.timers).2.length ≤ s.timerCount := by
  rw [length_learnTimers]
  exact s.length_timers_le

theorem agrees_of_append (appended : w.append s now = .ok both) : s.Agrees := by
  unfold append at appended
  split at appended
  · cases appended
  · rename_i checked
    exact Submission.check_eq_ok_iff.mp checked

/-- A submission that is let in brings as many timers as it counts, if its tag
counts add up within a word. -/
theorem length_learnTimers_of_append (appended : w.append s now = .ok both) (counted : s.tagSum < Word.limit) :
    (learnTimers w.lexicon s.timers).2.length = s.timerCount :=
  (length_learnTimers _ _).trans (Submission.Accords.length_timers ⟨agrees_of_append appended, counted⟩)

theorem recordOf_length (appended : w.append s now = .ok both) (short : s.Short) :
    (w.recordOf s now).timers.length = s.timerCount := by
  have length : (w.recordOf s now).timers.length = Word.cut (learnTimers w.lexicon s.timers).2.length :=
    Span.length_ofCount _ _
  have counted := short.tagSum_lt (agrees_of_append appended)
  rw [length, length_learnTimers_of_append appended counted, Word.cut_eq short.timers]

theorem recordOf_stop (appended : w.append s now = .ok both) (short : s.Short) :
    (w.recordOf s now).timers.stop = (w.keep s now).ring.next := by
  have counted := short.tagSum_lt (agrees_of_append appended)
  rw [keep_next, length_learnTimers_of_append appended counted, ← recordOf_length appended short]
  rfl

end Kept

theorem dropOldest_ring_cases (w : Window) (n : Nat) :
    (w.dropOldest n).ring = w.ring ∨ ∃ stop, (w.dropOldest n).ring = w.ring.dropBelow stop := by
  unfold dropOldest
  split
  · exact Or.inl rfl
  · exact Or.inr ⟨_, rfl⟩

variable {w : Window} {limits : Nat × Nat}

theorem admitted_cons (w : Window) (action : Action) (rest : List Action) :
    w.admitted (action :: rest) = w.admitted [action] ++ (w.act action).admitted rest := by
  cases action with
  | append s now =>
    rw [admitted, admitted, act]
    cases w.append s now <;> rfl
  | drop n => rfl

theorem admitted_of_refused {s : Submission} {now : Instant} {refusal : Refusal}
    (refused : w.append s now = .error refusal) : w.admitted [.append s now] = [] := by
  rw [admitted, refused]
  rfl

theorem admitted_of_kept {s : Submission} {now : Instant} (appended : w.append s now = .ok (w.keep s now, w.nextId)) :
    w.admitted [.append s now] = [s] := by
  rw [admitted, appended]
  rfl

theorem Tiled.act (tiled : w.Tiled) (action : Action) (short : ∀ s ∈ w.admitted [action], s.Short) :
    (w.act action).Tiled := by
  have outcome := w.act_outcome action
  generalize w.act action = after at outcome
  cases outcome with
  | refused _ _ => exact tiled
  | @kept s now appended =>
    have own := short s (admitted_of_kept appended ▸ List.mem_singleton_self s)
    exact tiled.keep now (recordOf_stop appended own)
  | dropped n => exact tiled.dropOldest n

/-- A window that was to make room for `asked` timers so far. -/
structure Asked (w : Window) (limits : Nat × Nat) (asked : Nat) : Prop where
  limits : w.ring.limits = limits
  ring : w.ring.Asked asked

/-- How many timers the submissions that some actions let in count in all. -/
def admittedTimers (w : Window) (actions : List Action) : Nat := ((w.admitted actions).map Submission.timerCount).sum

theorem Asked.keep {asked : Nat} (sized : w.Asked limits asked) (s : Submission) (now : Instant) :
    (w.keep s now).Asked limits (asked + s.timerCount) where
  limits := (TimerRing.limits_reserve _ _).trans sized.limits
  ring := sized.ring.take (length_learnTimers_le w.lexicon s)

theorem Asked.dropOldest {asked : Nat} (sized : w.Asked limits asked) (n : Nat) : (w.dropOldest n).Asked limits asked := by
  rcases w.dropOldest_ring_cases n with same | ⟨stop, same⟩
  · exact ⟨same ▸ sized.limits, same ▸ sized.ring⟩
  · have limits := (w.ring.limits_dropBelow stop).trans sized.limits
    exact ⟨same ▸ limits, same ▸ sized.ring.dropBelow stop⟩

theorem Asked.act {asked : Nat} (sized : w.Asked limits asked) (action : Action) :
    (w.act action).Asked limits (asked + w.admittedTimers [action]) := by
  unfold admittedTimers
  have outcome := w.act_outcome action
  generalize w.act action = after at outcome
  cases outcome with
  | refused _ refused =>
    rw [admitted_of_refused refused]
    exact sized
  | @kept s now appended =>
    rw [admitted_of_kept appended]
    exact sized.keep s now
  | dropped n => exact sized.dropOldest n

theorem admittedTimers_cons (w : Window) (action : Action) (rest : List Action) :
    w.admittedTimers (action :: rest) = w.admittedTimers [action] + (w.act action).admittedTimers rest := by
  rw [admittedTimers, admitted_cons, List.map_append, List.sum_append]
  rfl

/-- Whatever comes, there is room for it. -/
theorem Asked.play {asked : Nat} (sized : w.Asked limits asked) (actions : List Action) :
    (w.play actions).Asked limits (asked + w.admittedTimers actions) := by
  induction actions generalizing w asked with
  | nil => exact sized
  | cons action rest ih =>
    rw [admittedTimers_cons, ← Nat.add_assoc]
    exact ih (sized.act action)

/-- A request of seven timers more than fills the ring, and two are dropped. -/
def rush : List Action :=
  let request (n : Nat) : Submission := {
    script := "rush", timerValues := List.replicate n (Duration.ofMillis 1), timerHits := List.replicate n 1
    timerTagCounts := List.replicate n 0 }
  [.append (request 3) ⟨1⟩, .append (request 7) ⟨2⟩, .drop 1, .drop 1]

end Window

end Rollup
