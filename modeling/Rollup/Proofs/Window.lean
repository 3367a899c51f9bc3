import Rollup.Proofs.Lexicon
import Rollup.Proofs.Mirror
import Rollup.Window

namespace Rollup

namespace TimerRing

@[simp] theorem reserve_timers (ring : TimerRing) (n : Nat) : (ring.reserve n).timers = ring.timers := by
  unfold reserve
  split <;> rfl

@[simp] theorem reserve_base (ring : TimerRing) (n : Nat) : (ring.reserve n).base = ring.base := by
  unfold reserve
  split <;> rfl

@[simp] theorem shrink_timers (ring : TimerRing) : ring.shrink.timers = ring.timers := by
  unfold shrink
  split <;> rfl

@[simp] theorem shrink_base (ring : TimerRing) : ring.shrink.base = ring.base := by
  unfold shrink
  split <;> rfl

@[simp] theorem dropBelow_timers (ring : TimerRing) (stop : Nat) :
    (ring.dropBelow stop).timers = ring.timers.drop (min (stop - ring.base) ring.size) := shrink_timers _

@[simp] theorem dropBelow_base (ring : TimerRing) (stop : Nat) :
    (ring.dropBelow stop).base = ring.base + min (stop - ring.base) ring.size := shrink_base _

/-- A piece of a list does not change when its ends are moved back into it. -/
theorem take_drop_clamp {α : Type} (l : List α) (start length : Nat) :
    (l.drop (min start l.length)).take (min (min start l.length + length) l.length - min start l.length) =
      (l.drop start).take length := by
  rcases Nat.le_total start l.length with inside | beyond
  · rw [Nat.min_eq_left inside]
    refine List.take_eq_take_iff.mpr ?_
    rw [List.length_drop]
    omega
  · rw [Nat.min_eq_right beyond, List.drop_length, List.drop_eq_nil_of_le beyond, List.take_nil, List.take_nil]

/-- The two parts of a cut are one piece of the two runs together. -/
theorem cut_eq (front back : List Timer) (base : Nat) (span : Span) :
    (cut (front, back) base span).1 ++ (cut (front, back) base span).2 =
      ((front ++ back).drop (span.start - base)).take span.length := by
  rw [← take_drop_clamp, List.length_append]
  unfold cut
  dsimp only
  generalize begun : min (span.start - base) (front.length + back.length) = start
  generalize ended : min (start + span.length) (front.length + back.length) = stop
  have order : start ≤ stop := by omega
  split
  · rename_i inFront
    have room : stop - start ≤ (front.drop start).length := by
      rw [List.length_drop]
      omega
    rw [List.append_nil, List.drop_append_of_le_length (by omega), List.take_append_of_le_length room]
  · split
    · rename_i inBack
      have length : stop - front.length - (start - front.length) = stop - start := by omega
      rw [List.append_nil, List.drop_append, List.drop_eq_nil_of_le inBack, List.nil_append, ← length]
    · rename_i passesFront passesStart
      have whole : (front.drop start).length ≤ stop - start := by
        rw [List.length_drop]
        omega
      have rest : stop - start - (front.drop start).length = stop - front.length := by
        rw [List.length_drop]
        omega
      rw [List.drop_append_of_le_length (by omega), List.take_append, List.take_of_length_le whole, rest]

/-- Reading a span does not depend on where in the ring its timers lie. -/
theorem read_eq (ring : TimerRing) (span : Span) :
    ring.read span = (ring.timers.drop (span.start - ring.base)).take span.length := by
  have whole : ring.runs.1 ++ ring.runs.2 = ring.timers := List.take_append_drop _ _
  have piece := cut_eq ring.runs.1 ring.runs.2 ring.base span
  rw [whole] at piece
  exact piece

theorem read_append {ring : TimerRing} {span : Span} (after : ring.base ≤ span.start)
    (inside : span.stop ≤ ring.next) (timers : List Timer) : (ring.append timers).read span = ring.read span := by
  have short : span.start - ring.base + span.length ≤ ring.timers.length := by
    unfold Span.stop next size at inside
    omega
  have room : span.length ≤ (ring.timers.drop (span.start - ring.base)).length := by
    rw [List.length_drop]
    omega
  have base : (ring.append timers).base = ring.base := rfl
  have all : (ring.append timers).timers = ring.timers ++ timers := rfl
  rw [read_eq, read_eq, base, all, List.drop_append_of_le_length (by omega), List.take_append_of_le_length room]

theorem read_reserve (ring : TimerRing) (n : Nat) (span : Span) : (ring.reserve n).read span = ring.read span := by
  rw [read_eq, read_eq, reserve_timers, reserve_base]

/-- The timers below a number are of no matter for a span that starts there. -/
theorem read_dropBelow {ring : TimerRing} {span : Span} {stop : Nat} (after : ring.base ≤ span.start)
    (inside : span.stop ≤ ring.next) (above : stop ≤ span.start) : (ring.dropBelow stop).read span = ring.read span := by
  rw [read_eq, read_eq, dropBelow_timers, dropBelow_base, List.drop_drop]
  unfold Span.stop next at inside
  have start : min (stop - ring.base) ring.size + (span.start - (ring.base + min (stop - ring.base) ring.size)) =
      span.start - ring.base := by omega
  rw [start]

theorem read_mem {ring : TimerRing} {span : Span} {timer : Timer} (member : timer ∈ ring.read span) :
    timer ∈ ring.timers := by
  rw [read_eq] at member
  exact List.mem_of_mem_drop (List.mem_of_mem_take member)

end TimerRing

/-- A submission as one contribution, as if it were a request already. -/
def Submission.whole (s : Submission) : Contribution where
  sums := {
    count := 1
    hits := 1
    time := s.time
    userTime := s.userTime
    systemTime := s.systemTime
    documentSize := s.documentSize
    memoryFootprint := s.memoryFootprint }
  samples := [⟨s.time, 1⟩]

/-- The timers of a submission that a span has room for. -/
def Submission.keptTimers (s : Submission) : List Submission.Timer := s.timers.take (Word.cut s.timers.length)

def Submission.pieces (s : Submission) : List Contribution :=
  s.keptTimers.map fun t => .ofTimer ⟨t.value, t.hits, t.userTime, t.systemTime, []⟩

namespace View

def whole (v : View) : Contribution := .ofRequest v.record

def pieces (v : View) : List Contribution := v.timers.map .ofTimer

theorem Twin.whole_eq {v w : View} (twin : v.Twin w) : w.whole = v.whole :=
  congrArg Contribution.ofRequest twin.record

theorem Twin.pieces_eq {v w : View} (twin : v.Twin w) : w.pieces = v.pieces :=
  congrArg (List.map Contribution.ofTimer) twin.timers

end View

namespace Window

/-- The spans of the requests lie in the ring one behind the other, the
requests are numbered without a gap, and every tag stands for words. -/
structure Sound (w : Window) : Prop where
  spans : w.requests.Pairwise fun r s => r.timers.stop ≤ s.timers.start
  inside : ∀ r ∈ w.requests, w.ring.base ≤ r.timers.start ∧ r.timers.stop ≤ w.ring.next
  numbers : ∀ i r, w.requests[i]? = some r → r.id + (w.size - i) = w.nextId
  tags : ∀ r ∈ w.requests, ∀ tag ∈ r.tags, w.lexicon.Knows tag
  timerTags : ∀ timer ∈ w.ring.timers, ∀ tag ∈ timer.tags, w.lexicon.Knows tag

theorem empty_sound (capacity growStep shrinkFactor mostWords : Nat) :
    (empty capacity growStep shrinkFactor mostWords).Sound :=
  ⟨.nil, fun _ member => (nomatch member), fun _ _ found => (nomatch found), fun _ member => (nomatch member),
    fun _ member => (nomatch member)⟩

theorem Sound.id_lt {w : Window} (sound : w.Sound) {r : Record} (member : r ∈ w.requests) : r.id < w.nextId := by
  obtain ⟨i, within, rfl⟩ := List.mem_iff_getElem.mp member
  have number := sound.numbers i _ (List.getElem?_eq_getElem within)
  unfold size at number
  omega

theorem Sound.ids_increase {w : Window} (sound : w.Sound) : w.requests.Pairwise fun r s => r.id < s.id := by
  refine List.pairwise_iff_getElem.mpr fun i j first second before => ?_
  have left := sound.numbers i _ (List.getElem?_eq_getElem first)
  have right := sound.numbers j _ (List.getElem?_eq_getElem second)
  unfold size at left right
  omega

/-- A window that has only learnt words and taken requests in since. -/
structure Grows (w w' : Window) (new : List Record) : Prop where
  sound : w'.Sound
  requests : w'.requests = w.requests ++ new
  twins : ∀ r ∈ w.requests, (w.viewOf r).Twin (w'.viewOf r)
  capacity : w'.capacity = w.capacity
  nextId : w'.nextId = w.nextId + new.length

theorem Sound.refl_grows {w : Window} (sound : w.Sound) : w.Grows w [] :=
  ⟨sound, (List.append_nil _).symm, fun _ _ => .refl _, rfl, rfl⟩

theorem Grows.trans {w w' w'' : Window} {first later : List Record} (left : w.Grows w' first)
    (right : w'.Grows w'' later) : w.Grows w'' (first ++ later) where
  sound := right.sound
  requests := by rw [right.requests, left.requests, List.append_assoc]
  twins r member := (left.twins r member).trans
    (right.twins r (left.requests ▸ List.mem_append_left _ member))
  capacity := right.capacity.trans left.capacity
  nextId := by rw [right.nextId, left.nextId, List.length_append, Nat.add_assoc]

/-- What timers add to sums has nothing to do with their tags. -/
theorem learnTimers_contributions (lex : Lexicon) (timers : List Submission.Timer) :
    (learnTimers lex timers).2.map Contribution.ofTimer =
      timers.map fun t => Contribution.ofTimer ⟨t.value, t.hits, t.userTime, t.systemTime, []⟩ := by
  have spelled := (learnTimers_settles lex timers).2.spelled _ (.refl _)
  have each := congrArg (List.map fun t : Submission.Timer =>
    Contribution.ofTimer ⟨t.value, t.hits, t.userTime, t.systemTime, []⟩) spelled
  rw [List.map_map, List.map_map] at each
  exact each

theorem length_learnTimers (lex : Lexicon) (timers : List Submission.Timer) :
    (learnTimers lex timers).2.length = timers.length := by
  have lengths := congrArg List.length (learnTimers_contributions lex timers)
  rwa [List.length_map, List.length_map] at lengths

theorem append_eq_ok {w : Window} {s : Submission} {now : Instant} {both : Window × Nat}
    (appended : w.append s now = .ok both) : both = (w.keep s now, w.nextId) := by
  unfold append at appended
  split at appended
  · cases appended
  · split at appended
    · cases appended
    · exact (Except.ok.inj appended).symm

section Keeping

variable {w : Window} (s : Submission) (now : Instant)

/-- The record that a submission becomes. -/
def recordOf (w : Window) (s : Submission) (now : Instant) : Record where
  id := w.nextId
  timestamp := max (max now w.lastTimestamp) firstMoment
  host := Text.clip Record.hostRoom s.host
  server := Text.clip Record.serverRoom s.server
  script := Text.clip Record.scriptRoom s.script
  schema := Text.clip Record.schemaRoom s.schema
  status := s.status
  requestCount := s.requestCount
  documentSize := s.documentSize
  memoryPeak := s.memoryPeak
  memoryFootprint := s.memoryFootprint
  time := s.time
  userTime := s.userTime
  systemTime := s.systemTime
  tags := ((learnTimers w.lexicon s.timers).1.learnTags s.tags).2
  timers := .ofCount w.ring.next (learnTimers w.lexicon s.timers).2.length

theorem keep_requests (w : Window) : (w.keep s now).requests = w.requests ++ [w.recordOf s now] := rfl

theorem keep_ring (w : Window) : (w.keep s now).ring =
    (w.ring.reserve s.timerCount).append (learnTimers w.lexicon s.timers).2 := rfl

theorem keep_lexicon (w : Window) : (w.keep s now).lexicon =
    ((learnTimers w.lexicon s.timers).1.learnTags s.tags).1 := rfl

theorem keep_extends (w : Window) : w.lexicon.Extends (w.keep s now).lexicon := by
  rw [keep_lexicon]
  exact (learnTimers_settles w.lexicon s.timers).1.trans (Lexicon.learnTags_settles _ s.tags).1

theorem keep_base (w : Window) : (w.keep s now).ring.base = w.ring.base := TimerRing.reserve_base _ _

theorem keep_timers (w : Window) :
    (w.keep s now).ring.timers = w.ring.timers ++ (learnTimers w.lexicon s.timers).2 := by
  rw [keep_ring]
  exact congrArg (· ++ _) (TimerRing.reserve_timers _ _)

theorem keep_next (w : Window) :
    (w.keep s now).ring.next = w.ring.next + (learnTimers w.lexicon s.timers).2.length := by
  rw [TimerRing.next, TimerRing.size, keep_base, keep_timers, List.length_append, TimerRing.next, TimerRing.size,
    Nat.add_assoc]

theorem Sound.keep_read (sound : w.Sound) {r : Record} (member : r ∈ w.requests) :
    (w.keep s now).ring.read r.timers = w.ring.read r.timers := by
  obtain ⟨after, inside⟩ := sound.inside r member
  have base := TimerRing.reserve_base w.ring s.timerCount
  have next : (w.ring.reserve s.timerCount).next = w.ring.next := by
    rw [TimerRing.next, TimerRing.next, TimerRing.size, TimerRing.size, base, TimerRing.reserve_timers]
  rw [keep_ring, TimerRing.read_append (base ▸ after) (next ▸ inside), TimerRing.read_reserve]

/-- The span of a new request covers its timers up to the number that is kept
in 32 bits. -/
theorem keep_read_new (w : Window) : (w.keep s now).ring.read (w.recordOf s now).timers =
    (learnTimers w.lexicon s.timers).2.take (Word.cut s.timers.length) := by
  have start : w.ring.next - w.ring.base = w.ring.timers.length := by
    unfold TimerRing.next TimerRing.size
    omega
  have length : (w.recordOf s now).timers.length = Word.cut s.timers.length := by
    rw [← length_learnTimers w.lexicon s.timers]
    exact Span.length_ofCount _ _
  rw [TimerRing.read_eq, keep_base, keep_timers, length]
  show ((w.ring.timers ++ _).drop (w.ring.next - w.ring.base)).take _ = _
  rw [start, List.drop_left]

theorem Sound.keep_sound (sound : w.Sound) : (w.keep s now).Sound := by
  have lexicon := w.keep_extends s now
  obtain ⟨_, timers⟩ := learnTimers_settles w.lexicon s.timers
  obtain ⟨later, tags⟩ := Lexicon.learnTags_settles (learnTimers w.lexicon s.timers).1 s.tags
  have stop : (w.recordOf s now).timers.stop ≤ (w.keep s now).ring.next := by
    rw [keep_next]
    exact Nat.add_le_add_left (Nat.le_trans (Nat.le_of_eq (Span.length_ofCount _ _)) (Word.cut_le _)) _
  refine ⟨?_, fun r member => ?_, fun i r found => ?_, fun r member tag tagged => ?_, fun timer member tag tagged => ?_⟩
  · -- The new span starts where the ring ends, and every other span stops before that.
    rw [keep_requests]
    refine List.pairwise_append.mpr ⟨sound.spans, List.pairwise_singleton _ _, fun r old new isNew => ?_⟩
    cases List.mem_singleton.mp isNew
    exact (sound.inside r old).2
  · rw [keep_base]
    rcases List.mem_append.mp (w.keep_requests s now ▸ member) with old | isNew
    · obtain ⟨after, inside⟩ := sound.inside r old
      have next := w.keep_next s now
      omega
    · cases List.mem_singleton.mp isNew
      exact ⟨Nat.le_add_right _ _, stop⟩
  · have size : (w.keep s now).size = w.requests.length + 1 := by
      rw [Window.size, keep_requests, List.length_append]
      rfl
    have nextId : (w.keep s now).nextId = w.nextId + 1 := rfl
    rw [keep_requests] at found
    rw [size, nextId]
    rcases Nat.lt_or_ge i w.requests.length with old | isNew
    · rw [List.getElem?_append_left old] at found
      have number := sound.numbers i r found
      unfold Window.size at number
      omega
    · rw [List.getElem?_append_right isNew] at found
      obtain ⟨within, _⟩ := List.getElem?_eq_some_iff.mp found
      have last : i - w.requests.length = 0 := by simpa using within
      rw [last] at found
      cases Option.some.inj found
      have number : (w.recordOf s now).id = w.nextId := rfl
      omega
  · rcases List.mem_append.mp (w.keep_requests s now ▸ member) with old | isNew
    · exact lexicon.knows (sound.tags r old tag tagged)
    · cases List.mem_singleton.mp isNew
      exact tags.known tag tagged
  · rw [keep_timers] at member
    rcases List.mem_append.mp member with old | isNew
    · exact lexicon.knows (sound.timerTags timer old tag tagged)
    · exact later.knows (timers.known timer isNew tag tagged)

theorem Sound.keep_grows (sound : w.Sound) : w.Grows (w.keep s now) [w.recordOf s now] := by
  have lexicon := w.keep_extends s now
  refine ⟨sound.keep_sound s now, w.keep_requests s now, fun r member => ⟨rfl, sound.keep_read s now member, ?_, ?_⟩,
    rfl, rfl⟩
  · exact fun tag tagged => lexicon.spell_eq (sound.tags r member tag tagged)
  · intro timer known tag tagged
    exact lexicon.spell_eq (sound.timerTags timer (TimerRing.read_mem known) tag tagged)

theorem keep_whole (w : Window) : ((w.keep s now).viewOf (w.recordOf s now)).whole = s.whole := rfl

theorem keep_pieces (w : Window) : ((w.keep s now).viewOf (w.recordOf s now)).pieces = s.pieces := by
  have timers : ((w.keep s now).viewOf (w.recordOf s now)).timers =
      (learnTimers w.lexicon s.timers).2.take (Word.cut s.timers.length) := w.keep_read_new s now
  rw [View.pieces, timers, List.map_take, learnTimers_contributions, Submission.pieces, Submission.keptTimers,
    List.map_take]

end Keeping

section Dropping

variable {w : Window}

theorem dropOldest_requests (w : Window) (n : Nat) : (w.dropOldest n).requests = w.requests.drop n := by
  unfold dropOldest
  split
  · rename_i none
    rcases List.take_eq_nil_iff.mp (List.getLast?_eq_none_iff.mp none) with rfl | empty
    · rfl
    · rw [empty, List.drop_nil]
  · rfl

theorem dropOldest_lexicon (w : Window) (n : Nat) : (w.dropOldest n).lexicon = w.lexicon := by
  unfold dropOldest
  split <;> rfl

theorem dropOldest_nextId (w : Window) (n : Nat) : (w.dropOldest n).nextId = w.nextId := by
  unfold dropOldest
  split <;> rfl

theorem dropOldest_capacity (w : Window) (n : Nat) : (w.dropOldest n).capacity = w.capacity := by
  unfold dropOldest
  split <;> rfl

theorem dropOldest_lastTimestamp (w : Window) (n : Nat) : (w.dropOldest n).lastTimestamp = w.lastTimestamp := by
  unfold dropOldest
  split <;> rfl

/-- Dropping requests changes nothing about the ring but that it starts where
the spans of those that stay may start. -/
theorem Sound.dropOldest_ring (sound : w.Sound) (n : Nat) :
    (w.dropOldest n).ring = w.ring ∨ ∃ stop, (w.dropOldest n).ring = w.ring.dropBelow stop ∧
      w.ring.base ≤ stop ∧ stop ≤ w.ring.next ∧ ∀ r ∈ w.requests.drop n, stop ≤ r.timers.start := by
  unfold dropOldest
  cases found : (w.requests.take n).getLast? with
  | none => exact Or.inl rfl
  | some last =>
    have dropped : last ∈ w.requests.take n := List.mem_of_getLast? found
    obtain ⟨after, inside⟩ := sound.inside last (List.mem_of_mem_take dropped)
    have spans := sound.spans
    rw [← List.take_append_drop n w.requests] at spans
    refine Or.inr ⟨last.timers.stop, rfl, ?_, inside, fun r member => ?_⟩
    · unfold Span.stop
      omega
    · exact (List.pairwise_append.mp spans).2.2 last dropped r member

theorem Sound.dropOldest_viewOf (sound : w.Sound) {n : Nat} {r : Record} (member : r ∈ w.requests.drop n) :
    (w.dropOldest n).viewOf r = w.viewOf r := by
  obtain ⟨after, inside⟩ := sound.inside r (List.mem_of_mem_drop member)
  have read : (w.dropOldest n).ring.read r.timers = w.ring.read r.timers := by
    rcases sound.dropOldest_ring n with same | ⟨stop, same, _, _, below⟩
    · rw [same]
    · rw [same, TimerRing.read_dropBelow after inside (below r member)]
  rw [viewOf, viewOf, dropOldest_lexicon, read]

theorem Sound.dropOldest_sound (sound : w.Sound) (n : Nat) : (w.dropOldest n).Sound := by
  have requests := w.dropOldest_requests n
  have lexicon := w.dropOldest_lexicon n
  refine ⟨?_, fun r member => ?_, fun i r found => ?_, fun r member => ?_, fun timer member => ?_⟩
  · rw [requests]
    exact sound.spans.sublist (List.drop_sublist n _)
  · rw [requests] at member
    obtain ⟨after, inside⟩ := sound.inside r (List.mem_of_mem_drop member)
    rcases sound.dropOldest_ring n with same | ⟨stop, same, lower, upper, below⟩
    · rw [same]
      exact ⟨after, inside⟩
    · have start := below r member
      have base := w.ring.dropBelow_base stop
      have length : (w.ring.dropBelow stop).timers.length =
          w.ring.size - min (stop - w.ring.base) w.ring.size := by
        rw [TimerRing.dropBelow_timers, List.length_drop]
        rfl
      rw [same]
      unfold TimerRing.next at upper inside ⊢
      unfold TimerRing.size at *
      omega
  · have size : (w.dropOldest n).size = w.requests.length - n := by
      rw [Window.size, requests, List.length_drop]
    rw [requests, List.getElem?_drop] at found
    have number := sound.numbers (n + i) r found
    unfold Window.size at number
    rw [size, dropOldest_nextId]
    omega
  · rw [requests] at member
    rw [lexicon]
    exact sound.tags r (List.mem_of_mem_drop member)
  · rw [lexicon]
    rcases sound.dropOldest_ring n with same | ⟨stop, same, _⟩
    · exact sound.timerTags timer (same ▸ member)
    · rw [same, TimerRing.dropBelow_timers] at member
      exact sound.timerTags timer (List.mem_of_mem_drop member)

theorem Sound.dropOldest_views (sound : w.Sound) (n : Nat) : (w.dropOldest n).views = w.views.drop n := by
  rw [views, dropOldest_requests, views, ← List.map_drop]
  exact List.map_congr_left fun r member => sound.dropOldest_viewOf member

/-- The window is the requests that go and the window after that. -/
theorem Sound.views_split (sound : w.Sound) (n : Nat) : w.views = w.oldest n ++ (w.dropOldest n).views := by
  rw [sound.dropOldest_views, oldest, List.map_take]
  exact (List.take_append_drop n w.views).symm

end Dropping

theorem Sound.numbered {w : Window} (sound : w.Sound) : View.Numbered w.views w.nextId where
  increase := List.pairwise_map.mpr sound.ids_increase
  below v member := by
    obtain ⟨r, known, rfl⟩ := List.mem_map.mp member
    exact sound.id_lt known

theorem Grows.twin_views {w w' : Window} {new : List Record} (grows : w.Grows w' new) :
    View.Twins w.views (w.requests.map w'.viewOf) := by
  have twins := grows.twins
  unfold Window.views
  generalize w.requests = records at twins ⊢
  induction records with
  | nil => exact .nil
  | cons r rest ih =>
    exact .cons (twins r List.mem_cons_self) (ih fun s member => twins s (List.mem_cons_of_mem r member))

theorem Grows.newer {w w' : Window} {new : List Record} (grows : w.Grows w' new) {r : Record} (member : r ∈ new) :
    w.nextId ≤ r.id := by
  obtain ⟨i, within, rfl⟩ := List.mem_iff_getElem.mp member
  have size : w'.size = w.requests.length + new.length := by
    rw [size, grows.requests, List.length_append]
  have found : w'.requests[w.requests.length + i]? = some new[i] := by
    rw [grows.requests, List.getElem?_append_right (by omega), Nat.add_sub_cancel_left, List.getElem?_eq_getElem within]
  have number := grows.sound.numbers _ _ found
  have next := grows.nextId
  omega

/-- A window that moves on: requests leave at its front, others arrive at its
back, and those between look as they did. -/
structure Slides (w w' : Window) (left arrived : List View) : Prop where
  sound : w'.Sound
  moved : ∃ rest kept, w.views = left ++ rest ∧ View.Twins rest kept ∧ w'.views = kept ++ arrived
  newer : ∀ v ∈ arrived, w.nextId ≤ v.id
  nextId : w.nextId ≤ w'.nextId

theorem Slides.numbered {w w' : Window} {left arrived : List View} (slides : w.Slides w' left arrived) (sound : w.Sound) :
    ∃ rest kept, w.views = left ++ rest ∧ View.Twins rest kept ∧ w'.views = kept ++ arrived ∧
      View.Numbered (left ++ rest) w.nextId ∧ (arrived.Pairwise fun v u => v.id < u.id) ∧
        ∀ v ∈ arrived, v.id < w'.nextId := by
  obtain ⟨rest, kept, before, twins, after⟩ := slides.moved
  have numbered := slides.sound.numbered
  have split := sound.numbered
  rw [before] at split
  rw [after] at numbered
  exact ⟨rest, kept, before, twins, after, split, (List.pairwise_append.mp numbered.increase).2.1,
    fun v member => numbered.below v (List.mem_append_right kept member)⟩

theorem Sound.stays {w : Window} (sound : w.Sound) : w.Slides w [] [] :=
  ⟨sound, ⟨w.views, w.views, rfl, .refl _, (List.append_nil _).symm⟩, fun _ member => (nomatch member), Nat.le_refl _⟩

theorem Sound.slides {w w' : Window} {new : List Record} {n k : Nat} (sound : w.Sound)
    (grows : ((w.dropOldest n).dropOldest k).Grows w' new) :
    w.Slides w' (w.oldest n ++ (w.dropOldest n).oldest k) (new.map w'.viewOf) where
  sound := grows.sound
  moved := by
    refine ⟨_, _, ?_, grows.twin_views, ?_⟩
    · rw [List.append_assoc, ← (sound.dropOldest_sound n).views_split k]
      exact sound.views_split n
    · rw [views, grows.requests, List.map_append]
  newer v member := by
    obtain ⟨r, known, rfl⟩ := List.mem_map.mp member
    have number := grows.newer known
    rw [dropOldest_nextId, dropOldest_nextId] at number
    exact number
  nextId := by
    rw [grows.nextId, dropOldest_nextId, dropOldest_nextId]
    exact Nat.le_add_right _ _

end Window

end Rollup
