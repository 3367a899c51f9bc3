import Rollup.Proofs.Reading

namespace Rollup

namespace Window

/-- What a holder of a window can do to it. -/
inductive Action
  | append (s : Submission) (now : Instant)
  | drop (n : Nat)
deriving DecidableEq

def act (w : Window) : Action → Window
  | .append s now =>
    match w.append s now with
    | .ok (w, _) => w
    | .error _ => w
  | .drop n => w.dropOldest n

def play (w : Window) (actions : List Action) : Window := actions.foldl act w

/-- A submission that was let in, with the number and the time it got. -/
structure Entrant where
  id : Nat
  timestamp : Instant
  submission : Submission
deriving DecidableEq

/-- Submissions in the order they were let in. `admitted` counts all that ever
were, and `newest` is the time of the last one. -/
structure Queue where
  capacity : Nat
  entrants : List Entrant
  admitted : Nat
  newest : Instant
deriving DecidableEq

namespace Queue

def empty (capacity : Nat) : Queue := ⟨max capacity 1, [], 0, .epoch⟩

/-- The number that a submission gets, or why it is not let in. -/
def answer (q : Queue) (s : Submission) : Except Refusal Nat :=
  match s.check with
  | .error fault => .error (.malformed fault)
  | .ok _ => if q.entrants.length < q.capacity then .ok (q.admitted + 1) else .error .full

def act (q : Queue) : Action → Queue
  | .append s now =>
    match q.answer s with
    | .error _ => q
    | .ok id =>
      let timestamp := max (max now q.newest) firstMoment
      { q with entrants := q.entrants ++ [⟨id, timestamp, s⟩], admitted := id, newest := timestamp }
  | .drop n => { q with entrants := q.entrants.drop n }

def play (q : Queue) (actions : List Action) : Queue := actions.foldl act q

end Queue

/-- A view shows the number, the time and the text of an entrant. -/
structure Entrant.SeenAs (e : Entrant) (v : View) : Prop where
  id : v.id = e.id
  timestamp : v.record.timestamp = e.timestamp
  tells : v.Tells e.submission

def Entrant.shown (e : Entrant) : Nat × Instant × Reading := (e.id, e.timestamp, e.submission.reading)

theorem Entrant.SeenAs.relearn {e : Entrant} {v : View} (seen : e.SeenAs v) {later : Lexicon}
    (extended : v.lexicon.Extends later) : e.SeenAs (v.relearn later) :=
  ⟨seen.id, seen.timestamp, seen.tells.relearn extended⟩

/-- A window that holds what a queue holds. -/
structure Queue.Models (q : Queue) (w : Window) : Prop where
  sound : w.Sound
  capacity : w.capacity = q.capacity
  entrants : List.Forall₂ (fun v e => e.SeenAs v) w.views q.entrants
  nextId : w.nextId = q.admitted + 1
  newest : w.lastTimestamp = q.newest
  usable : ∀ r ∈ w.requests, firstMoment ≤ r.timestamp

theorem Queue.empty_models (capacity growStep shrinkFactor mostWords : Nat) :
    (Queue.empty capacity).Models (Window.empty capacity growStep shrinkFactor mostWords) :=
  ⟨empty_sound _ _ _ _, rfl, .nil, rfl, rfl, fun _ member => nomatch member⟩

theorem Queue.Models.length_eq {q : Queue} {w : Window} (models : q.Models w) : q.entrants.length = w.size := by
  rw [← models.entrants.length_eq, views, List.length_map]
  rfl

theorem Queue.Models.entrants_here {q : Queue} {w : Window} (models : q.Models w) :
    List.Forall₂ (fun v e => v.lexicon = w.lexicon ∧ e.SeenAs v) w.views q.entrants :=
  (List.forall₂_and_left _ _).mpr ⟨fun _ => view_lexicon, models.entrants⟩

theorem act_refused {w : Window} {s : Submission} {now : Instant} {refusal : Refusal}
    (refused : w.append s now = .error refusal) : w.act (.append s now) = w := by
  unfold act
  dsimp only
  rw [refused]

/-- All that an action can come to. -/
inductive Outcome (w : Window) : Action → Window → Prop
  | refused {s : Submission} {now : Instant} (refusal : Refusal) :
      w.append s now = .error refusal → Outcome w (.append s now) w
  | kept {s : Submission} {now : Instant} :
      w.append s now = .ok (w.keep s now, w.nextId) → Outcome w (.append s now) (w.keep s now)
  | dropped (n : Nat) : Outcome w (.drop n) (w.dropOldest n)

theorem act_outcome (w : Window) (action : Action) : w.Outcome action (w.act action) := by
  cases action with
  | append s now =>
    cases appended : w.append s now with
    | error refusal =>
      rw [act_refused appended]
      exact .refused refusal appended
    | ok both =>
      cases append_eq_ok appended
      have acted : w.act (.append s now) = w.keep s now := by rw [act, appended]
      rw [acted]
      exact .kept appended
  | drop n => exact .dropped n

/-- What each action keeps is so after all of them. -/
theorem play_induction {P : Window → Prop} (keeps : ∀ {w : Window}, P w → ∀ action, P (w.act action)) {w : Window}
    (start : P w) (actions : List Action) : P (w.play actions) := by
  induction actions generalizing w with
  | nil => exact start
  | cons action rest ih => exact ih (keeps start action)

theorem Sound.act {w : Window} (sound : w.Sound) (action : Action) : (w.act action).Sound := by
  have outcome := w.act_outcome action
  generalize w.act action = after at outcome
  cases outcome with
  | refused _ _ => exact sound
  | kept _ => exact sound.keep_sound _ _
  | dropped n => exact sound.dropOldest_sound n

theorem Sound.play {w : Window} (sound : w.Sound) (actions : List Action) : (w.play actions).Sound :=
  play_induction Sound.act sound actions

theorem Queue.Models.answer_eq {q : Queue} {w : Window} (models : q.Models w) (s : Submission) (now : Instant) :
    q.answer s = (w.append s now).map (·.2) := by
  have room : q.entrants.length < q.capacity ↔ ¬w.isFull := by
    rw [models.length_eq, ← models.capacity, isFull, decide_eq_true_eq, Nat.not_le]
  unfold answer append
  cases s.check with
  | error fault => rfl
  | ok _ =>
    dsimp only
    by_cases full : w.isFull
    · rw [if_pos full, if_neg fun fits => room.mp fits full]
      rfl
    · rw [if_neg full, if_pos (room.mpr full), ← models.nextId]
      rfl

theorem firstMoment_le_max (t : Instant) : firstMoment ≤ max t firstMoment := by
  rw [Instant.le_iff, Instant.nanos_max]
  exact Int.le_max_right _ _

theorem Queue.Models.keep {q : Queue} {w : Window} (models : q.Models w) (s : Submission) (now : Instant) :
    Queue.Models { q with
        entrants := q.entrants ++ [⟨w.nextId, max (max now q.newest) firstMoment, s⟩]
        admitted := w.nextId
        newest := max (max now q.newest) firstMoment } (w.keep s now) where
  sound := models.sound.keep_sound s now
  capacity := models.capacity
  entrants := by
    -- Those that were there only come to know more words.
    have old : List.Forall₂ (fun v e => e.SeenAs v) (w.views.map (·.relearn (w.keep s now).lexicon)) q.entrants := by
      rw [List.forall₂_map_left_iff]
      refine models.entrants_here.imp fun v e ⟨words, seen⟩ => ?_
      exact seen.relearn (words ▸ w.keep_extends s now)
    have new : Entrant.SeenAs ⟨w.nextId, max (max now q.newest) firstMoment, s⟩
        ((w.keep s now).viewOf (w.recordOf s now)) :=
      ⟨rfl, models.newest ▸ rfl, w.keep_tells s now⟩
    rw [models.sound.keep_views]
    exact List.rel_append old (.cons new .nil)
  nextId := rfl
  newest := models.newest ▸ rfl
  usable r member := by
    rcases List.mem_append.mp (w.keep_requests s now ▸ member) with old | isNew
    · exact models.usable r old
    · cases List.mem_singleton.mp isNew
      exact firstMoment_le_max _

theorem Queue.Models.act {q : Queue} {w : Window} (models : q.Models w) (action : Action) :
    (q.act action).Models (w.act action) := by
  cases action with
  | append s now =>
    have answer := models.answer_eq s now
    unfold Queue.act Window.act
    dsimp only
    rw [answer]
    cases appended : w.append s now with
    | error refusal => exact models
    | ok both =>
      cases append_eq_ok appended
      exact models.keep s now
  | drop n =>
    refine ⟨models.sound.dropOldest_sound n, ?_, ?_, ?_, ?_, fun r member => ?_⟩
    · exact (dropOldest_capacity w n).trans models.capacity
    · show List.Forall₂ _ (w.dropOldest n).views (q.entrants.drop n)
      rw [models.sound.dropOldest_views]
      exact List.forall₂_drop n models.entrants
    · exact (dropOldest_nextId w n).trans models.nextId
    · exact (dropOldest_lastTimestamp w n).trans models.newest
    · exact models.usable r (List.mem_of_mem_drop (dropOldest_requests w n ▸ member))

theorem Queue.Models.play {q : Queue} {w : Window} (models : q.Models w) (actions : List Action) :
    (q.play actions).Models (w.play actions) := by
  induction actions generalizing q w with
  | nil => exact models
  | cons action rest ih => exact ih (models.act action)

/-- No record is passed over. -/
theorem Queue.Models.iterate_eq {q : Queue} {w : Window} (models : q.Models w) : w.iterate = w.views := by
  refine List.filter_eq_self.mpr fun v member => ?_
  obtain ⟨r, kept, rfl⟩ := List.mem_map.mp member
  have late := Instant.le_iff.mp (models.usable r kept)
  refine decide_eq_true fun atEpoch => ?_
  have same : r.timestamp = .epoch := atEpoch
  rw [same] at late
  exact absurd late (by decide)

/-- Where keys count up without a gap, the place of an element follows from
its key. -/
theorem find?_consecutive {α : Type} {key : α → Nat} {l : List α} {base : Nat}
    (keys : l.map key = List.range' base l.length) (id : Nat) :
    l.find? (key · = id) = if id < base then none else l[id - base]? := by
  induction l generalizing base with
  | nil => exact (ite_self none).symm
  | cons a rest ih =>
    obtain ⟨first, later⟩ := List.cons.inj keys
    rw [List.find?_cons, ih later, first]
    rcases Nat.lt_trichotomy id base with before | rfl | after
    · rw [decide_eq_false (by omega), if_pos before, if_pos (by omega)]
    · rw [decide_eq_true rfl, if_neg (Nat.lt_irrefl _), Nat.sub_self]
      rfl
    · have next : id - base = id - (base + 1) + 1 := by omega
      rw [decide_eq_false (by omega), if_neg (by omega), if_neg (by omega), next]
      rfl

theorem Sound.ids_eq {w : Window} (sound : w.Sound) :
    w.requests.map (·.id) = List.range' (w.nextId - w.requests.length) w.requests.length := by
  refine List.ext_getElem (by simp) fun i within _ => ?_
  have inside : i < w.requests.length := by rwa [List.length_map] at within
  have number := sound.numbers i _ (List.getElem?_eq_getElem inside)
  have enough := sound.numbers 0 _ (List.getElem?_eq_getElem (by omega))
  unfold size at number enough
  rw [List.getElem_map, List.getElem_range']
  omega

/-- The request that lies where its number says is the one of that number. -/
theorem Sound.view?_eq {w : Window} (sound : w.Sound) (id : Nat) : w.view? id = w.views.find? (·.id = id) := by
  have views : w.views.find? (·.id = id) = (w.requests.find? (·.id = id)).map w.viewOf := List.find?_map
  rw [views, find?_consecutive sound.ids_eq]
  unfold view?
  cases requests : w.requests with
  | nil => exact (congrArg (Option.map w.viewOf) (ite_self none)).symm
  | cons front rest =>
    have ids := sound.ids_eq
    rw [requests] at ids
    rw [← (List.cons.inj ids).1, apply_ite (Option.map w.viewOf)]
    rfl

/-- One request is refused for a fault and one for want of room, the clock goes
back once, and the oldest request is dropped while its timers end inside the
ring. -/
def traffic : List Action :=
  let first : Submission := {
    script := "first", dictionary := ["group", "db"], tagNames := [0], tagValues := [1]
    timerValues := [Duration.ofMillis 3, Duration.ofMillis 4], timerHits := [1, 2]
    timerTagCounts := [1, 0], timerTagNames := [0], timerTagValues := [1] }
  let second : Submission := {
    script := "second", dictionary := ["group", "web"]
    timerValues := [Duration.ofMillis 5], timerHits := [1]
    timerTagCounts := [1], timerTagNames := [0], timerTagValues := [1] }
  [.append first ⟨9⟩, .append { script := "faulty", tagNames := [0] } ⟨10⟩, .append second ⟨5⟩,
    .append first ⟨11⟩, .drop 1, .append first ⟨12⟩]

end Window

end Rollup
