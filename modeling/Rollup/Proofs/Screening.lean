import Rollup.Proofs.Queue

namespace Rollup

/-- What a filter asks of a request as it was sent. `read` tells what the value
of a tag is taken for. -/
structure Submission.Meets (s : Submission) (f : Filter) (read : String → String) : Prop where
  lower : ∀ least ∈ f.minTime, least ≤ s.time
  upper : ∀ most ∈ f.maxTime, s.time ≤ most
  carried : ∀ required ∈ f.tags.entries, ∃ tag ∈ s.tags, tag.1 = required.1
  agreed : ∀ required ∈ f.tags.entries, ∀ tag ∈ s.tags, tag.1 = required.1 → read tag.2 = required.2

instance (s : Submission) (f : Filter) (read : String → String) : Decidable (s.Meets f read) :=
  decidable_of_iff ((∀ least ∈ f.minTime, least ≤ s.time) ∧ (∀ most ∈ f.maxTime, s.time ≤ most) ∧
      (∀ required ∈ f.tags.entries, ∃ tag ∈ s.tags, tag.1 = required.1) ∧
      ∀ required ∈ f.tags.entries, ∀ tag ∈ s.tags, tag.1 = required.1 → read tag.2 = required.2)
    ⟨fun ⟨lower, upper, carried, agreed⟩ => ⟨lower, upper, carried, agreed⟩,
      fun meets => ⟨meets.lower, meets.upper, meets.carried, meets.agreed⟩⟩

/-- Where no value is clipped, nothing is taken for something else. -/
theorem Submission.meets_clipped_iff {s : Submission} (short : ∀ tag ∈ s.tags, tag.2.utf8ByteSize ≤ Lexicon.valueRoom)
    (f : Filter) : s.Meets f (Text.clip Lexicon.valueRoom) ↔ s.Meets f id := by
  constructor <;> rintro ⟨lower, upper, carried, agreed⟩ <;>
    refine ⟨lower, upper, carried, fun required asked tag member named => ?_⟩
  · exact (Text.clip_of_fits (short tag member)).symm.trans (agreed required asked tag member named)
  · exact (Text.clip_of_fits (short tag member)).trans (agreed required asked tag member named)

namespace Filter

theorem acceptsTime_iff {f : Filter} {time : Duration} :
    f.acceptsTime time = true ↔ (∀ least ∈ f.minTime, least ≤ time) ∧ ∀ most ∈ f.maxTime, time ≤ most := by
  simp only [acceptsTime, Bool.and_eq_true, Option.all_eq_true, decide_eq_true_eq, Option.mem_def]

theorem acceptsTag_iff {tags : List (String × String)} {name value : String} :
    acceptsTag tags name value = true ↔
      (∃ tag ∈ tags, tag.1 = name) ∧ ∀ tag ∈ tags, tag.1 = name → tag.2 = value := by
  simp only [acceptsTag, Bool.and_eq_true, List.any_eq_true, List.all_eq_true, Bool.or_eq_true, decide_eq_true_eq,
    Decidable.imp_iff_not_or, ne_eq]

theorem acceptsTags_iff {f : Filter} {tags : List (String × String)} :
    f.acceptsTags tags = true ↔ ∀ required ∈ f.tags.entries,
      (∃ tag ∈ tags, tag.1 = required.1) ∧ ∀ tag ∈ tags, tag.1 = required.1 → tag.2 = required.2 := by
  rw [acceptsTags, List.all_eq_true]
  exact forall₂_congr fun _ _ => acceptsTag_iff

/-- Among clipped tags a filter looks for what it asks of the values as they
are clipped; names are whole. -/
theorem accepts_iff_meets {f : Filter} {v : View} {s : Submission} (reads : v.reading = s.reading) :
    f.accepts v = true ↔ s.Meets f (Text.clip Lexicon.valueRoom) := by
  have time : v.record.time = s.time := congrArg Reading.time reads
  have tags : v.requestTags = s.tags.map Lexicon.clipTag := congrArg Reading.tags reads
  rw [accepts, Bool.and_eq_true, acceptsTime_iff, acceptsTags_iff, time, tags]
  constructor
  · rintro ⟨⟨lower, upper⟩, required⟩
    refine ⟨lower, upper, fun pair asked => ?_, fun pair asked tag member named => ?_⟩
    · obtain ⟨_, member, named⟩ := (required pair asked).1
      obtain ⟨tag, given, rfl⟩ := List.mem_map.mp member
      exact ⟨tag, given, named⟩
    · exact (required pair asked).2 _ (List.mem_map_of_mem member) named
  · rintro ⟨lower, upper, carried, agreed⟩
    refine ⟨⟨lower, upper⟩, fun pair asked => ⟨?_, fun clipped member named => ?_⟩⟩
    · obtain ⟨tag, member, named⟩ := carried pair asked
      exact ⟨_, List.mem_map_of_mem member, named⟩
    · obtain ⟨tag, given, rfl⟩ := List.mem_map.mp member
      exact agreed pair asked tag given named

end Filter

namespace Window

/-- For as long as the request of that number is there, it tells what a
submission says. -/
structure Shows (w : Window) (number : Nat) (s : Submission) : Prop where
  sound : w.Sound
  given : number < w.nextId
  tells : ∀ v ∈ w.views, v.id = number → v.Tells s

variable {w : Window} {number : Nat} {s : Submission}

theorem Sound.keep_shows (sound : w.Sound) (s : Submission) (now : Instant) : (w.keep s now).Shows w.nextId s where
  sound := sound.keep_sound s now
  given := Nat.lt_succ_self _
  tells v member named := by
    rw [sound.keep_views] at member
    rcases List.mem_append.mp member with old | new
    · obtain ⟨u, before, rfl⟩ := List.mem_map.mp old
      exact absurd named (Nat.ne_of_lt (sound.numbered.below u before))
    · cases List.mem_singleton.mp new
      exact w.keep_tells s now

theorem Shows.keep (shows : w.Shows number s) (other : Submission) (now : Instant) : (w.keep other now).Shows number s where
  sound := shows.sound.keep_sound other now
  given := Nat.lt_succ_of_lt shows.given
  tells v member named := by
    rw [shows.sound.keep_views] at member
    rcases List.mem_append.mp member with old | new
    · obtain ⟨u, before, rfl⟩ := List.mem_map.mp old
      exact (shows.tells u before named).relearn (view_lexicon before ▸ w.keep_extends other now)
    · cases List.mem_singleton.mp new
      exact absurd named (Nat.ne_of_gt shows.given)

theorem Shows.act (shows : w.Shows number s) (action : Action) : (w.act action).Shows number s := by
  have outcome := w.act_outcome action
  generalize w.act action = after at outcome
  cases outcome with
  | refused _ _ => exact shows
  | kept _ => exact shows.keep _ _
  | dropped n =>
    refine ⟨shows.sound.dropOldest_sound n, ?_, fun v member => shows.tells v ?_⟩
    · exact (dropOldest_nextId w n).symm ▸ shows.given
    · rw [shows.sound.dropOldest_views] at member
      exact List.mem_of_mem_drop member

theorem Shows.play (shows : w.Shows number s) (actions : List Action) : (w.play actions).Shows number s :=
  play_induction (P := (·.Shows number s)) Shows.act shows actions

/-- What leads to a request by its number leads to what was submitted. -/
theorem Shows.view?_tells (shows : w.Shows number s) {v : View} (found : w.view? number = some v) :
    v.Tells s ∧ v.lexicon = w.lexicon := by
  rw [shows.sound.view?_eq] at found
  have member := List.mem_of_find?_eq_some found
  exact ⟨shows.tells v member (of_decide_eq_true (List.find?_some found :)), view_lexicon member⟩

theorem keep_view? (sound : w.Sound) (s : Submission) (now : Instant) :
    ((w.keep s now).view? w.nextId).isSome := by
  rw [(sound.keep_sound s now).view?_eq, List.find?_isSome]
  refine ⟨(w.keep s now).viewOf (w.recordOf s now), ?_, decide_eq_true rfl⟩
  rw [sound.keep_views]
  exact List.mem_append_right _ (List.mem_singleton_self _)

/-- A sound submission is kept while there is space. -/
theorem append_ok {w : Window} {s : Submission} (sound : s.check = .ok ()) (space : w.isFull = false) (now : Instant) :
    w.append s now = .ok (w.keep s now, w.nextId) := by
  unfold append
  rw [sound, space]
  rfl

/-- A filter sees of a kept request what was submitted, but for the ends of
long values: while there is room for words, and for as long as the request is
there, it lets through exactly the requests whose time lies within its bounds,
and that have each required name, always with a value that is the required
one once it is clipped. Where no value needs clipping that is the required
value itself. -/
theorem accepts_iff_submitted_meets (capacity growStep shrinkFactor mostWords : Nat) (before : List Action)
    (s : Submission) (now : Instant) (sound : s.check = .ok ())
    (space : ((empty capacity growStep shrinkFactor mostWords).play before).isFull = false) :
    let w := (empty capacity growStep shrinkFactor mostWords).play before
    ∃ w', w.append s now = .ok (w', w.nextId) ∧ (w'.view? w.nextId).isSome ∧
      ∀ later, (w'.play later).lexicon.Roomy → ∀ v, (w'.play later).view? w.nextId = some v → ∀ f : Filter,
        (f.accepts v = true ↔ s.Meets f (Text.clip Lexicon.valueRoom)) ∧
          ((∀ tag ∈ s.tags, tag.2.utf8ByteSize ≤ Lexicon.valueRoom) → (f.accepts v = true ↔ s.Meets f id)) := by
  intro w
  have models := (Queue.empty_models capacity growStep shrinkFactor mostWords).play before
  refine ⟨_, append_ok sound space now, keep_view? models.sound s now, fun later room v found f => ?_⟩
  obtain ⟨tells, words⟩ := ((models.sound.keep_shows s now).play later).view?_tells found
  have clipped : f.accepts v = true ↔ s.Meets f (Text.clip Lexicon.valueRoom) :=
    Filter.accepts_iff_meets (tells.whole (words ▸ room))
  exact ⟨clipped, fun short => clipped.trans (Submission.meets_clipped_iff short f)⟩

/-- Sixty-three bytes, one fewer than are kept of a value. -/
def almostLong : String := String.ofList (List.replicate 63 'a')

/-- Two values of one name: of the first only the beginning is kept, as the
last character takes two bytes, and so it becomes the second. -/
def twiceTagged : Submission := {
  script := "login", time := Duration.ofMillis 5, dictionary := ["user", almostLong ++ "é", almostLong]
  tagNames := [0, 0], tagValues := [1, 2] }

theorem accepts_twice_tagged :
    let w := (empty 4 2 1 9).play traffic
    let f := Filter.any.requireTag "user" almostLong
    twiceTagged.check = .ok () ∧ w.isFull = false ∧
      ∃ w' v, w.append twiceTagged ⟨20⟩ = .ok (w', w.nextId) ∧ (w'.play [.drop 1]).view? w.nextId = some v ∧
        f.accepts v = true ∧ twiceTagged.Meets f (Text.clip Lexicon.valueRoom) := by
  intro w f
  have sound : twiceTagged.check = .ok () := by decide
  have space : w.isFull = false := by decide +kernel
  obtain ⟨w', appended, _, accepts⟩ := accepts_iff_submitted_meets 4 2 1 9 traffic twiceTagged ⟨20⟩ sound space
  cases append_eq_ok appended
  have room : ((w.keep twiceTagged ⟨20⟩).play [.drop 1]).lexicon.Roomy := by decide +kernel
  have here : (((w.keep twiceTagged ⟨20⟩).play [.drop 1]).view? w.nextId).isSome := by decide +kernel
  obtain ⟨v, found⟩ := Option.isSome_iff_exists.mp here
  have meets : twiceTagged.Meets f (Text.clip Lexicon.valueRoom) := by decide +kernel
  exact ⟨sound, space, _, v, appended, found, (accepts [.drop 1] room v found f).1.mpr meets, meets⟩

/-- A value of 65 bytes. -/
def tooLong : String := almostLong ++ "bc"

/-- Sent with a long value, a request has it, but a filter that requires the
value does not let the request through. One that requires only the beginning
does. -/
theorem long_value_not_accepted :
    let s : Submission := { script := "login", dictionary := ["user", tooLong], tagNames := [0], tagValues := [1] }
    let whole := Filter.any.requireTag "user" tooLong
    let front := Filter.any.requireTag "user" (almostLong ++ "b")
    let w := (empty 2 2 1 9).keep s ⟨5⟩
    (empty 2 2 1 9).append s ⟨5⟩ = .ok (w, 1) ∧ w.lexicon.Roomy ∧
      ∃ v, w.view? 1 = some v ∧ (s.Meets whole id ∧ whole.accepts v = false) ∧
        ¬s.Meets front id ∧ front.accepts v = true := by
  intro s whole front w
  have here : (w.view? 1).isSome := by decide +kernel
  obtain ⟨v, found⟩ := Option.isSome_iff_exists.mp here
  have seen : (w.view? 1).map (fun v => (whole.accepts v, front.accepts v)) = some (false, true) := by decide +kernel
  rw [found] at seen
  obtain ⟨unseen, taken⟩ := Prod.mk.inj (Option.some.inj seen)
  exact ⟨by decide +kernel, by decide +kernel, v, found, ⟨by decide +kernel, unseen⟩, by decide +kernel, taken⟩

end Window

end Rollup
