import Rollup.Proofs.Lookup

namespace Rollup

namespace Instant

/-- A time that a 64-bit count of nanoseconds since the epoch can name. -/
def Counted (t : Instant) : Prop := 0 ≤ t.nanos ∧ t.nanos ≤ 18446744073709551615

instance (t : Instant) : Decidable t.Counted :=
  inferInstanceAs (Decidable (0 ≤ t.nanos ∧ t.nanos ≤ 18446744073709551615))

theorem stamp_max (a b : Instant) : (max a b).stamp = max a.stamp b.stamp := by
  unfold stamp
  rw [nanos_max]
  omega

/-- Stamps cut times off at both ends, which makes no difference to whether
something happened before a timeout began. The timeout may reach back to before
the epoch, and to where the clock can name no moment. -/
theorem stamp_lt_before?_iff {latest now : Instant} (first : latest.Counted) (last : now.Counted) (timeout : Duration) :
    (∃ cutoff ∈ now.before? timeout, latest.stamp < cutoff.stamp) ↔ latest.nanos < now.nanos - timeout.val := by
  obtain ⟨start, _⟩ := first
  obtain ⟨_, stop⟩ := last
  unfold before? stamp
  constructor
  · rintro ⟨cutoff, found, less⟩
    obtain ⟨_, same⟩ := Option.ite_none_right_eq_some.mp found
    cases same
    dsimp only at less
    omega
  · intro less
    have named : earliest.nanos ≤ now.nanos - timeout.val := by
      unfold earliest
      dsimp only
      omega
    refine ⟨⟨now.nanos - timeout.val⟩, by rw [if_pos named]; rfl, ?_⟩
    dsimp only
    omega

end Instant

theorem Report.serial_of_cleared {r s : Report} (same : r.cleared = s.cleared) : r.serial = s.serial := by
  have serials := congrArg Report.serial same
  exact serials

theorem Report.lastAsked_of_cleared {r s : Report} (same : r.cleared = s.cleared) : r.lastAsked = s.lastAsked := by
  have notes := congrArg Report.lastAsked same
  exact notes

namespace Roster

/-- No number is both that of a standing report and that of another one. -/
theorem Sound.apart {r : Roster} (sound : r.Sound) {report other : Report} (standing : report ∈ r.standing)
    (onDemand : other ∈ r.onDemand.values) : report.serial ≠ other.serial := by
  have different := sound.different
  rw [live, List.map_append] at different
  exact (List.nodup_append.mp different).2.2 _ (List.mem_map_of_mem standing) _ (List.mem_map_of_mem onDemand)

theorem Sound.same_onDemand {r : Roster} (sound : r.Sound) {report other : Report} (left : report ∈ r.onDemand.values)
    (right : other ∈ r.onDemand.values) (serial : report.serial = other.serial) : report = other :=
  sound.same (List.mem_append_right _ left) (List.mem_append_right _ right) serial

theorem values_retained (cutoff : Option Instant) (r : Roster) : (retained cutoff r.faces).2.values =
    (r.onDemand.values.map Report.cleared).filter fun face : Report => !cutoff.any face.idleSince := by
  have faces : r.faces.2.values = r.onDemand.values.map Report.cleared := SortedMap.values_mapValues _ _
  cases cutoff with
  | none => exact faces.trans (List.filter_eq_self.mpr fun _ _ => rfl).symm
  | some cutoff =>
    rw [← faces]
    exact SortedMap.values_filter _ fun report : Report => !report.idleSince cutoff

/-- A report that is left on demand was there before, with the same note. -/
theorem onDemand_of_retained {r r' : Roster} {cutoff : Option Instant} (left : r'.faces = retained cutoff r.faces)
    {report : Report} (member : report ∈ r'.onDemand.values) :
    ∃ old ∈ r.onDemand.values, report.cleared = old.cleared := by
  have faces : r'.faces.2.values = r'.onDemand.values.map Report.cleared := SortedMap.values_mapValues _ _
  have face : report.cleared ∈ r'.faces.2.values := faces ▸ List.mem_map_of_mem member
  rw [left, values_retained] at face
  obtain ⟨old, known, same⟩ := List.mem_map.mp (List.mem_filter.mp face).1
  exact ⟨old, known, same.symm⟩

theorem Keeps.cards_subset {r r' : Roster} (keeps : r.Keeps r') : r'.live.map Report.card ⊆ r.live.map Report.card := by
  intro card member
  rw [live_cards] at member ⊢
  rcases List.mem_append.mp member with standing | onDemand
  · exact List.mem_append_left _ (keeps.standing ▸ standing)
  · exact List.mem_append_right _ ((keeps.onDemand.map _).subset onDemand)

/-- Of the reports made on demand just the idle ones go. -/
theorem Sound.gone_iff {r r' : Roster} (sound : r.Sound) {cutoff : Option Instant}
    (left : r'.faces = retained cutoff r.faces) {report : Report} (member : report ∈ r.onDemand.values) :
    report.card ∉ r'.live.map Report.card ↔ ∃ c ∈ cutoff, report.lastAsked < c.stamp := by
  have faces : r'.live.map Report.cleared = r.standing.map Report.cleared ++
      (r.onDemand.values.map Report.cleared).filter fun face : Report => !cutoff.any face.idleSince := by
    rw [faces_live, left, values_retained]
    rfl
  have idle : cutoff.any report.idleSince = true ↔ ∃ c ∈ cutoff, report.lastAsked < c.stamp := by
    cases cutoff with
    | none => simp
    | some c => simp [Report.idleSince]
  have faceIdle : report.cleared.idleSince = report.idleSince := rfl
  rw [← idle, ← not_iff_not, not_not]
  constructor
  · intro here
    obtain ⟨other, known, card⟩ := List.mem_map.mp here
    have serial : other.serial = report.serial := congrArg Prod.fst card
    have face : other.cleared ∈ r'.live.map Report.cleared := List.mem_map_of_mem known
    rw [faces] at face
    rcases List.mem_append.mp face with standing | onDemand
    · obtain ⟨old, there, same⟩ := List.mem_map.mp standing
      exact absurd ((Report.serial_of_cleared same).trans serial) (sound.apart there member)
    · obtain ⟨stays, busy⟩ := List.mem_filter.mp onDemand
      obtain ⟨old, there, same⟩ := List.mem_map.mp stays
      cases sound.same_onDemand there member ((Report.serial_of_cleared same).trans serial)
      rw [← same, faceIdle, Bool.not_eq_true'] at busy
      exact Bool.eq_false_iff.mp busy
  · intro busy
    have face : report.cleared ∈ r'.live.map Report.cleared := by
      rw [faces]
      refine List.mem_append_right _ (List.mem_filter.mpr ⟨List.mem_map_of_mem member, ?_⟩)
      rw [faceIdle, Bool.not_eq_true']
      exact Bool.eq_false_iff.mpr busy
    obtain ⟨other, known, same⟩ := List.mem_map.mp face
    have card := congrArg Report.card same
    exact List.mem_map.mpr ⟨other, known, card⟩

end Roster

namespace Monitor

/-- The report that someone is given when he asks for one, and when that was.
No report is given in any other event. -/
def given (m : Monitor) : Event → List (Nat × Instant)
  | .lookup now id =>
    match m.lookup now id with
    | .ok (_, serial) => [(serial, now)]
    | .error _ => []
  | .ask now q =>
    match m.ask now q with
    | .ok (_, serial) => [(serial, now)]
    | .error _ => []
  | .submit _ => []
  | .merge _ => []
  | .tearDownIdle _ => []

/-- All reports that are given in a history. A report that is made on demand is
given for the first time when it is made. -/
def givenIn (m : Monitor) : List Event → List (Nat × Instant)
  | [] => []
  | event :: rest => m.given event ++ (m.step event).givenIn rest

/-- The clock reading of an event. -/
def Event.reading? : Event → Option Instant
  | .submit _ => none
  | .merge now => some now
  | .lookup now _ => some now
  | .ask now _ => some now
  | .tearDownIdle now => some now

/-- The clock, if it is read, shows a time that can be counted. -/
def Event.Timely (event : Event) : Prop := ∀ now ∈ event.reading?, now.Counted

/-- There is a live report of that number for that query. -/
def Offers (m : Monitor) (report : Report) : Prop := report.card ∈ m.roster.live.map Report.card

/-- The latest time that a report was given. -/
def LastGiven (uses : List (Nat × Instant)) (serial : Nat) (latest : Instant) : Prop :=
  (serial, latest) ∈ uses ∧ ∀ use ∈ uses, use.1 = serial → use.2 ≤ latest

instance (m : Monitor) (report : Report) : Decidable (m.Offers report) :=
  inferInstanceAs (Decidable (report.card ∈ m.roster.live.map Report.card))

theorem given_of_lookup {m : Monitor} {now : Instant} {id : String} {answer : Monitor × Nat}
    (found : m.lookup now id = .ok answer) : m.given (.lookup now id) = [(answer.2, now)] := by
  rw [given, found]

theorem given_of_ask {m : Monitor} {now : Instant} {q : Query} {answer : Monitor × Nat}
    (asked : m.ask now q = .ok answer) : m.given (.ask now q) = [(answer.2, now)] := by
  rw [given, asked]

theorem reading_of_given {m : Monitor} {event : Event} {use : Nat × Instant} (member : use ∈ m.given event) :
    use.2 ∈ event.reading? := by
  cases event with
  | submit s => cases member
  | merge now => cases member
  | tearDownIdle now => cases member
  | lookup now id =>
    cases found : m.lookup now id with
    | error fault =>
      rw [given, found] at member
      cases member
    | ok answer =>
      rw [given_of_lookup found] at member
      cases List.mem_singleton.mp member
      rfl
  | ask now q =>
    cases asked : m.ask now q with
    | error fault =>
      rw [given, asked] at member
      cases member
    | ok answer =>
      rw [given_of_ask asked] at member
      cases List.mem_singleton.mp member
      rfl

theorem counted_of_givenIn {m : Monitor} {history : List Event} (timely : ∀ event ∈ history, event.Timely)
    {use : Nat × Instant} (member : use ∈ m.givenIn history) : use.2.Counted := by
  induction history generalizing m with
  | nil => cases member
  | cons event rest ih =>
    obtain ⟨first, later⟩ := List.forall_mem_cons.mp timely
    rcases List.mem_append.mp member with now | hence
    · exact first _ (reading_of_given now)
    · exact ih later hence

/-- Reports made on demand have a note of when they were given last, and no
number is given before its report is made. -/
structure Recalls (m : Monitor) (uses : List (Nat × Instant)) : Prop where
  noted : ∀ report ∈ m.roster.onDemand.values, ∃ latest, LastGiven uses report.serial latest ∧
    report.lastAsked = latest.stamp
  numbered : ∀ use ∈ uses, use.1 < m.roster.nextSerial

section Recalls

variable {settings : Settings} {m : Monitor} {uses : List (Nat × Instant)}

theorem LastGiven.later {serial : Nat} {latest : Instant} (last : LastGiven uses serial latest) (now : Instant) :
    LastGiven (uses ++ [(serial, now)]) serial (max latest now) where
  left := by
    rcases Int.le_total latest.nanos now.nanos with older | newer
    · have same : max latest now = now := Instant.ext (Int.max_eq_right older)
      rw [same]
      exact List.mem_append_right _ List.mem_cons_self
    · have same : max latest now = latest := Instant.ext (Int.max_eq_left newer)
      rw [same]
      exact List.mem_append_left _ last.1
  right use member same := by
    rw [Instant.le_iff, Instant.nanos_max]
    rcases List.mem_append.mp member with old | isNew
    · exact Int.le_trans (last.2 use old same) (Int.le_max_left _ _)
    · cases List.mem_singleton.mp isNew
      exact Int.le_max_right _ _

theorem LastGiven.other {serial other : Nat} {latest : Instant} (last : LastGiven uses serial latest)
    (different : serial ≠ other) (now : Instant) : LastGiven (uses ++ [(other, now)]) serial latest where
  left := List.mem_append_left _ last.1
  right use member same := by
    rcases List.mem_append.mp member with old | isNew
    · exact last.2 use old same
    · cases List.mem_singleton.mp isNew
      exact absurd same.symm different

/-- Where reports go at most, no note changes. -/
theorem Recalls.retain {m' : Monitor} (recalls : m.Recalls uses) {cutoff : Option Instant}
    (left : m'.roster.faces = Roster.retained cutoff m.roster.faces)
    (next : m.roster.nextSerial ≤ m'.roster.nextSerial) : m'.Recalls uses where
  noted report member := by
    obtain ⟨old, known, same⟩ := Roster.onDemand_of_retained left member
    rw [Report.serial_of_cleared same, Report.lastAsked_of_cleared same]
    exact recalls.noted old known
  numbered use member := Nat.lt_of_lt_of_le (recalls.numbered use member) next

theorem Recalls.touch (recalls : m.Recalls uses) {report : Report} (numbered : report.serial < m.roster.nextSerial)
    (now : Instant) : (m.touch report now).1.Recalls (uses ++ [(report.serial, now)]) where
  noted touched member := by
    have onDemand : (m.touch report now).1.roster.onDemand.values = m.roster.onDemand.values.map fun other =>
        if other.serial = report.serial then other.touch now else other := SortedMap.values_mapValues _ _
    rw [onDemand] at member
    obtain ⟨old, known, rfl⟩ := List.mem_map.mp member
    obtain ⟨latest, last, noted⟩ := recalls.noted old known
    by_cases same : old.serial = report.serial
    · rw [if_pos same]
      refine ⟨max latest now, same ▸ last.later now, ?_⟩
      have note : (old.touch now).lastAsked = max old.lastAsked now.stamp := rfl
      rw [note, noted, Instant.stamp_max]
    · rw [if_neg same]
      exact ⟨latest, last.other same now, noted⟩
  numbered use member := by
    rcases List.mem_append.mp member with old | isNew
    · exact recalls.numbered use old
    · cases List.mem_singleton.mp isNew
      exact numbered

theorem Recalls.withReport (recalls : m.Recalls uses) (sound : m.Sound) (now : Instant) (q : Query) (g : Grouping) :
    (m.withReport now q g).1.Recalls (uses ++ [(m.roster.nextSerial, now)]) where
  noted report member := by
    rcases SortedMap.mem_values_insert member with rfl | old
    · refine ⟨now, ⟨List.mem_append_right _ List.mem_cons_self, fun use given same => ?_⟩, rfl⟩
      rcases List.mem_append.mp given with before | isNew
      · exact absurd same (Nat.ne_of_lt (recalls.numbered use before))
      · cases List.mem_singleton.mp isNew
        exact Int.le_refl _
    · obtain ⟨latest, last, noted⟩ := recalls.noted report old
      have number := sound.roster.given report (List.mem_append_right _ old)
      exact ⟨latest, last.other (Nat.ne_of_lt number) now, noted⟩
  numbered use member := by
    have next : (m.withReport now q g).1.roster.nextSerial = m.roster.nextSerial + 1 := rfl
    rw [next]
    rcases List.mem_append.mp member with old | isNew
    · exact Nat.lt_succ_of_lt (recalls.numbered use old)
    · cases List.mem_singleton.mp isNew
      exact Nat.lt_succ_self _

theorem Recalls.ask (recalls : m.Recalls uses) (tended : m.Tended settings) {now : Instant} {q : Query}
    {answer : Monitor × Nat} (asked : m.ask now q = .ok answer) : answer.1.Recalls (uses ++ [(answer.2, now)]) := by
  rcases ask_eq_ok_iff.mp asked with ⟨report, found, rfl⟩ | ⟨_, _, g, _, rfl⟩
  · exact recalls.touch (tended.sound.roster.given report (tended.filed.find?_iff.mp found).1) now
  · exact recalls.withReport tended.sound now q g

theorem Recalls.step (recalls : m.Recalls uses) (tended : m.Tended settings) (event : Event) :
    (m.step event).Recalls (uses ++ m.given event) := by
  obtain ⟨_, _, slides⟩ := step_slides tended.sound event
  have next := slides.nextSerial
  have idle := (List.append_nil uses).symm
  cases event with
  | submit s => exact idle ▸ ⟨recalls.noted, recalls.numbered⟩
  | merge now => exact idle ▸ recalls.retain (m.merge_faces now) next
  | tearDownIdle now => exact idle ▸ recalls.retain (m.tearDownIdle_faces now) next
  | lookup now id =>
    cases found : m.lookup now id with
    | error fault =>
      rw [Monitor.step, given, found]
      exact idle ▸ recalls
    | ok answer =>
      obtain ⟨q, _, _, asked⟩ := tended.lookup_ok_iff.mp found
      rw [Monitor.step, given_of_lookup found, found]
      exact recalls.ask tended asked
  | ask now q =>
    cases asked : m.ask now q with
    | error fault =>
      rw [Monitor.step, given, asked]
      exact idle ▸ recalls
    | ok answer =>
      rw [Monitor.step, given_of_ask asked, asked]
      exact recalls.ask tended asked

theorem Recalls.run (recalls : m.Recalls uses) (tended : m.Tended settings) {history : List Event}
    (possible : ∀ event ∈ history, event.Possible) : (m.run history).Recalls (uses ++ m.givenIn history) := by
  induction history generalizing m uses with
  | nil => exact (List.append_nil uses).symm ▸ recalls
  | cons event rest ih =>
    obtain ⟨first, later⟩ := List.forall_mem_cons.mp possible
    have tendedNext : (m.step event).Tended settings := tended.run (List.forall_mem_singleton.mpr first)
    have rest := ih (recalls.step tended event) tendedNext later
    rw [List.append_assoc] at rest
    exact rest

end Recalls

section Cards

variable {settings : Settings} {m : Monitor}

/-- A live report was there before, or its number is a new one. -/
theorem Tended.card_of_step (tended : m.Tended settings) {event : Event} (possible : event.Possible)
    {card : Nat × Query} (member : card ∈ (m.step event).roster.live.map Report.card) :
    card ∈ m.roster.live.map Report.card ∨ m.roster.nextSerial ≤ card.1 := by
  obtain ⟨_, _, slides⟩ := step_slides tended.sound event
  cases m.step_refiled possible with
  | kept keeps _ => exact Or.inl (keeps.cards_subset member)
  | made new _ absent same =>
    obtain ⟨report, known, rfl⟩ := List.mem_map.mp member
    rcases slides.reports report known with ⟨old, there, serial, _⟩ | ⟨later, _⟩
    · -- The report that had the number is still there, so it is the same one.
      have stays : old ∈ (m.step event).roster.live := same ▸ Roster.live_subset_insert absent there
      cases slides.roster.same known stays serial
      exact Or.inl (List.mem_map_of_mem there)
    · exact Or.inr later

theorem Tended.card_of_run (tended : m.Tended settings) {later : List Event}
    (possible : ∀ event ∈ later, event.Possible) {card : Nat × Query}
    (member : card ∈ (m.run later).roster.live.map Report.card) :
    card ∈ m.roster.live.map Report.card ∨ m.roster.nextSerial ≤ card.1 := by
  induction later generalizing m with
  | nil => exact Or.inl member
  | cons event rest ih =>
    obtain ⟨first, others⟩ := List.forall_mem_cons.mp possible
    obtain ⟨_, _, slides⟩ := step_slides tended.sound event
    rcases ih (tended.run (List.forall_mem_singleton.mpr first)) others member with old | isNew
    · exact tended.card_of_step first old
    · exact Or.inr (Nat.le_trans slides.nextSerial isNew)

/-- Whoever asks for a report that is gone is given one that was made since. -/
theorem Tended.new_after_gone (tended : m.Tended settings) {report : Report} (member : report ∈ m.roster.live)
    {between later : List Event} (possible : ∀ event ∈ between ++ later, event.Possible)
    (gone : ¬(m.run between).Offers report) (hence : Instant) :
    ∃ m' serial, ((m.run between).run later).lookup hence report.id = .ok (m', serial) ∧
      m.roster.nextSerial ≤ serial := by
  obtain ⟨possibleBetween, possibleLater⟩ := List.forall_mem_append.mp possible
  have known : m.lookup hence report.id = .ok (m.touch report hence) := by
    rw [lookup, tended.filed.find?_iff.mpr ⟨member, rfl⟩]
  obtain ⟨⟨m', serial⟩, found⟩ :=
    (tended.answers hence report.id).again ⟨_, known⟩ (between ++ later) possible hence
  rw [run_append] at found
  refine ⟨m', serial, found, ?_⟩
  have tendedBetween := tended.run possibleBetween
  have tendedLater := tendedBetween.run possibleLater
  obtain ⟨q, read, proper, asked⟩ := tendedLater.lookup_ok_iff.mp found
  have query : q = report.query := Except.ok.inj (read.symm.trans (tended.filed.live_proper member).parse_id)
  have offered : (serial, q) ∈
      ((m.run between).run (later ++ [.lookup hence report.id])).roster.live.map Report.card := by
    rw [run_snoc, Monitor.step, found]
    exact tendedLater.ask_answer proper asked
  have possibleLookup : ∀ event ∈ later ++ [.lookup hence report.id], event.Possible :=
    List.forall_mem_append.mpr ⟨possibleLater, List.forall_mem_singleton.mpr trivial⟩
  rcases tendedBetween.card_of_run possibleLookup offered with there | isNew
  · rcases tended.card_of_run possibleBetween there with old | isNew
    · -- It would be the report itself, which is gone.
      obtain ⟨other, here, card⟩ := List.mem_map.mp old
      have sameQuery : other.query = report.query := (congrArg Prod.snd card).trans query
      have sameId : other.id = report.id := congrArg Query.id sameQuery
      have same := List.inj_on_of_nodup_map tended.filed.distinct here member sameId
      rw [← card, same] at there
      exact absurd there gone
    · exact isNew
  · exact Nat.le_trans (run_nextSerial_le tended.sound between) isNew

theorem step_standing {event : Event} (possible : event.Possible) :
    (m.step event).roster.standing.map Report.card = m.roster.standing.map Report.card := by
  cases m.step_refiled possible with
  | kept keeps _ => exact keeps.standing
  | made _ _ _ same => rw [same]; rfl

theorem run_standing {history : List Event} (possible : ∀ event ∈ history, event.Possible) :
    (m.run history).roster.standing.map Report.card = m.roster.standing.map Report.card := by
  induction history generalizing m with
  | nil => rfl
  | cons event rest ih =>
    obtain ⟨first, later⟩ := List.forall_mem_cons.mp possible
    exact (ih later).trans (step_standing first)

theorem step_offers {event : Event} (possible : event.Possible) (never : ¬event.Sweeps m.settings) {report : Report}
    (member : report ∈ m.roster.live) : (m.step event).Offers report :=
  (m.step_refiled possible).live_subset never (List.mem_map_of_mem member)

/-- Idle reports are torn down at the end of a merge as they are otherwise. -/
theorem step_faces {event : Event} {now : Instant} (sweep : event = .merge now ∨ event = .tearDownIdle now) :
    (m.step event).roster.faces = Roster.retained (m.settings.idleTimeout.bind now.before?) m.roster.faces := by
  rcases sweep with rfl | rfl
  · exact m.merge_faces now
  · exact m.tearDownIdle_faces now

end Cards

/-- Seconds that are too many for a duration reach back to before the epoch
just the same. -/
theorem idleTimeout_iff {settings : Settings} {secs : Nat} (set : settings.idleSecs = some secs) (positive : 0 < secs)
    {latest now : Instant} (first : latest.Counted) (last : now.Counted) :
    (∃ cutoff ∈ settings.idleTimeout.bind now.before?, latest.stamp < cutoff.stamp) ↔
      latest.nanos < now.nanos - secs * 1000000000 := by
  have timeout : settings.idleTimeout = some (Duration.ofSecs secs) := by
    rw [Settings.idleTimeout, set, Option.filter_some, decide_eq_true positive]
    rfl
  have nanos : (Duration.ofSecs secs).val = min (secs * 1000000000) Duration.cap := Capped.val_clamp _
  rw [timeout, Option.bind_some, Instant.stamp_lt_before?_iff first last, nanos]
  unfold Instant.Counted at first last
  unfold Duration.cap
  omega

theorem Event.Sweeps.cases {settings : Settings} {event : Event} (sweeps : event.Sweeps settings) :
    settings.idleTimeout ≠ none ∧ ∃ now, event = .merge now ∨ event = .tearDownIdle now := by
  cases event with
  | submit s => exact sweeps.elim
  | lookup now id => exact sweeps.elim
  | ask now q => exact sweeps.elim
  | merge now => exact ⟨sweeps, now, Or.inl rfl⟩
  | tearDownIdle now => exact ⟨sweeps, now, Or.inr rfl⟩

theorem idleTimeout_eq_none {settings : Settings} (unlimited : settings.idleSecs = none ∨ settings.idleSecs = some 0) :
    settings.idleTimeout = none := by
  rcases unlimited with unset | zero
  · rw [Settings.idleTimeout, unset]
    rfl
  · rw [Settings.idleTimeout, zero]
    rfl

/-- A report made on demand is torn down with idle reports just if the latest
time that it was given, its making included, is before the timeout began. No
other event tears reports down, none does without a timeout, and standing
reports always stay. Whoever asks for a report that is gone, at once or later,
is given one that was made since. -/
theorem idle_reports_go {settings : Settings} (fit : settings.check = .ok ()) (start : Instant) :
    ∃ m, create settings start = .ok m ∧ ∀ history : List Event, (∀ event ∈ history, event.Possible) →
      (m.run history).roster.standing.map Report.card = m.roster.standing.map Report.card ∧
      (∀ secs, settings.idleSecs = some secs → 0 < secs → (∀ event ∈ history, event.Timely) → ∀ now, now.Counted →
        ∀ event, event = .merge now ∨ event = .tearDownIdle now → ∀ report ∈ (m.run history).roster.onDemand.values,
          ∃ latest, LastGiven (m.givenIn history) report.serial latest ∧
            (¬((m.run history).step event).Offers report ↔ latest.nanos < now.nanos - secs * 1000000000)) ∧
      (∀ event : Event, event.Possible → (∀ now, event ≠ .merge now ∧ event ≠ .tearDownIdle now) →
        ∀ report ∈ (m.run history).roster.live, ((m.run history).step event).Offers report) ∧
      (settings.idleSecs = none ∨ settings.idleSecs = some 0 → ∀ event : Event, event.Possible →
        ∀ report ∈ (m.run history).roster.live, ((m.run history).step event).Offers report) ∧
      ∀ event : Event, event.Possible → ∀ report ∈ (m.run history).roster.live,
        ¬((m.run history).step event).Offers report → ∀ later : List Event, (∀ event ∈ later, event.Possible) →
          ∀ hence, ∃ m' serial, (((m.run history).step event).run later).lookup hence report.id = .ok (m', serial) ∧
            (m.run history).roster.nextSerial ≤ serial := by
  obtain ⟨m, created⟩ := create_of_check fit start
  refine ⟨m, created, fun history possible => ?_⟩
  have begun := create_tended fit created
  have tended := begun.run possible
  have settled := tended.obeys.fixed
  refine ⟨run_standing possible, ?_, ?_, ?_, ?_⟩
  · intro secs set positive timely now counted event sweep report member
    have recalls : m.Recalls [] := by
      obtain ⟨scale, rfl⟩ := create_eq created
      exact ⟨by simp [Roster.create, SortedMap.values, SortedMap.empty], by simp⟩
    obtain ⟨latest, last, noted⟩ := (recalls.run begun possible).noted report member
    refine ⟨latest, last, ?_⟩
    rw [Offers, tended.sound.roster.gone_iff (step_faces sweep) member, noted, settled]
    exact idleTimeout_iff set positive (counted_of_givenIn timely last.1) counted
  · intro event allowed other report member
    refine step_offers allowed (fun sweeps => ?_) member
    obtain ⟨_, now, same⟩ := sweeps.cases
    exact same.elim (other now).1 (other now).2
  · intro unlimited event allowed report member
    refine step_offers allowed (fun sweeps => ?_) member
    rw [settled] at sweeps
    exact sweeps.cases.1 (idleTimeout_eq_none unlimited)
  · intro event allowed report member gone later laterPossible hence
    have all : ∀ e ∈ [event] ++ later, e.Possible := List.forall_mem_cons.mpr ⟨allowed, laterPossible⟩
    exact tended.new_after_gone member all gone hence

/-- Someone asks for a report three times, the last time by a clock that was
set back. -/
def glances : List Event := [
  .lookup ⟨2000000000⟩ "by_host?min=10",
  .lookup ⟨5000000000⟩ "by_host?min=10",
  .lookup ⟨3000000000⟩ "by_host?min=10"]

theorem glances_report_goes : (∀ event ∈ glances, event.Possible) ∧ (∀ event ∈ glances, event.Timely) ∧
    ∃ m, create .standard .epoch = .ok m ∧
      m.givenIn glances = [(19, ⟨2000000000⟩), (19, ⟨5000000000⟩), (19, ⟨3000000000⟩)] ∧
      ∃ report ∈ (m.run glances).roster.onDemand.values,
        ((m.run glances).step (.tearDownIdle ⟨605000000000⟩)).Offers report ∧
          ¬((m.run glances).step (.merge ⟨605000000001⟩)).Offers report ∧
            ∃ m' serial, ((m.run glances).step (.merge ⟨605000000001⟩)).lookup ⟨606000000000⟩ report.id =
              .ok (m', serial) ∧ (m.run glances).roster.nextSerial ≤ serial := by
  obtain ⟨m, created, tidies⟩ := idle_reports_go (show Settings.standard.check = .ok () from rfl) .epoch
  have possible : ∀ event ∈ glances, event.Possible := by simp [glances, Event.Possible]
  have timely : ∀ event ∈ glances, event.Timely := by
    simp [glances, Event.Timely, Event.reading?, Instant.Counted]
  have made := passes_of_create created (fun m => decide
    (m.givenIn glances = [(19, ⟨2000000000⟩), (19, ⟨5000000000⟩), (19, ⟨3000000000⟩)] ∧
      (m.run glances).roster.onDemand.values.map (·.serial) = [19])) (by decide +kernel)
  obtain ⟨given, serials⟩ := of_decide_eq_true made
  obtain ⟨report, rest, values, serial, _⟩ := List.map_eq_cons_iff.mp serials
  have member : report ∈ (m.run glances).roster.onDemand.values := values ▸ List.mem_cons_self
  have goes := (tidies glances possible).2.1 600 rfl (by decide) timely
  -- The second of the three times is the latest one.
  have second {latest : Instant} (last : LastGiven (m.givenIn glances) report.serial latest) :
      latest.nanos = 5000000000 := by
    rw [given, serial] at last
    have atLeast := last.2 (19, ⟨5000000000⟩) (by simp) rfl
    rw [Instant.le_iff] at atLeast
    have one := last.1
    simp only [List.mem_cons, Prod.mk.injEq, true_and, List.not_mem_nil, or_false] at one
    rcases one with rfl | rfl | rfl <;> simp at atLeast ⊢
  have stays : ((m.run glances).step (.tearDownIdle ⟨605000000000⟩)).Offers report := by
    obtain ⟨latest, last, gone⟩ := goes ⟨605000000000⟩ (by decide) _ (Or.inr rfl) report member
    have early := second last
    by_contra lost
    have before := gone.mp lost
    dsimp only at before
    omega
  have leaves : ¬((m.run glances).step (.merge ⟨605000000001⟩)).Offers report := by
    obtain ⟨latest, last, gone⟩ := goes ⟨605000000001⟩ (by decide) _ (Or.inl rfl) report member
    have early := second last
    refine gone.mpr ?_
    dsimp only
    omega
  have again := (tidies glances possible).2.2.2.2 (.merge ⟨605000000001⟩) trivial report
    (List.mem_append_right _ member) leaves [] (by simp) ⟨606000000000⟩
  have nothing (m : Monitor) : m.run [] = m := rfl
  rw [nothing] at again
  exact ⟨possible, timely, m, created, given, report, member, stays, leaves, again⟩

end Monitor

end Rollup
