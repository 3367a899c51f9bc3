import Rollup.Proofs.Idle

namespace Rollup

namespace Roster

/-- All reports that there ever were, those torn down included. -/
def everyone (r : Roster) : List Report := r.live ++ r.retired

/-- So many reports were made on demand, and so many of them torn down. Each
report has a number that was given out. -/
structure Counts (r : Roster) (made gone : Nat) : Prop where
  whole : made = r.onDemand.size + gone
  torn : r.retired.length = gone
  next : r.nextSerial = StandardReport.all.length + made
  numbered : ∀ report ∈ r.everyone, report.serial < r.nextSerial

theorem create_counts (scale : Scale) (now : Instant) : (create scale now).Counts 0 0 where
  whole := rfl
  torn := rfl
  next := rfl
  numbered report member := by
    have retired : (create scale now).retired = [] := rfl
    rw [everyone, retired, List.append_nil] at member
    exact (create_sound scale now).given report member

variable {r : Roster} {made gone : Nat}

theorem Counts.modify (counts : r.Counts made gone) {f : Report → Report}
    (same : ∀ report, (f report).serial = report.serial) (serial : Nat) : (r.modify serial f).Counts made gone where
  whole := by
    have size : (r.modify serial f).onDemand.size = r.onDemand.size := List.length_map _
    rw [size]
    exact counts.whole
  torn := counts.torn
  next := counts.next
  numbered report member := by
    have next : (r.modify serial f).nextSerial = r.nextSerial := rfl
    rw [next]
    rcases List.mem_append.mp member with live | retired
    · rw [live_modify] at live
      obtain ⟨old, known, rfl⟩ := List.mem_map.mp live
      have before := counts.numbered old (List.mem_append_left _ known)
      split
      · exact same old ▸ before
      · exact before
    · exact counts.numbered report (List.mem_append_right _ retired)

theorem Counts.updates (counts : r.Counts made gone) (f : Breakdown → Breakdown) (serials : List Nat) :
    (serials.foldl (update f) r).Counts made gone := by
  induction serials generalizing r with
  | nil => exact counts
  | cons serial rest ih =>
    refine ih (counts.modify (f := fun report => { report with breakdown := f report.breakdown }) ?_ serial)
    exact fun _ => rfl

/-- A report that is made for an id that had none is one more. -/
theorem Counts.insert (counts : r.Counts made gone) {report : Report} (absent : r.find? report.id = none)
    (new : report.serial = r.nextSerial) : (r.insert report).Counts (made + 1) gone where
  whole := by
    have before := counts.whole
    have free : r.onDemand.find? report.id = none := (Option.or_eq_none_iff.mp absent).2
    have more : (r.insert report).onDemand.size = r.onDemand.size + 1 := by
      rw [SortedMap.size, Roster.insert, SortedMap.length_insert, free]
      rfl
    omega
  torn := counts.torn
  next := by
    have before := counts.next
    have after : (r.insert report).nextSerial = r.nextSerial + 1 := rfl
    omega
  numbered other member := by
    have after : (r.insert report).nextSerial = r.nextSerial + 1 := rfl
    rw [after]
    rcases List.mem_append.mp member with live | retired
    · rcases mem_live_insert live with rfl | old
      · omega
      · exact Nat.lt_succ_of_lt (counts.numbered other (List.mem_append_left _ old))
    · exact Nat.lt_succ_of_lt (counts.numbered other (List.mem_append_right _ retired))

/-- Reports that are torn down are as many fewer live ones. -/
theorem Counts.retire (counts : r.Counts made gone) (cutoff : Instant) :
    (r.retire cutoff).Counts made (gone + ((r.retire cutoff).retired.length - r.retired.length)) where
  whole := by
    have before := counts.whole
    have idle : (r.retire cutoff).retired.length =
        r.retired.length + (r.onDemand.values.filter (·.idleSince cutoff)).length := List.length_append
    have busy : (r.retire cutoff).onDemand.size = (r.onDemand.values.filter (!·.idleSince cutoff)).length := by
      rw [← SortedMap.values_filter r.onDemand (!·.idleSince cutoff)]
      exact (List.length_map _).symm
    have size : r.onDemand.values.length = r.onDemand.size := List.length_map _
    have split := r.onDemand.values.length_eq_length_filter_add (·.idleSince cutoff)
    omega
  torn := by
    have before := counts.torn
    have more : r.retired.length ≤ (r.retire cutoff).retired.length := (List.prefix_append _ _).length_le
    omega
  next := counts.next
  numbered report member := by
    refine counts.numbered report ?_
    rcases List.mem_append.mp member with live | retired
    · exact List.mem_append_left _ ((r.live_retire cutoff).subset live)
    · rcases List.mem_append.mp retired with old | idle
      · exact List.mem_append_right _ old
      · exact List.mem_append_left _ (List.mem_append_right _ (List.mem_filter.mp idle).1)

end Roster

namespace Monitor

/-- How many reports an event makes. One is made where someone is given a report
whose number none has, neither a live one nor one torn down. -/
def makes (m : Monitor) (event : Event) : Nat := (m.given event).countP fun use => (m.report? use.1).isNone

/-- How many reports go because someone wants idle ones to go, without a merge. -/
def dismisses (m : Monitor) : Event → Nat
  | .tearDownIdle now => (m.tearDownIdle now).2
  | .submit _ => 0
  | .merge _ => 0
  | .lookup _ _ => 0
  | .ask _ _ => 0

/-- A number of things that each event of a history brings about, summed up. -/
def sumOver (count : Monitor → Event → Nat) (m : Monitor) : List Event → Nat
  | [] => 0
  | event :: rest => count m event + (m.step event).sumOver count rest

/-- So many reports were made on demand, and so many went without being counted
as torn down. -/
def Census (m : Monitor) (made uncounted : Nat) : Prop := m.roster.Counts made (m.counters.tornDown + uncounted)

section Census

variable {m : Monitor} {made gone uncounted : Nat}

theorem updateReports_counts (counts : m.roster.Counts made gone) (f : Breakdown → Breakdown) :
    (m.updateReports f).roster.Counts made gone := by
  rw [updateReports_roster]
  exact counts.updates f _

theorem evict_counts (counts : m.roster.Counts made gone) (n : Nat) : (m.evict n).roster.Counts made gone := by
  unfold evict
  split
  · exact counts
  · exact updateReports_counts counts _

theorem absorb_counts (counts : m.roster.Counts made gone) (now : Instant) (batch : List Submission) :
    (m.absorb now batch).1.roster.Counts made gone := by
  obtain ⟨kept, k, _, absorbed⟩ := m.absorb_fst now batch
  rw [absorbed]
  split
  · exact evict_counts counts k
  · exact updateReports_counts (evict_counts counts k) _

/-- What tearing down tells is how many reports it was. -/
theorem tearDownIdle_counts (counts : m.roster.Counts made gone) (now : Instant) :
    (m.tearDownIdle now).1.roster.Counts made (gone + (m.tearDownIdle now).2) := by
  unfold tearDownIdle
  split
  · exact counts
  · exact counts.retire _

theorem absorb_counters (m : Monitor) (now : Instant) (batch : List Submission) :
    (m.absorb now batch).1.counters = m.counters := by
  obtain ⟨kept, k, _, absorbed⟩ := m.absorb_fst now batch
  obtain ⟨roster, evicted⟩ := m.evict_eq k
  rw [absorbed, evicted]
  split <;> rfl

theorem Census.finishMerge (census : m.Census made uncounted) (now : Instant) (expired : Nat)
    (taken : List Submission) : (m.finishMerge now expired taken).1.Census made uncounted := by
  have swept := tearDownIdle_counts (absorb_counts census now (taken.partition Submission.isSound).1) now
  have before := m.absorb_counters now (taken.partition Submission.isSound).1
  obtain ⟨roster, torn⟩ := tearDownIdle_eq (m.absorb now (taken.partition Submission.isSound).1).1 now
  have counted : (m.finishMerge now expired taken).1.counters.tornDown =
      ((m.absorb now (taken.partition Submission.isSound).1).1.tearDownIdle now).1.counters.tornDown +
        ((m.absorb now (taken.partition Submission.isSound).1).1.tearDownIdle now).2 := rfl
  rw [torn] at counted
  rw [Census, counted, before, Nat.add_right_comm]
  exact swept

theorem Census.merge (census : m.Census made uncounted) (now : Instant) : (m.merge now).1.Census made uncounted := by
  obtain ⟨n, most, merged⟩ := m.merge_fst now
  obtain ⟨roster, evicted⟩ := m.evict_eq n
  have between (inbox : Inbox) : Census { m.evict n with inbox } made uncounted := by
    have left := evict_counts census n
    rw [evicted] at left ⊢
    exact left
  rw [merged]
  exact (between _).finishMerge now n _

/-- Idle reports that go without a merge are not counted as torn down. -/
theorem Census.tearDownIdle (census : m.Census made uncounted) (now : Instant) :
    (m.tearDownIdle now).1.Census made (uncounted + (m.tearDownIdle now).2) := by
  have swept := tearDownIdle_counts census now
  obtain ⟨roster, torn⟩ := m.tearDownIdle_eq now
  have same : (m.tearDownIdle now).1.counters = m.counters := by rw [torn]
  rw [Census, same, ← Nat.add_assoc]
  exact swept

variable {settings : Settings}

/-- Who asks for a report that is there makes none, and who asks for another one
makes one. -/
theorem Census.ask (census : m.Census made uncounted) (tended : m.Tended settings) {now : Instant} {q : Query}
    {answer : Monitor × Nat} (asked : m.ask now q = .ok answer) :
    answer.1.Census (made + if (m.report? answer.2).isNone then 1 else 0) uncounted := by
  rcases ask_eq_ok_iff.mp asked with ⟨report, found, rfl⟩ | ⟨absent, _, g, _, rfl⟩
  · have known := tended.sound.report?_live (tended.filed.find?_iff.mp found).1
    have same : (m.touch report now).2 = report.serial := rfl
    rw [same, known]
    exact Roster.Counts.modify census (f := (·.touch now)) (fun _ => rfl) report.serial
  · have new : m.report? m.roster.nextSerial = none := by
      refine List.find?_eq_none.mpr fun report member same => ?_
      exact absurd (of_decide_eq_true same) (Nat.ne_of_lt (census.numbered report member))
    have same : (m.withReport now q g).2 = m.roster.nextSerial := rfl
    rw [same, new]
    exact Roster.Counts.insert census absent rfl

theorem makes_of_given {event : Event} {use : Nat × Instant} (gives : m.given event = [use]) :
    m.makes event = if (m.report? use.1).isNone then 1 else 0 := by
  rw [makes, gives]
  exact List.countP_singleton

theorem makes_of_none {event : Event} (gives : m.given event = []) : m.makes event = 0 := by
  rw [makes, gives]
  rfl

theorem Census.step (census : m.Census made uncounted) (tended : m.Tended settings) (event : Event) :
    (m.step event).Census (made + m.makes event) (uncounted + m.dismisses event) := by
  cases event with
  | submit s => exact census
  | merge now => exact census.merge now
  | tearDownIdle now => exact census.tearDownIdle now
  | lookup now id =>
    cases found : m.lookup now id with
    | error fault =>
      rw [Monitor.step, makes_of_none (by rw [given, found]), found]
      exact census
    | ok answer =>
      obtain ⟨q, _, _, asked⟩ := tended.lookup_ok_iff.mp found
      rw [Monitor.step, makes_of_given (given_of_lookup found), found]
      exact census.ask tended asked
  | ask now q =>
    cases asked : m.ask now q with
    | error fault =>
      rw [Monitor.step, makes_of_none (by rw [given, asked]), asked]
      exact census
    | ok answer =>
      rw [Monitor.step, makes_of_given (given_of_ask asked), asked]
      exact census.ask tended asked

theorem Census.run (census : m.Census made uncounted) (tended : m.Tended settings) {history : List Event}
    (possible : ∀ event ∈ history, event.Possible) :
    (m.run history).Census (made + m.sumOver makes history) (uncounted + m.sumOver dismisses history) := by
  induction history generalizing m made uncounted with
  | nil => exact census
  | cons event rest ih =>
    obtain ⟨first, later⟩ := List.forall_mem_cons.mp possible
    have rest := ih (census.step tended event) (tended.run (List.forall_mem_singleton.mpr first)) later
    rw [Nat.add_assoc, Nat.add_assoc] at rest
    exact rest

theorem create_census {now : Instant} (created : create settings now = .ok m) : m.Census 0 0 := by
  obtain ⟨scale, rfl⟩ := create_eq created
  exact Roster.create_counts scale now

end Census

/-- Of the reports that were made on demand each is live, was counted as torn
down, or went because someone wanted idle ones to go; so the counters account
for all of them just while nobody got a report torn down that way. The standing
reports are listed in their fixed order, and then those made on demand, as many
as are told, by their ids. -/
theorem accounted_iff_none_dismissed {settings : Settings} (fit : settings.check = .ok ()) (start : Instant) :
    ∃ m, create settings start = .ok m ∧ ∀ history : List Event, (∀ event ∈ history, event.Possible) →
      let o := (m.run history).overview
      m.sumOver makes history = o.onDemand + o.counters.tornDown + m.sumOver dismisses history ∧
        (m.sumOver makes history = o.onDemand + o.counters.tornDown ↔ m.sumOver dismisses history = 0) ∧
        ∃ ids, (m.run history).roster.live.map Report.id = StandardReport.all.map (·.id) ++ ids ∧
          ids.length = o.onDemand ∧ ids.Pairwise (· < ·) := by
  obtain ⟨m, created⟩ := create_of_check fit start
  refine ⟨m, created, fun history possible => ?_⟩
  have begun := create_tended fit created
  have counts := ((create_census created).run begun possible).whole
  rw [Nat.zero_add, Nat.zero_add, ← Nat.add_assoc] at counts
  have exactly : m.sumOver makes history =
        (m.run history).overview.onDemand + (m.run history).overview.counters.tornDown ↔
      m.sumOver dismisses history = 0 := by
    rw [counts]
    exact Nat.add_eq_left
  refine ⟨counts, exactly, (m.run history).roster.onDemand.keys, (begun.run possible).filed.live_ids, ?_, ?_⟩
  · exact List.length_map _
  · exact List.pairwise_map.mpr ((m.run history).roster.onDemand.sorted.imp compareOfLessAndEq_eq_lt.mp)

/-- Two reports are made, of which a merge tears one down. Then a third one is
made, and someone wants idle ones to go. -/
def comingsAndGoings : List Event := [
  .lookup ⟨1000000000⟩ "by_script?min=5",
  .lookup ⟨400000000000⟩ "by_host?min=10",
  .merge ⟨700000000000⟩,
  .lookup ⟨900000000000⟩ "by_server?max=20",
  .tearDownIdle ⟨1100000000000⟩]

theorem comingsAndGoings_accounted : (∀ event ∈ comingsAndGoings, event.Possible) ∧
    ∃ m, create .standard .epoch = .ok m ∧ m.sumOver makes comingsAndGoings = 3 ∧
      m.sumOver dismisses comingsAndGoings = 1 ∧
      let o := (m.run comingsAndGoings).overview
      o.onDemand + o.counters.tornDown + 1 = 3 ∧ o.onDemand = 1 ∧ o.counters.tornDown = 1 := by
  obtain ⟨m, created, accounts⟩ := accounted_iff_none_dismissed (show Settings.standard.check = .ok () from rfl) .epoch
  have possible : ∀ event ∈ comingsAndGoings, event.Possible := by simp [comingsAndGoings, Event.Possible]
  have seen := passes_of_create created (fun m => decide (m.sumOver makes comingsAndGoings = 3 ∧
    m.sumOver dismisses comingsAndGoings = 1 ∧ (m.run comingsAndGoings).overview.onDemand = 1 ∧
      (m.run comingsAndGoings).overview.counters.tornDown = 1)) (by decide +kernel)
  obtain ⟨made, dismissed, onDemand, tornDown⟩ := of_decide_eq_true seen
  have whole := (accounts comingsAndGoings possible).1
  rw [made, dismissed] at whole
  exact ⟨possible, m, created, made, dismissed, whole.symm, onDemand, tornDown⟩

/-- A report is made and goes because someone wants idle ones to go. -/
def dismissal : List Event := [.lookup ⟨1000000000⟩ "by_host?min=10", .tearDownIdle ⟨700000000000⟩]

theorem dismissed_not_counted : ∃ m, create .standard .epoch = .ok m ∧ m.sumOver makes dismissal = 1 ∧
    (m.run dismissal).overview.onDemand + (m.run dismissal).overview.counters.tornDown = 0 := by
  obtain ⟨m, created⟩ := create_of_check (show Settings.standard.check = .ok () from rfl) .epoch
  have seen := passes_of_create created (fun m => decide (m.sumOver makes dismissal = 1 ∧
    (m.run dismissal).overview.onDemand + (m.run dismissal).overview.counters.tornDown = 0)) (by decide +kernel)
  exact ⟨m, created, of_decide_eq_true seen⟩

end Monitor

end Rollup
