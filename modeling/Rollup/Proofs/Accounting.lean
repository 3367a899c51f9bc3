import Rollup.Proofs.Merge

namespace Rollup

theorem Metric.name_injective {a b : Metric} (same : a.name = b.name) : a = b := by
  revert same
  cases a <;> cases b <;> decide

/-- The counter behind a published number. -/
def Counters.of (c : Counters) : Metric → Nat
  | .accepted => c.accepted
  | .malformed => c.malformed
  | .inboxDropped => c.inboxDropped
  | .displaced => c.displaced
  | .expired => c.expired

/-- What a merge adds to it. -/
def Merge.of (merge : Merge) : Metric → Nat
  | .accepted => merge.appended
  | .malformed => merge.malformed
  | .inboxDropped => 0
  | .displaced => merge.displaced
  | .expired => merge.expired

theorem Counters.of_record (c : Counters) (merge : Merge) (metric : Metric) :
    (c.record merge).of metric = c.of metric + merge.of metric := by
  cases metric <;> rfl

namespace Recorder

theorem value_increment (r : Recorder) (raised metric : Metric) (n : Nat) :
    value (increment r raised n) metric = value r metric + if raised = metric then n else 0 := by
  unfold increment
  split
  · rename_i none
    rw [none, ite_self, Nat.add_zero]
  · unfold value
    rw [SortedMap.find?_insert]
    by_cases same : raised = metric
    · rw [same, if_pos rfl, if_pos rfl]
      rfl
    · rw [if_neg fun names => same (Metric.name_injective names), if_neg same, Nat.add_zero]

theorem value_record (r : Recorder) (merge : Merge) (metric : Metric) :
    value (record r merge) metric = value r metric + merge.of metric := by
  unfold record
  simp only [value_increment]
  cases metric <;> simp [Merge.of]

end Recorder

namespace Monitor

/-- Of `given` submissions each is accounted for once, and what is published
is what was counted. A request that was accepted is still there, aged out or
had to make room. -/
structure Balanced (m : Monitor) (given : Nat) : Prop where
  whole : given = m.inbox.size + m.counters.inboxDropped + m.counters.malformed + m.counters.expired +
    m.counters.displaced + m.window.size
  least : m.counters.expired + m.window.size ≤ m.counters.accepted
  most : m.counters.accepted ≤ m.counters.expired + m.window.size + m.counters.displaced
  published : ∀ metric, Recorder.value m.recorder metric = m.counters.of metric

theorem Balanced.submit {m : Monitor} {given : Nat} (balanced : m.Balanced given) (steady : m.Steady) (s : Submission) :
    (m.submit s).Balanced (given + 1) where
  whole := by
    have pushed := Inbox.size_push steady.room s
    have before := balanced.whole
    show given + 1 = (m.inbox.push s).size + (m.counters.inboxDropped + if m.inbox.isFull then 1 else 0) +
      m.counters.malformed + m.counters.expired + m.counters.displaced + m.window.size
    omega
  least := balanced.least
  most := balanced.most
  published metric := by
    have before := balanced.published metric
    show Recorder.value (Recorder.increment m.recorder .inboxDropped (if m.inbox.isFull then 1 else 0)) metric = _
    rw [Recorder.value_increment, before]
    cases metric <;> rfl

theorem Balanced.merge {m : Monitor} {given : Nat} (balanced : m.Balanced given) (steady : m.Steady) (now : Instant) :
    (m.merge now).1.Balanced given := by
  have merged := steady.merged now
  have stay := steady.length_survivors now
  have aged := m.expiring_le now
  have full := steady.window.size_le
  have pooled := m.length_pooled
  have crowd : m.crowd now = (m.survivors now).length + m.pooled.length - m.window.capacity := rfl
  have size := merged.size
  have taken : m.inbox.size = m.arrivals.length + (m.inbox.waiting.filter (!·.isSound)).length :=
    m.inbox.waiting.length_eq_length_filter_add (·.isSound)
  have emptied : (m.merge now).1.inbox.size = 0 := by
    rw [merged.inbox]
    rfl
  obtain ⟨whole, least, most, published⟩ := balanced
  -- All sizes are known now, so what is left of each account is arithmetic.
  refine ⟨?_, ?_, ?_, fun metric => ?_⟩
  · rw [merged.counters, emptied, size]
    simp only [Counters.record, merged.malformed, merged.expired, merged.displaced]
    omega
  · rw [merged.counters, size]
    simp only [Counters.record, merged.appended, merged.expired]
    omega
  · rw [merged.counters, size]
    simp only [Counters.record, merged.appended, merged.expired, merged.displaced]
    omega
  · rw [merged.recorder, merged.counters, Recorder.value_record, Counters.of_record, published]

theorem Balanced.step {m : Monitor} {given : Nat} (balanced : m.Balanced given) (steady : m.Steady) (event : Event) :
    (m.step event).Balanced (given + (submitted [event]).length) := by
  rcases m.step_cases event with ⟨s, rfl, same⟩ | ⟨now, rfl, same⟩ | ⟨none, roster, same⟩
  · exact same ▸ balanced.submit steady s
  · exact same ▸ balanced.merge steady now
  · rw [same, none]
    exact ⟨balanced.whole, balanced.least, balanced.most, balanced.published⟩

theorem Balanced.run {m : Monitor} {given : Nat} (balanced : m.Balanced given) (steady : m.Steady)
    (history : List Event) : (m.run history).Balanced (given + (submitted history).length) := by
  induction history generalizing m given with
  | nil => exact balanced
  | cons event rest ih =>
    have later := ih (balanced.step steady event) (steady.step event)
    rw [Nat.add_assoc, ← List.length_append, ← submitted_append] at later
    exact later

theorem create_balanced {settings : Settings} {now : Instant} {m : Monitor} (created : create settings now = .ok m) :
    m.Balanced 0 := by
  obtain ⟨scale, rfl⟩ := create_eq created
  exact ⟨rfl, Nat.le_refl _, Nat.le_refl _, fun metric => by cases metric <;> rfl⟩

/-- Under any settings that are fit, and whatever happens: every submission
still waits, was dropped from the inbox, was malformed, has aged out, was
displaced or is in the window, and is one of these only. At least those that
aged out or are in the window were accepted, and no more than were submitted.
What is published agrees with the counters. -/
theorem every_submission_counted {settings : Settings} (fit : settings.check = .ok ()) (now : Instant) :
    ∃ m, create settings now = .ok m ∧ ∀ history,
      let o := (m.run history).overview
      (submitted history).length = o.waiting + o.counters.inboxDropped + o.counters.malformed + o.counters.expired +
        o.counters.displaced + o.window.requests ∧
      o.counters.expired + o.window.requests ≤ o.counters.accepted ∧
      o.counters.accepted ≤ (submitted history).length ∧
      ∀ metric, Recorder.value (m.run history).recorder metric = o.counters.of metric := by
  obtain ⟨m, created⟩ := create_of_check fit now
  have steady := (create_obeys fit created).steady
  refine ⟨m, created, fun history => ?_⟩
  obtain ⟨whole, least, most, published⟩ := (create_balanced created).run steady history
  rw [Nat.zero_add] at whole
  have within : (m.run history).counters.accepted ≤ (submitted history).length := by omega
  exact ⟨whole, least, within, published⟩

/-- One submission goes each way: out of the full inbox, for a fault, lost as
more come than the window holds, to make room, by age, into the window and to
wait. -/
def everyWay : List Event := [
  .submit { script := "dropped" },
  .submit { script := "lost" },
  .submit { script := "displaced" },
  .merge ⟨1000000000⟩,
  .submit { script := "faulty", tagNames := [0] },
  .submit { script := "aged" },
  .merge ⟨2000000000⟩,
  .submit { script := "kept" },
  .merge ⟨1000000000000⟩,
  .submit { script := "waiting" }]

theorem everyWay_counted : ∃ m, create { windowCapacity := 1, inboxCapacity := 2 } .epoch = .ok m ∧
    let o := (m.run everyWay).overview
    (submitted everyWay).length = o.waiting + o.counters.inboxDropped + o.counters.malformed + o.counters.expired +
      o.counters.displaced + o.window.requests ∧
    o.waiting = 1 ∧ o.window.requests = 1 ∧ o.counters =
      { accepted := 3, malformed := 1, inboxDropped := 1, displaced := 2, expired := 1 } := by
  have fit : ({ windowCapacity := 1, inboxCapacity := 2 } : Settings).check = .ok () := rfl
  obtain ⟨m, created, counts⟩ := every_submission_counted fit .epoch
  have seen := passes_of_create created (fun m => (m.run everyWay).overview.waiting = 1 ∧
    (m.run everyWay).overview.window.requests = 1 ∧ (m.run everyWay).overview.counters =
      { accepted := 3, malformed := 1, inboxDropped := 1, displaced := 2, expired := 1 }) (by decide +kernel)
  exact ⟨m, created, (counts everyWay).1, of_decide_eq_true seen⟩

end Monitor

end Rollup
