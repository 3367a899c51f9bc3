import Rollup.Proofs.Described
import Rollup.Proofs.Ring
import Rollup.Proofs.Scale
import Rollup.Settings.Change
import Rollup.Settings.Document

namespace Rollup

theorem Duration.ofNanos_pos {n : Nat} (positive : 0 < n) : 0 < Duration.ofNanos n :=
  Nat.lt_min.mpr ⟨positive, by decide⟩

theorem Duration.val_ofMillis {n : Nat} (short : n ≤ Settings.longestMs) : (Duration.ofMillis n).val = n * 1000000 := by
  refine Nat.min_eq_left ?_
  unfold Settings.longestMs at short
  unfold Duration.cap
  omega

namespace Scale

/-- A cell is at least as long as the width says; the last one may be longer. -/
theorem edge_add_width_le {s : Scale} {cell : Nat} (within : cell < s.cells) :
    (s.edge cell).val + s.width.val ≤ (s.edge (cell + 1)).val := by
  have step : s.width.val * (cell + 1) = s.width.val * cell + s.width.val := Nat.mul_succ _ _
  have whole : s.width.val * (cell + 1) ≤ s.top.val := s.width_mul_le within
  rw [edge_val within]
  by_cases next : cell + 1 < s.cells
  · rw [edge_val next]
    omega
  · rw [edge_of_cells_le (Nat.not_lt.mp next)]
    omega

end Scale

namespace Settings

/-- Settings of which none is zero, with a scale whose cells are a millisecond
wide and whose top fits a machine word in milliseconds. -/
structure Usable (s : Settings) : Prop where
  retention : 0 < s.retentionSecs
  mergeInterval : 0 < s.mergeIntervalMs
  window : 0 < s.windowCapacity
  inbox : 0 < s.inboxCapacity
  growStep : 0 < s.timerGrowStep
  shrinkFactor : 0 < s.timerShrinkFactor
  lanes : 0 < s.lanes
  mostWords : 0 < s.mostWords
  workerName : 0 < s.workerName.utf8ByteSize
  name : 0 < s.name.utf8ByteSize
  cells : 0 < s.histogramCells
  thick : s.histogramCells ≤ s.histogramTopMs
  top : s.histogramTopMs ≤ longestMs

variable {s s' : Settings}

theorem scale_eq_ok_iff (word : s.histogramTopMs ≤ longestMs) {scale : Scale} : s.scale = .ok scale ↔
    scale = ⟨Duration.ofMillis s.histogramTopMs, s.histogramCells⟩ ∧
      0 < s.histogramCells ∧ s.histogramCells ≤ s.histogramTopMs := by
  have top := Duration.val_ofMillis word
  constructor
  · unfold Settings.scale checkResolution
    intro scaled
    split at scaled
    · cases scaled
    · rename_i made
      obtain ⟨rfl, someCell, _⟩ := Scale.create_eq_ok_iff.mp made
      by_cases thin : s.histogramTopMs < s.histogramCells
      · rw [if_pos thin] at scaled
        cases scaled
      · rw [if_neg thin] at scaled
        cases scaled
        exact ⟨rfl, someCell, Nat.not_lt.mp thin⟩
  · rintro ⟨rfl, someCell, thick⟩
    have fine : s.histogramCells ≤ (Duration.ofMillis s.histogramTopMs).val := by omega
    have made := Scale.create_eq_ok_iff.mpr ⟨rfl, someCell, fine⟩
    unfold Settings.scale checkResolution
    rw [made, if_neg (Nat.not_lt.mpr thick)]

theorem check_eq_ok_iff : s.check = .ok () ↔ (∀ e ∈ s.positiveFields, 0 < e.2) ∧ ∃ scale, s.scale = .ok scale := by
  have found : s.positiveFields.find? (·.2 = 0) = none ↔ ∀ e ∈ s.positiveFields, 0 < e.2 := by
    rw [List.find?_eq_none]
    exact forall₂_congr fun e _ => by rw [decide_eq_true_iff, Nat.pos_iff_ne_zero]
  rw [← found]
  unfold Settings.check
  cases s.positiveFields.find? (·.2 = 0) with
  | some e => exact ⟨fun fit => (by cases fit), fun both => (by cases both.1)⟩
  | none =>
    cases s.scale with
    | error fault => exact ⟨fun fit => (by cases fit), fun both => (by cases both.2.choose_spec)⟩
    | ok scale => exact ⟨fun _ => ⟨rfl, scale, rfl⟩, fun _ => rfl⟩

theorem positive_iff : (∀ e ∈ s.positiveFields, 0 < e.2) ↔
    0 < s.retentionSecs ∧ 0 < s.mergeIntervalMs ∧ 0 < s.windowCapacity ∧ 0 < s.inboxCapacity ∧ 0 < s.timerGrowStep ∧
      0 < s.timerShrinkFactor ∧ 0 < s.lanes ∧ 0 < s.mostWords ∧ 0 < s.workerName.utf8ByteSize ∧
      0 < s.name.utf8ByteSize := by
  simp only [positiveFields, List.forall_mem_cons, List.not_mem_nil, false_imp_iff, implies_true, and_true]

/-- What is looked at before settings are used is just that they are usable. -/
theorem check_ok_iff_usable (word : s.histogramTopMs ≤ longestMs) : s.check = .ok () ↔ s.Usable := by
  rw [check_eq_ok_iff, positive_iff]
  constructor
  · rintro ⟨positive, scale, scaled⟩
    obtain ⟨retention, mergeInterval, window, inbox, growStep, shrinkFactor, lanes, words, worker, name⟩ := positive
    obtain ⟨_, cells, thick⟩ := (scale_eq_ok_iff word).mp scaled
    exact ⟨retention, mergeInterval, window, inbox, growStep, shrinkFactor, lanes, words, worker, name, cells, thick,
      word⟩
  · intro u
    exact ⟨⟨u.retention, u.mergeInterval, u.window, u.inbox, u.growStep, u.shrinkFactor, u.lanes, u.mostWords,
      u.workerName, u.name⟩, _, (scale_eq_ok_iff word).mpr ⟨rfl, u.cells, u.thick⟩⟩

theorem standard_usable : standard.Usable := by
  constructor <;> decide

/-- What becomes of settings by a change that is not refused. -/
inductive Takes (s : Settings) : Change → Settings → Prop
  | retention {d : Duration} : Duration.ofSecs 1 ≤ d → s.Takes (.retention d) { s with retentionSecs := d.secs }
  | mergeInterval {d : Duration} : 0 < d → d < Duration.ofSecs 60 →
    s.Takes (.mergeInterval d) { s with mergeIntervalMs := max d.millis 1 }
  | windowCapacity {n : Nat} : 0 < n → s.Takes (.windowCapacity n) { s with windowCapacity := n }
  | inboxCapacity {n : Nat} : 0 < n → s.Takes (.inboxCapacity n) { s with inboxCapacity := n }
  | timerRing {growStep shrinkFactor : Nat} : 0 < growStep → 0 < shrinkFactor →
    s.Takes (.timerRing growStep shrinkFactor) { s with timerGrowStep := growStep, timerShrinkFactor := shrinkFactor }
  | idleTimeout (d : Option Duration) : s.Takes (.idleTimeout d) { s with idleSecs := d.map fun d => max d.secs 1 }
  | histogram {top : Duration} {cells : Nat} : 0 < cells → cells ≤ min top.millis longestMs →
    s.Takes (.histogram top cells) { s with histogramTopMs := min top.millis longestMs, histogramCells := cells }
  | lanes {n : Nat} : 0 < n → s.Takes (.lanes n) { s with lanes := n }
  | mostWords {n : Nat} : 0 < n → s.Takes (.mostWords n) { s with mostWords := n }
  | workerName {name : String} : 0 < name.utf8ByteSize → s.Takes (.workerName name) { s with workerName := name }
  | name {name : String} : 0 < name.utf8ByteSize → s.Takes (.name name) { s with name }

theorem eq_of_not_refused {p : Prop} [Decidable p] {misuse : Misuse}
    (taken : (if p then Except.error misuse else Except.ok s) = .ok s') : ¬p ∧ s = s' := by
  by_cases refused : p
  · rw [if_pos refused] at taken
    cases taken
  · rw [if_neg refused] at taken
    exact ⟨refused, Except.ok.inj taken⟩

theorem takes_of_change {c : Change} (changed : s.change c = .ok s') : s.Takes c s' := by
  have filled {name : String} (some : ¬name.isEmpty) : 0 < name.utf8ByteSize :=
    Nat.pos_of_ne_zero (mt String.isEmpty_iff_utf8ByteSize_eq_zero.mpr some)
  cases c with
  | retention d =>
    obtain ⟨long, rfl⟩ := eq_of_not_refused changed
    exact .retention (Nat.not_lt.mp long)
  | mergeInterval d =>
    rw [Settings.change] at changed
    split at changed
    · rename_i inside
      cases changed
      exact .mergeInterval inside.1 inside.2
    · cases changed
  | windowCapacity n =>
    obtain ⟨some, rfl⟩ := eq_of_not_refused changed
    exact .windowCapacity (Nat.pos_of_ne_zero some)
  | inboxCapacity n =>
    obtain ⟨some, rfl⟩ := eq_of_not_refused changed
    exact .inboxCapacity (Nat.pos_of_ne_zero some)
  | timerRing growStep shrinkFactor =>
    rw [Settings.change] at changed
    split at changed
    · cases changed
    · rename_i someStep
      obtain ⟨someFactor, rfl⟩ := eq_of_not_refused changed
      exact .timerRing (Nat.pos_of_ne_zero someStep) (Nat.pos_of_ne_zero someFactor)
  | idleTimeout d =>
    cases changed
    exact .idleTimeout d
  | histogram top cells =>
    rw [Settings.change] at changed
    split at changed
    · cases changed
    · rename_i some
      obtain ⟨thick, rfl⟩ := eq_of_not_refused changed
      exact .histogram (Nat.pos_of_ne_zero some) (Nat.not_lt.mp thick)
  | lanes n =>
    obtain ⟨some, rfl⟩ := eq_of_not_refused changed
    exact .lanes (Nat.pos_of_ne_zero some)
  | mostWords n =>
    obtain ⟨some, rfl⟩ := eq_of_not_refused changed
    exact .mostWords (Nat.pos_of_ne_zero some)
  | workerName name =>
    obtain ⟨some, rfl⟩ := eq_of_not_refused changed
    exact .workerName (filled some)
  | name name =>
    obtain ⟨some, rfl⟩ := eq_of_not_refused changed
    exact .name (filled some)

/-- A change that is not refused keeps settings usable. A time that is not zero
may be less than a whole millisecond or second, and is then kept as one. -/
theorem Usable.takes (usable : s.Usable) {c : Change} (taken : s.Takes c s') : s'.Usable := by
  cases taken with
  | retention long => exact { usable with retention := Nat.div_pos long (by decide) }
  | mergeInterval _ _ => exact { usable with mergeInterval := Nat.le_max_right _ _ }
  | windowCapacity some => exact { usable with window := some }
  | inboxCapacity some => exact { usable with inbox := some }
  | timerRing step factor => exact { usable with growStep := step, shrinkFactor := factor }
  | idleTimeout d => exact { usable with }
  | histogram some thick => exact { usable with cells := some, thick := thick, top := Nat.min_le_right _ _ }
  | lanes some => exact { usable with lanes := some }
  | mostWords some => exact { usable with mostWords := some }
  | workerName filled => exact { usable with workerName := filled }
  | name filled => exact { usable with name := filled }

theorem Usable.changes (usable : s.Usable) {cs : List Change} (changed : s.changes cs = .ok s') : s'.Usable := by
  induction cs generalizing s with
  | nil =>
    cases changed
    exact usable
  | cons c rest ih =>
    obtain ⟨between, first, later⟩ := bind_eq_ok_iff.mp changed
    exact ih (usable.takes (takes_of_change first)) later

/-- The scale that a change asks for, in whole milliseconds that fit a machine
word. -/
def Change.scale? : Change → Option Scale
  | .histogram top cells => some ⟨Duration.ofMillis (min top.millis longestMs), cells⟩
  | _ => none

/-- The scale that was asked for last, or else the standard one. -/
def lastScale (cs : List Change) : Scale := ((cs.filterMap Change.scale?).getLast?).getD Scale.standard

/-- The scale that settings name, whether it can be used or not. -/
def scaleNamed (s : Settings) : Scale := ⟨Duration.ofMillis s.histogramTopMs, s.histogramCells⟩

theorem Takes.scaleNamed {c : Change} (taken : s.Takes c s') : s'.scaleNamed = c.scale?.getD s.scaleNamed := by
  cases taken <;> rfl

theorem standard_scaleNamed : standard.scaleNamed = Scale.standard := by decide

theorem changes_scaleNamed {cs : List Change} (changed : s.changes cs = .ok s') :
    s'.scaleNamed = ((cs.filterMap Change.scale?).getLast?).getD s.scaleNamed := by
  induction cs generalizing s with
  | nil =>
    cases changed
    rfl
  | cons c rest ih =>
    obtain ⟨between, first, later⟩ := bind_eq_ok_iff.mp changed
    rw [ih later, (takes_of_change first).scaleNamed, List.filterMap_cons]
    cases c.scale? with
    | none => rfl
    | some scale => rw [List.getLast?_cons, Option.getD_some, Option.getD_some]

/-- Settings whose histogram is given in machine words, of 64 bits for its top
and of 32 for its cells. -/
structure Worded (s : Settings) : Prop where
  top : s.histogramTopMs ≤ longestMs
  cells : s.histogramCells ≤ Vocabulary.widest

theorem Worded.of_map {α : Type} {value : Option α} {set : α → Settings} (done : value.map set = some s)
    (worded : ∀ n ∈ value, (set n).Worded) : s.Worded := by
  obtain ⟨n, known, rfl⟩ := Option.map_eq_some_iff.mp done
  exact worded n known

theorem Value.le_of_whole? {limit n : Nat} {value : Value} (whole : value.whole? limit = some n) : n ≤ limit := by
  unfold whole? at whole
  split at whole
  · obtain ⟨⟨_, most⟩, same⟩ := Option.ite_none_right_eq_some.mp whole
    have value := Option.some.inj same
    omega
  · cases whole

/-- Whatever a document says for a key, the histogram stays in words. A number
too large for its word is refused. -/
theorem Worded.setField (worded : s.Worded) {key : String} {value : Value} (set : s.setField key value = some s') :
    s'.Worded := by
  unfold Settings.setField at set
  split at set
  -- Most keys have nothing to do with the histogram.
  all_goals try exact .of_map set fun _ _ => ⟨worded.top, worded.cells⟩
  · split at set
    · cases set
      exact ⟨worded.top, worded.cells⟩
    · exact .of_map set fun _ _ => ⟨worded.top, worded.cells⟩
  · exact .of_map set fun _ known => ⟨Value.le_of_whole? known, worded.cells⟩
  · exact .of_map set fun _ known => ⟨worded.top, Value.le_of_whole? known⟩
  · cases set
    exact worded

theorem Worded.setFields (worded : s.Worded) {fields : List (String × Value)}
    (set : fields.foldlM (fun s (key, value) => s.setField key value) s = some s') : s'.Worded := by
  induction fields generalizing s with
  | nil =>
    cases set
    exact worded
  | cons field rest ih =>
    obtain ⟨between, first, later⟩ := Option.bind_eq_some_iff.mp set
    exact ih (worded.setField first) later

/-- No cell of a usable scale is thinner than a millisecond. -/
theorem Usable.thick_cells (usable : s.Usable) : Duration.ofMillis 1 ≤ s.scaleNamed.width := by
  have top : s.scaleNamed.top.val = s.histogramTopMs * 1000000 := Duration.val_ofMillis usable.top
  refine (Nat.le_div_iff_mul_le usable.cells).mpr ?_
  have thick := usable.thick
  show 1000000 * s.histogramCells ≤ s.scaleNamed.top.val
  omega

end Settings

namespace TimerRing

/-- A ring that can hold timers, grow and shrink. -/
structure Provided (ring : TimerRing) : Prop where
  growStep : 0 < ring.growStep
  shrinkFactor : 0 < ring.shrinkFactor
  slots : 0 < ring.capacity

theorem empty_provided (growStep shrinkFactor : Nat) : (empty growStep shrinkFactor).Provided :=
  ⟨Nat.le_max_right _ _, Nat.le_max_right _ _, Nat.le_max_right _ _⟩

theorem Provided.reserve {ring : TimerRing} (provided : ring.Provided) (n : Nat) : (ring.reserve n).Provided := by
  unfold TimerRing.reserve
  split
  · exact provided
  · exact ⟨provided.growStep, provided.shrinkFactor, Nat.add_pos_left provided.slots _⟩

theorem Provided.dropBelow {ring : TimerRing} (provided : ring.Provided) (stop : Nat) :
    (ring.dropBelow stop).Provided := by
  unfold TimerRing.dropBelow shrink
  dsimp only
  split
  · exact ⟨provided.growStep, provided.shrinkFactor, provided.slots⟩
  · exact ⟨provided.growStep, provided.shrinkFactor, Nat.mul_pos (Nat.le_max_right _ _) provided.growStep⟩

end TimerRing

namespace Window

variable {w : Window}

theorem keep_provided (provided : w.ring.Provided) (s : Submission) (now : Instant) : (w.keep s now).ring.Provided :=
  have roomy := provided.reserve s.timerCount
  ⟨roomy.growStep, roomy.shrinkFactor, roomy.slots⟩

theorem keepAll_provided (provided : w.ring.Provided) (now : Instant) (batch : List Submission) :
    (w.keepAll now batch).ring.Provided := by
  induction batch generalizing w with
  | nil => exact provided
  | cons s rest ih => exact ih (keep_provided provided s now)

theorem dropOldest_provided (provided : w.ring.Provided) (n : Nat) : (w.dropOldest n).ring.Provided := by
  unfold dropOldest
  split
  · exact provided
  · exact provided.dropBelow _

end Window

namespace Monitor

theorem step_provided {m : Monitor} (steady : m.Steady) (provided : m.window.ring.Provided) (event : Event) :
    (m.step event).window.ring.Provided := by
  rcases m.step_cases event with ⟨s, _, same⟩ | ⟨now, _, same⟩ | ⟨_, roster, same⟩
  · exact same ▸ provided
  · rw [same, (steady.merged now).window]
    exact Window.keepAll_provided (Window.dropOldest_provided (Window.dropOldest_provided provided _) _) now _
  · exact same ▸ provided

theorem run_provided {m : Monitor} (steady : m.Steady) (provided : m.window.ring.Provided) (history : List Event) :
    (m.run history).window.ring.Provided := by
  induction history generalizing m with
  | nil => exact provided
  | cons event rest ih => exact ih (steady.step event) (step_provided steady provided event)

theorem run_scale {m : Monitor} (sound : m.Sound) (history : List Event) : (m.run history).scale = m.scale := by
  induction history generalizing m with
  | nil => rfl
  | cons event rest ih =>
    obtain ⟨_, _, slides⟩ := step_slides sound event
    exact (ih slides.sound).trans slides.scale

/-- What a monitor works with: there is some of everything, no time is zero, and
all reports measure time on its scale. -/
structure Equipped (m : Monitor) : Prop where
  inbox : 0 < m.inbox.capacity
  window : 0 < m.window.capacity
  ring : m.window.ring.Provided
  names : 0 < m.window.lexicon.names.limit
  values : 0 < m.window.lexicon.values.limit
  lanes : 0 < m.settings.lanes
  retention : 0 < m.settings.retention
  mergeInterval : 0 < m.settings.mergeInterval
  idleTimeout : ∀ longest ∈ m.settings.idleTimeout, 0 < longest
  reports : ∀ report ∈ m.roster.live, report.breakdown.scale = m.scale

theorem create_scale {settings : Settings} {now : Instant} {m : Monitor} (created : create settings now = .ok m) :
    settings.scale = .ok m.scale := by
  unfold create at created
  split at created
  · cases created
  · cases scaled : settings.scale with
    | error fault =>
      rw [scaled] at created
      cases created
    | ok scale =>
      rw [scaled] at created
      cases created
      rfl

theorem run_equipped {settings : Settings} (usable : settings.Usable) {now : Instant} {m : Monitor}
    (created : create settings now = .ok m) (history : List Event) : (m.run history).Equipped := by
  have fit := (Settings.check_ok_iff_usable usable.top).mpr usable
  have first := create_obeys fit created
  have sound := (create_start created).1
  have window : m.window = .empty settings.windowCapacity settings.timerGrowStep settings.timerShrinkFactor
      settings.mostWords := by
    obtain ⟨scale, rfl⟩ := create_eq created
    rfl
  have ring : m.window.ring.Provided := window ▸ TimerRing.empty_provided _ _
  have obeys := first.run history
  have extended := first.steady.run_extends sound history
  have described := (create_described created).run first.steady sound history
  rw [window] at extended
  refine ⟨obeys.steady.room, ?_, run_provided first.steady ring history, ?_, ?_, ?_, ?_, ?_, fun longest set => ?_,
    fun report member => (described.live report member).scale⟩
  · rw [obeys.capacity]
    exact usable.window
  · rw [extended.names.limit]
    exact usable.mostWords
  · rw [extended.values.limit]
    exact usable.mostWords
  · rw [obeys.fixed]
    exact usable.lanes
  · rw [obeys.fixed]
    exact Duration.ofNanos_pos (Nat.mul_pos usable.retention (by decide))
  · rw [obeys.fixed]
    exact Duration.ofNanos_pos (Nat.mul_pos usable.mergeInterval (by decide))
  · obtain ⟨secs, given, rfl⟩ := Option.map_eq_some_iff.mp set
    have positive : 0 < secs := of_decide_eq_true (Option.filter_eq_some_iff.mp given).2
    exact Duration.ofNanos_pos (Nat.mul_pos positive (by decide))

/-- Settings that came about by changes, none of which was refused, can be used:
they pass the check, their scale is the one that was asked for last, and a
monitor can be made with them. And whichever settings pass the check, from a
document or not, the histogram being in machine words as in every document: each
cell of a monitor made with them can be worked out and is at least a millisecond
wide, and whatever happens to the monitor, all its reports keep to that scale
and nothing that it works with is ever zero. -/
theorem unrefused_changes_serve :
    (∀ (cs : List Settings.Change) (s : Settings), Settings.standard.changes cs = .ok s →
      s.check = .ok () ∧ s.scale = .ok (Settings.lastScale cs) ∧ (∀ now, ∃ m, create s now = .ok m) ∧
        ((Settings.lastScale cs).cells ≤ Vocabulary.widest → s.Worded)) ∧
    (∀ fields s, Settings.ofDocument fields = some s → s.Worded) ∧
    ∀ s : Settings, s.Worded → s.check = .ok () → ∀ now, ∃ m, create s now = .ok m ∧ s.scale = .ok m.scale ∧
      (∀ cell < m.scale.cells, ∃ start stop, m.scale.range? cell = some (start, stop) ∧
        start.val + (Duration.ofMillis 1).val ≤ stop.val) ∧
      ∀ history, (m.run history).scale = m.scale ∧ (m.run history).Equipped := by
  refine ⟨fun cs s changed => ?_, fun fields s read => ?_, fun s worded fit now => ?_⟩
  · have usable := Settings.standard_usable.changes changed
    have fit := (Settings.check_ok_iff_usable usable.top).mpr usable
    have named : s.scaleNamed = Settings.lastScale cs := by
      rw [Settings.changes_scaleNamed changed, Settings.standard_scaleNamed]
      rfl
    refine ⟨fit, ?_, create_of_check fit, fun few => ⟨usable.top, ?_⟩⟩
    · rw [← named]
      exact (Settings.scale_eq_ok_iff usable.top).mpr ⟨rfl, usable.cells, usable.thick⟩
    · rw [← named] at few
      exact few
  · have standard : Settings.standard.Worded := ⟨by decide, by decide⟩
    exact standard.setFields read
  · have usable := (Settings.check_ok_iff_usable worded.top).mp fit
    obtain ⟨m, created⟩ := create_of_check fit now
    have scaled := create_scale created
    have named : m.scale = s.scaleNamed := ((Settings.scale_eq_ok_iff worded.top).mp scaled).1
    refine ⟨m, created, scaled, fun cell within => ?_, fun history => ⟨?_, run_equipped usable created history⟩⟩
    · have numbered : m.scale.cells < Scale.cellNumbers := named ▸ Nat.lt_succ_of_le worded.cells
      have wide : Duration.ofMillis 1 ≤ m.scale.width := by
        rw [named]
        exact usable.thick_cells
      exact ⟨_, _, Scale.range?_eq numbered within,
        Nat.le_trans (Nat.add_le_add_left wide _) (Scale.edge_add_width_le within)⟩
    · exact run_scale (create_start created).1 history

/-- Times that are cut to whole seconds and milliseconds or raised to one, and
at last a histogram for longer times than can be kept in milliseconds. -/
def tuned : List Settings.Change := [
  .retention (.ofMillis 1500),
  .mergeInterval (.ofNanos 10),
  .histogram (.ofSecs 1) 100,
  .idleTimeout (some 0),
  .histogram (.ofSecs 18446744073709551615) 3]

theorem tuned_serves : ∃ s, Settings.standard.changes tuned = .ok s ∧ s.retentionSecs = 1 ∧ s.mergeIntervalMs = 1 ∧
    s.idleSecs = some 1 ∧ s.check = .ok () ∧
    s.scale = .ok ⟨.ofMillis Settings.longestMs, 3⟩ ∧ s.Worded ∧
    ∃ m, create s .epoch = .ok m ∧ ∀ history, (m.run history).Equipped := by
  obtain ⟨s, made, retention, mergeInterval, idle⟩ : ∃ s, Settings.standard.changes tuned = .ok s ∧
      s.retentionSecs = 1 ∧ s.mergeIntervalMs = 1 ∧ s.idleSecs = some 1 := ⟨_, rfl, by decide, by decide, by decide⟩
  obtain ⟨unrefused, _, served⟩ := unrefused_changes_serve
  obtain ⟨fit, scaled, _, worded⟩ := unrefused tuned s made
  have last : Settings.lastScale tuned = ⟨.ofMillis Settings.longestMs, 3⟩ := by decide
  rw [last] at scaled worded
  have words := worded (by decide)
  obtain ⟨m, created, _, _, equipped⟩ := served s words fit .epoch
  exact ⟨s, made, retention, mergeInterval, idle, fit, scaled, words, m, created, fun history => (equipped history).2⟩

end Monitor

end Rollup
