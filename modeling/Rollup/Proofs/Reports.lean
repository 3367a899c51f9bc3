import Rollup.Proofs.Load

namespace Rollup

namespace Breakdown

/-- A new breakdown of the same kind that takes in requests, one after the
other. -/
def rebuilt (b : Breakdown) (views : List View) : Breakdown := (empty b.grouping b.filter b.scale).addAll views

theorem rebuilt_alike (b : Breakdown) (views : List View) : b.Alike (b.rebuilt views) :=
  have alike := Alike.addAll (.empty b.grouping b.filter b.scale) views
  ⟨alike.grouping, alike.filter, alike.scale⟩

/-- A mirror follows its window for as long as the window fits into it. -/
theorem Mirrors.slide {b : Breakdown} {w w' : Window} {left arrived : List View}
    (mirrors : b.Mirrors w.views w.nextId) (sound : w.Sound) (slides : w.Slides w' left arrived)
    (fits : Quantity.Fits (Part.total b.scale (b.partsOf w'.views))) :
    ((b.removeAll left).addAll arrived).Mirrors w'.views w'.nextId := by
  obtain ⟨rest, kept, before, twins, after, split, increase, below⟩ := slides.numbered sound
  rw [before] at mirrors
  rw [after] at fits ⊢
  have alike := Alike.removeAll b left
  refine ((mirrors.removeAll split).twins twins).addAll increase slides.newer slides.nextId below ?_
  rw [alike.partsOf_eq, alike.scale]
  exact fits

theorem mirrors_views {w : Window} (sound : w.Sound) (g : Grouping) (f : Filter) (scale : Scale)
    (fits : Quantity.Fits (Part.total scale ((empty g f scale).partsOf w.views))) :
    ((empty g f scale).addAll w.views).Mirrors w.views w.nextId := by
  have start := empty_mirrors g f scale 0
  exact start.addAll sound.numbered.increase (fun _ _ => Nat.zero_le _) (Nat.zero_le _) sound.numbered.below fits

end Breakdown

namespace Monitor

/-- What the requests of the window add to a report, taken exactly, stays where
no sum stops. -/
def Holdable (m : Monitor) (report : Report) : Prop :=
  Quantity.Fits (Part.total report.breakdown.scale (report.breakdown.partsOf m.window.views))

/-- They did so whenever, in a history, the report of that serial number was
live. -/
def HoldableThroughout (m : Monitor) (history : List Event) (serial : Nat) : Prop :=
  ∀ before after, history = before ++ after → ∀ report ∈ (m.run before).roster.live, report.serial = serial →
    (m.run before).Holdable report

theorem run_append (m : Monitor) (left right : List Event) : m.run (left ++ right) = (m.run left).run right :=
  List.foldl_append

theorem run_snoc (m : Monitor) (history : List Event) (event : Event) :
    m.run (history ++ [event]) = (m.run history).step event := run_append m history [event]

theorem run_sound {m : Monitor} (sound : m.Sound) (history : List Event) : (m.run history).Sound := by
  induction history generalizing m with
  | nil => exact sound
  | cons event rest ih =>
    obtain ⟨_, _, slides⟩ := step_slides sound event
    exact ih slides.sound

theorem run_nextSerial_le {m : Monitor} (sound : m.Sound) (history : List Event) :
    m.roster.nextSerial ≤ (m.run history).roster.nextSerial := by
  induction history generalizing m with
  | nil => exact Nat.le_refl _
  | cons event rest ih =>
    obtain ⟨_, _, slides⟩ := step_slides sound event
    exact Nat.le_trans slides.nextSerial (ih slides.sound)

/-- What holds of every report at the start, of reports that follow a step and
of reports that are new, holds of every report of a run. -/
theorem run_induction {P : List Event → Report → Prop} {m : Monitor} (sound : m.Sound)
    (start : ∀ report ∈ m.roster.live, P [] report)
    (follow : ∀ history event given left arrived report, ∀ old ∈ (m.run history).roster.live,
      (m.run history).Slides (m.run (history ++ [event])) given left arrived →
      report ∈ (m.run (history ++ [event])).roster.live → report.serial = old.serial →
      report.breakdown = (old.breakdown.removeAll left).addAll arrived → P history old →
      P (history ++ [event]) report)
    (fresh : ∀ history event report, report ∈ (m.run (history ++ [event])).roster.live →
      (m.run history).roster.nextSerial ≤ report.serial →
      (∃ g f, report.breakdown =
        (Breakdown.empty g f (m.run history).scale).addAll (m.run (history ++ [event])).window.views) →
      P (history ++ [event]) report)
    (history : List Event) : ∀ report ∈ (m.run history).roster.live, P history report := by
  -- By induction on what is still to come, so that what came before is a history of its own.
  have extend (rest : List Event) : ∀ before, (∀ report ∈ (m.run before).roster.live, P before report) →
      ∀ report ∈ (m.run (before ++ rest)).roster.live, P (before ++ rest) report := by
    induction rest with
    | nil =>
      intro before held
      rw [List.append_nil]
      exact held
    | cons event rest ih =>
      intro before held
      have together : before ++ event :: rest = before ++ [event] ++ rest := by simp
      rw [together]
      refine ih (before ++ [event]) fun report member => ?_
      obtain ⟨left, arrived, slides⟩ := step_slides (run_sound sound before) event
      rw [← run_snoc] at slides
      rcases slides.reports report member with ⟨old, known, serial, numbers⟩ | ⟨later, numbers⟩
      · exact follow before event _ left arrived report old known slides member serial numbers (held old known)
      · exact fresh before event report member later numbers
  exact extend history [] start

theorem HoldableThroughout.left {m : Monitor} {before after : List Event} {serial : Nat}
    (holdable : m.HoldableThroughout (before ++ after) serial) : m.HoldableThroughout before serial := by
  intro first later split
  exact holdable first (later ++ after) (by rw [split, List.append_assoc])

theorem HoldableThroughout.last {m : Monitor} {history : List Event} {report : Report}
    (holdable : m.HoldableThroughout history report.serial) (member : report ∈ (m.run history).roster.live) :
    (m.run history).Holdable report := holdable history [] (List.append_nil _).symm report member rfl

/-- A report whose exact totals always fitted mirrors the window. -/
theorem run_mirrors {m : Monitor} (sound : m.Sound)
    (start : ∀ report ∈ m.roster.live, report.breakdown.Mirrors m.window.views m.window.nextId)
    (history : List Event) : ∀ report ∈ (m.run history).roster.live, m.HoldableThroughout history report.serial →
      report.breakdown.Mirrors (m.run history).window.views (m.run history).window.nextId := by
  refine run_induction (P := fun history report => m.HoldableThroughout history report.serial →
    report.breakdown.Mirrors (m.run history).window.views (m.run history).window.nextId)
    sound (fun report member _ => start report member) ?_ ?_ history
  · intro history event given left arrived report old known slides member serial numbers mirrors holdable
    have fits := holdable.last member
    have same : old.breakdown.Alike report.breakdown := by
      rw [numbers]
      exact (Breakdown.Alike.removeAll _ left).trans (.addAll _ arrived)
    unfold Holdable at fits
    rw [same.partsOf_eq, same.scale] at fits
    rw [numbers]
    exact (mirrors (serial ▸ holdable.left)).slide (run_sound sound history).window slides.window fits
  · rintro history event report member _ ⟨g, f, numbers⟩ holdable
    have fits := holdable.last member
    have same := Breakdown.Alike.addAll (.empty g f (m.run history).scale) (m.run (history ++ [event])).window.views
    unfold Holdable at fits
    rw [numbers, same.partsOf_eq, same.scale] at fits
    rw [numbers]
    exact Breakdown.mirrors_views (run_sound sound _).window g f _ fits

/-- The window and, behind it, the inbox hold some of the submissions given so
far, in order. -/
def DrawsOn (m : Monitor) (given : List Submission) : Prop :=
  ∃ kept : List Submission, kept.map Submission.load = m.window.views.map View.load ∧
    (kept ++ m.inbox.waiting).Sublist given

theorem submitted_append (left right : List Event) : submitted (left ++ right) = submitted left ++ submitted right :=
  List.filterMap_append

theorem Slides.drawsOn {m m' : Monitor} {before given : List Submission} {left arrived : List View}
    (slides : m.Slides m' given left arrived) (draws : m.DrawsOn before) : m'.DrawsOn (before ++ given) := by
  obtain ⟨kept, loads, sub⟩ := draws
  obtain ⟨came, fresh, later⟩ := slides.loads
  obtain ⟨rest, stayed, start, twins, now⟩ := slides.window.moved
  have unchanged : stayed.map View.load = rest.map View.load := twins.map_eq fun v w twin =>
    Prod.ext twin.whole_eq twin.pieces_eq
  -- What left was at the front, so the rest of what was kept is what stayed.
  have stay : (kept.drop left.length).map Submission.load = rest.map View.load := by
    have gone : left.length = (left.map View.load).length := (List.length_map _).symm
    rw [List.map_drop, loads, start, List.map_append, gone, List.drop_left]
  refine ⟨kept.drop left.length ++ came, ?_, ?_⟩
  · rw [now, List.map_append, List.map_append, stay, fresh, unchanged]
  · have all : (kept.drop left.length ++ (came ++ m'.inbox.waiting)).Sublist (kept ++ (m.inbox.waiting ++ given)) :=
      (List.drop_sublist _ kept).append later
    rw [← List.append_assoc, ← List.append_assoc] at all
    exact all.trans (sub.append_right given)

theorem run_drawsOn {m : Monitor} (sound : m.Sound) {before : List Submission} (draws : m.DrawsOn before)
    (history : List Event) : (m.run history).DrawsOn (before ++ submitted history) := by
  induction history generalizing m before with
  | nil =>
    rw [submitted, List.filterMap_nil, List.append_nil]
    exact draws
  | cons event rest ih =>
    obtain ⟨left, arrived, slides⟩ := step_slides sound event
    have later := ih slides.sound (slides.drawsOn draws)
    rw [List.append_assoc, ← submitted_append] at later
    exact later

/-- When all that was submitted stays where no sum stops, so does each report. -/
theorem DrawsOn.holdable {m : Monitor} {given : List Submission} (draws : m.DrawsOn given)
    (moderate : Submission.Moderate given) (report : Report) : m.Holdable report := by
  obtain ⟨kept, loads, sub⟩ := draws
  have fewer := moderate.sublist ((List.sublist_append_left kept _).trans sub)
  have fits := report.breakdown.grouping.exact_fits report.breakdown.filter report.breakdown.scale loads fewer
  exact fits.mono fun q => Grouping.parts_exact_le _ _ _ _ q

theorem holdableThroughout {m : Monitor} (sound : m.Sound) (draws : m.DrawsOn []) {history : List Event}
    (moderate : Submission.Moderate (submitted history)) (serial : Nat) : m.HoldableThroughout history serial := by
  intro before after split report _ _
  have fewer : (submitted before).Sublist (submitted history) := by
    rw [split, submitted_append]
    exact List.sublist_append_left _ _
  exact (run_drawsOn sound draws before).holdable (moderate.sublist fewer) report

theorem create_of_check {settings : Settings} (fit : settings.check = .ok ()) (now : Instant) :
    ∃ m, create settings now = .ok m := by
  have scaled : ∃ scale, settings.scale = .ok scale := by
    unfold Settings.check at fit
    split at fit
    · cases fit
    · split at fit
      · cases fit
      · exact ⟨_, ‹_›⟩
  obtain ⟨scale, scaled⟩ := scaled
  rw [create, fit, scaled]
  exact ⟨_, rfl⟩

/-- What can be computed of a new monitor is so of the one that was made. -/
theorem passes_of_create {settings : Settings} {now : Instant} {m : Monitor} (created : create settings now = .ok m)
    (test : Monitor → Bool) (passes : (create settings now).toOption.any test = true) : test m = true := by
  rw [created] at passes
  exact passes

theorem create_eq {settings : Settings} {now : Instant} {m : Monitor} (created : create settings now = .ok m) :
    ∃ scale, m = {
      settings, scale
      inbox := .empty settings.inboxCapacity
      window := .empty settings.windowCapacity settings.timerGrowStep settings.timerShrinkFactor settings.mostWords
      roster := .create scale now
      counters := {}
      recorder := .empty } := by
  unfold create at created
  split at created
  · cases created
  · cases scaled : settings.scale with
    | error fault =>
      rw [scaled] at created
      cases created
    | ok scale =>
      rw [scaled] at created
      exact ⟨scale, (Except.ok.inj created).symm⟩

/-- A new monitor keeps no request, and its reports are empty. -/
theorem create_start {settings : Settings} {now : Instant} {m : Monitor} (created : create settings now = .ok m) :
    m.Sound ∧ m.DrawsOn [] ∧
      ∀ report ∈ m.roster.live, report.breakdown.Mirrors m.window.views m.window.nextId := by
  obtain ⟨scale, rfl⟩ := create_eq created
  refine ⟨⟨Window.empty_sound _ _ _ _, Roster.create_sound scale now⟩, ⟨[], rfl, .slnil⟩, fun report member => ?_⟩
  obtain ⟨g, empty⟩ := Roster.mem_live_create member
  rw [empty]
  exact Breakdown.empty_mirrors g .any scale _

/-- Every live report, whenever it was made, says what a new report of the
same kind says that takes in the requests of the window, oldest first: the
same totals, the same buckets, and in each bucket the same sums, values and
last request. -/
theorem run_live_eq_rebuild {settings : Settings} (fit : settings.check = .ok ()) (now : Instant) :
    ∃ m, create settings now = .ok m ∧ ∀ history, Submission.Moderate (submitted history) →
      ∀ report ∈ (m.run history).roster.live,
        let fresh := report.breakdown.rebuilt (m.run history).window.views
        report.breakdown.totals = fresh.totals ∧
          report.breakdown.entries.map (fun e => (e.1, e.2.shown)) = fresh.entries.map fun e => (e.1, e.2.shown) := by
  obtain ⟨m, created⟩ := create_of_check fit now
  obtain ⟨sound, draws, start⟩ := create_start created
  refine ⟨m, created, fun history moderate report member => ?_⟩
  have holdable := holdableThroughout sound draws moderate report.serial
  have mirrors := run_mirrors sound start history report member holdable
  have fits := holdable.last member
  have rebuilt := Breakdown.mirrors_views (run_sound sound history).window report.breakdown.grouping
    report.breakdown.filter report.breakdown.scale fits
  exact mirrors.agree rebuilt (report.breakdown.rebuilt_alike _)

/-- Two requests come, and the first of them is too old in the end. -/
def turnover : List Event := [
  .submit { script := "first", time := Duration.ofMillis 5 },
  .merge ⟨1000000000⟩,
  .submit { script := "second", time := Duration.ofMillis 7 },
  .merge ⟨2000000000⟩,
  .merge ⟨901500000000⟩]

theorem turnover_live_eq_rebuild : ∃ m, create .standard .epoch = .ok m ∧ ∃ report ∈ (m.run turnover).roster.live,
    report.query.id = "by_script" ∧ report.breakdown.entries.length = 1 ∧
      report.breakdown.totals = (report.breakdown.rebuilt (m.run turnover).window.views).totals := by
  obtain ⟨m, created, rebuilds⟩ := run_live_eq_rebuild (show Settings.standard.check = .ok () from rfl) .epoch
  have moderate : Submission.Moderate (submitted turnover) := by
    intro f cap stops
    cases f <;> cases stops <;> decide
  have oneLeft := passes_of_create created (fun m => (m.run turnover).roster.live.any fun report =>
    report.query.id = "by_script" ∧ report.breakdown.entries.length = 1) (by decide +kernel)
  obtain ⟨report, member, there⟩ := List.any_eq_true.mp oneLeft
  obtain ⟨id, single⟩ := of_decide_eq_true there
  exact ⟨m, created, report, member, id, single, (rebuilds turnover moderate report member).1⟩

end Monitor

end Rollup
