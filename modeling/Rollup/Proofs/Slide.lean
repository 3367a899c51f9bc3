import Rollup.Monitor.Run
import Rollup.Proofs.Except
import Rollup.Proofs.Lanes
import Rollup.Proofs.Roster
import Rollup.Proofs.Window

namespace Rollup

def Submission.load (s : Submission) : Contribution × List Contribution := (s.whole, s.pieces)

def View.load (v : View) : Contribution × List Contribution := (v.whole, v.pieces)

namespace Inbox

/-- What is taken out stood in front of what still waits. -/
theorem popMany_waiting (inbox : Inbox) (most : Nat) :
    (inbox.popMany most).1 ++ (inbox.popMany most).2.waiting = inbox.waiting := by
  induction most generalizing inbox with
  | zero => rfl
  | succ most ih =>
    obtain ⟨capacity, waiting⟩ := inbox
    cases waiting with
    | nil => rfl
    | cons s rest => exact congrArg (s :: ·) (ih ⟨capacity, rest⟩)

end Inbox

namespace Monitor

structure Sound (m : Monitor) : Prop where
  window : m.window.Sound
  roster : m.roster.Sound

/-- One change to the numbers of every live report. -/
structure Revised (m m' : Monitor) (f : Breakdown → Breakdown) : Prop where
  live : m'.roster.live = m.roster.live.map (·.revise f)
  nextSerial : m'.roster.nextSerial = m.roster.nextSerial
  inbox : m'.inbox = m.inbox
  scale : m'.scale = m.scale

theorem Revised.same {m m' : Monitor} {f : Breakdown → Breakdown} (nothing : ∀ b, f b = b)
    (roster : m'.roster = m.roster) (inbox : m'.inbox = m.inbox) (scale : m'.scale = m.scale) : m.Revised m' f where
  live := by
    have each (r : Report) : r.revise f = r := by rw [Report.revise, nothing]
    rw [roster]
    exact ((List.map_congr_left fun r _ => each r).trans (List.map_id _)).symm
  nextSerial := by rw [roster]
  inbox := inbox
  scale := scale

theorem Revised.trans {a b c : Monitor} {f g : Breakdown → Breakdown} (first : a.Revised b f) (later : b.Revised c g) :
    a.Revised c fun x => g (f x) where
  live := by
    rw [later.live, first.live, List.map_map]
    rfl
  nextSerial := later.nextSerial.trans first.nextSerial
  inbox := later.inbox.trans first.inbox
  scale := later.scale.trans first.scale

theorem Revised.sound {m m' : Monitor} {f : Breakdown → Breakdown} (revised : m.Revised m' f) (sound : m.roster.Sound) :
    m'.roster.Sound := sound.of_map revised.live (fun _ => rfl) revised.nextSerial

theorem updateReports_roster (m : Monitor) (f : Breakdown → Breakdown) :
    (m.updateReports f).roster = (m.roster.live.map (·.serial)).foldl (Roster.update f) m.roster := by
  unfold updateReports
  dsimp only
  rw [← List.foldl_flatten, Lanes.flatten_split]

/-- However the reports are spread over lanes, each is changed once. -/
theorem updateReports_revised {m : Monitor} (sound : m.roster.Sound) (f : Breakdown → Breakdown) :
    m.Revised (m.updateReports f) f := by
  have roster := m.updateReports_roster f
  refine ⟨?_, ?_, rfl, rfl⟩
  · rw [roster]
    exact sound.live_updates_all f
  · rw [roster]
    exact Roster.update_nextSerial f _ _

theorem evict_eq (m : Monitor) (n : Nat) :
    ∃ roster, m.evict n = { m with window := m.window.dropOldest n, roster } := by
  unfold evict
  split
  · rename_i none
    rw [none]
    exact ⟨m.roster, rfl⟩
  · exact ⟨_, rfl⟩

theorem evict_window (m : Monitor) (n : Nat) : (m.evict n).window = m.window.dropOldest n := by
  obtain ⟨roster, evicted⟩ := m.evict_eq n
  rw [evicted]

theorem evict_revised {m : Monitor} (sound : m.roster.Sound) (n : Nat) :
    m.Revised (m.evict n) (·.removeAll (m.window.oldest n)) := by
  unfold evict
  split
  · rename_i none
    rw [none]
    exact .same (fun _ => rfl) rfl rfl rfl
  · have revised := updateReports_revised sound (·.removeAll (m.window.oldest n))
    exact ⟨revised.live, revised.nextSerial, revised.inbox, revised.scale⟩

/-- Appending takes some of the submissions in, in order, and refuses the
others. -/
theorem appendAll_grows {w : Window} (sound : w.Sound) (now : Instant) (batch : List Submission) :
    ∃ (new : List Record) (came : List Submission), w.Grows (appendAll w now batch).1 new ∧ came.Sublist batch ∧
      came.map Submission.load = (new.map (appendAll w now batch).1.viewOf).map View.load ∧
      new.length + (appendAll w now batch).2 = batch.length := by
  induction batch generalizing w with
  | nil => exact ⟨[], [], sound.refl_grows, .slnil, rfl, rfl⟩
  | cons s rest ih =>
    unfold appendAll
    cases appended : w.append s now with
    | error refusal =>
      obtain ⟨new, came, grows, sub, loads, count⟩ := ih sound
      exact ⟨new, came, grows, sub.cons s, loads, by simp only [List.length_cons]; omega⟩
    | ok both =>
      cases Window.append_eq_ok appended
      have first := sound.keep_grows s now
      obtain ⟨new, came, grows, sub, loads, count⟩ := ih first.sound
      refine ⟨w.recordOf s now :: new, s :: came, first.trans grows, sub.cons_cons s, ?_, ?_⟩
      · have twin := grows.twins (w.recordOf s now) (by rw [Window.keep_requests]; simp)
        have front : ((appendAll (w.keep s now) now rest).1.viewOf (w.recordOf s now)).load = s.load :=
          Prod.ext (twin.whole_eq.trans (w.keep_whole s now)) (twin.pieces_eq.trans (w.keep_pieces s now))
        rw [List.map_cons, List.map_cons, List.map_cons, front, loads]
      · simp only [List.length_cons]
        omega

/-- The state after submissions came in: old requests make room, and what
came is appended and goes to every report. -/
theorem absorb_fst (m : Monitor) (now : Instant) (batch : List Submission) : ∃ kept k, kept.Sublist batch ∧
    (m.absorb now batch).1 =
      if kept.length - (appendAll (m.evict k).window now kept).2 = 0 then
        { m.evict k with window := (appendAll (m.evict k).window now kept).1 }
      else
        { m.evict k with window := (appendAll (m.evict k).window now kept).1 }.updateReports
          (·.addAll ((appendAll (m.evict k).window now kept).1.fromPosition (m.evict k).window.size)) :=
  ⟨_, _, List.drop_sublist _ _, rfl⟩

theorem absorb_slides {m : Monitor} (sound : m.Sound) (now : Instant) (batch : List Submission) :
    ∃ (k : Nat) (new : List Record) (came : List Submission),
      (m.window.dropOldest k).Grows (m.absorb now batch).1.window new ∧ came.Sublist batch ∧
      came.map Submission.load = (new.map (m.absorb now batch).1.window.viewOf).map View.load ∧
      m.Revised (m.absorb now batch).1 fun b =>
        (b.removeAll (m.window.oldest k)).addAll (new.map (m.absorb now batch).1.window.viewOf) := by
  obtain ⟨kept, k, sub, absorbed⟩ := m.absorb_fst now batch
  have dropped := m.evict_window k
  have windowSound : (m.evict k).window.Sound := dropped ▸ sound.window.dropOldest_sound k
  obtain ⟨new, came, grows, fewer, loads, count⟩ := appendAll_grows windowSound now kept
  have window : (m.absorb now batch).1.window = (appendAll (m.evict k).window now kept).1 := by
    rw [absorbed]
    split <;> rfl
  have arrived : (appendAll (m.evict k).window now kept).1.fromPosition (m.evict k).window.size =
      new.map (appendAll (m.evict k).window now kept).1.viewOf := by
    rw [Window.fromPosition, grows.requests, Window.size, List.drop_left]
  have evicted := evict_revised sound.roster k
  have later : (m.evict k).Revised (m.absorb now batch).1
      (·.addAll (new.map (m.absorb now batch).1.window.viewOf)) := by
    rw [window, absorbed]
    split
    · -- The reports are left alone, which is what adding no request does.
      rename_i nothing
      have none : new = [] := List.length_eq_zero_iff.mp (by omega)
      rw [none]
      exact .same (fun _ => rfl) rfl rfl rfl
    · rw [arrived]
      have updated := updateReports_revised
        (m := { m.evict k with window := (appendAll (m.evict k).window now kept).1 })
        (evicted.sound sound.roster) (·.addAll (new.map (appendAll (m.evict k).window now kept).1.viewOf))
      exact ⟨updated.live, updated.nextSerial, updated.inbox, updated.scale⟩
  exact ⟨k, new, came, dropped ▸ window ▸ grows, fewer.trans sub, window ▸ loads, evicted.trans later⟩

/-- What one event does. The window moves on, every report follows it, and
reports that were not there before start from the whole window. What arrives
waited in the inbox or was just given. -/
structure Slides (m m' : Monitor) (given : List Submission) (left arrived : List View) : Prop where
  window : m.window.Slides m'.window left arrived
  roster : m'.roster.Sound
  nextSerial : m.roster.nextSerial ≤ m'.roster.nextSerial
  scale : m'.scale = m.scale
  loads : ∃ came : List Submission, came.map Submission.load = arrived.map View.load ∧
    (came ++ m'.inbox.waiting).Sublist (m.inbox.waiting ++ given)
  reports : ∀ report ∈ m'.roster.live,
    (∃ old ∈ m.roster.live, report.serial = old.serial ∧
      report.breakdown = (old.breakdown.removeAll left).addAll arrived) ∨
    (m.roster.nextSerial ≤ report.serial ∧
      ∃ g f, report.breakdown = (Breakdown.empty g f m.scale).addAll m'.window.views)

theorem Slides.sound {m m' : Monitor} {given : List Submission} {left arrived : List View}
    (slides : m.Slides m' given left arrived) : m'.Sound := ⟨slides.window.sound, slides.roster⟩

/-- Nothing happens but to the inbox and to the roster, where reports stay or
go. -/
theorem Sound.stays {m m' : Monitor} {given : List Submission} (sound : m.Sound) (window : m'.window = m.window)
    (roster : m'.roster.Sound) (nextSerial : m'.roster.nextSerial = m.roster.nextSerial) (scale : m'.scale = m.scale)
    (inbox : m'.inbox.waiting.Sublist (m.inbox.waiting ++ given))
    (reports : ∀ report ∈ m'.roster.live, ∃ old ∈ m.roster.live, report.serial = old.serial ∧
      report.breakdown = old.breakdown) : m.Slides m' given [] [] where
  window := window ▸ sound.window.stays
  roster := roster
  nextSerial := Nat.le_of_eq nextSerial.symm
  scale := scale
  loads := ⟨[], rfl, inbox⟩
  reports report member := Or.inl (reports report member)

theorem submit_slides {m : Monitor} (sound : m.Sound) (s : Submission) : m.Slides (m.submit s) [s] [] [] := by
  refine sound.stays rfl sound.roster rfl rfl ?_ fun report member => ⟨report, member, rfl, rfl⟩
  have pushed : (m.submit s).inbox.waiting = (if m.inbox.isFull then m.inbox.waiting.tail else m.inbox.waiting) ++ [s] :=
    rfl
  rw [pushed]
  split
  · exact (List.tail_sublist _).append (.refl [s])
  · exact .refl _

theorem touch_slides {m : Monitor} (sound : m.Sound) (report : Report) (now : Instant) :
    m.Slides (m.touch report now).1 [] [] [] := by
  have live : (m.touch report now).1.roster.live =
      m.roster.live.map fun other => if other.serial = report.serial then other.touch now else other :=
    Roster.live_modify _ _ _
  have roster : (m.touch report now).1.roster.Sound := sound.roster.modify (f := (·.touch now)) (fun _ => rfl) _
  refine sound.stays rfl roster rfl rfl (List.sublist_append_left _ _) ?_
  intro touched member
  rw [live] at member
  obtain ⟨old, known, rfl⟩ := List.mem_map.mp member
  refine ⟨old, known, ?_⟩
  split
  · exact ⟨rfl, rfl⟩
  · exact ⟨rfl, rfl⟩

/-- A new report starts from the window. -/
def withReport (m : Monitor) (now : Instant) (q : Query) (g : Grouping) : Monitor × Nat :=
  let report := .fresh m.roster.nextSerial q ((Breakdown.empty g q.filter m.scale).addAll m.window.views) now
  ({ m with roster := m.roster.insert report }, m.roster.nextSerial)

/-- A report that is asked for is there already, or it is made. -/
theorem ask_eq_ok_iff {m : Monitor} {now : Instant} {q : Query} {answer : Monitor × Nat} : m.ask now q = .ok answer ↔
    (∃ report, m.roster.find? q.id = some report ∧ m.touch report now = answer) ∨
      m.roster.find? q.id = none ∧ q.filter.check = .ok () ∧
        ∃ g, q.grouping m.window.lexicon.names = .ok g ∧ m.withReport now q g = answer := by
  unfold ask
  cases m.roster.find? q.id with
  | some report => simp
  | none =>
    dsimp only
    rw [bind_eq_ok_iff]
    cases checked : q.filter.check with
    | error cause => simp [Breakdown.create, checked]
    | ok _ => simp [Breakdown.create, checked, withReport, Report.fresh, pure, Except.pure]

theorem ask_cases {m m' : Monitor} {now : Instant} {q : Query} {serial : Nat} (asked : m.ask now q = .ok (m', serial)) :
    (∃ report, m' = (m.touch report now).1) ∨ m.roster.find? q.id = none ∧
      ∃ g, q.grouping m.window.lexicon.names = .ok g ∧ m' = (m.withReport now q g).1 := by
  rcases ask_eq_ok_iff.mp asked with ⟨report, _, same⟩ | ⟨absent, _, g, grouped, same⟩
  · exact Or.inl ⟨report, (congrArg Prod.fst same).symm⟩
  · exact Or.inr ⟨absent, g, grouped, (congrArg Prod.fst same).symm⟩

theorem lookup_cases {m m' : Monitor} {now : Instant} {id : String} {serial : Nat}
    (found : m.lookup now id = .ok (m', serial)) :
    (∃ report, m' = (m.touch report now).1) ∨ ∃ q, Query.parse id = .ok q ∧ m.ask now q = .ok (m', serial) := by
  unfold lookup at found
  split at found
  · cases found
    exact Or.inl ⟨_, rfl⟩
  · split at found
    · cases found
    · exact Or.inr ⟨_, ‹_›, found⟩

theorem ask_slides {m m' : Monitor} {now : Instant} {q : Query} {serial : Nat} (sound : m.Sound)
    (asked : m.ask now q = .ok (m', serial)) : m.Slides m' [] [] [] := by
  rcases ask_cases asked with ⟨report, rfl⟩ | ⟨_, g, _, rfl⟩
  · exact touch_slides sound report now
  · refine ⟨sound.window.stays, sound.roster.insert rfl, Nat.le_succ _, rfl,
      ⟨[], rfl, List.sublist_append_left _ _⟩, fun report member => ?_⟩
    rcases Roster.mem_live_insert member with rfl | old
    · exact Or.inr ⟨Nat.le_refl _, g, q.filter, rfl⟩
    · exact Or.inl ⟨report, old, rfl, rfl⟩

theorem lookup_slides {m m' : Monitor} {now : Instant} {id : String} {serial : Nat} (sound : m.Sound)
    (found : m.lookup now id = .ok (m', serial)) : m.Slides m' [] [] [] := by
  rcases lookup_cases found with ⟨report, rfl⟩ | ⟨q, _, asked⟩
  · exact touch_slides sound report now
  · exact ask_slides sound asked

theorem tearDownIdle_roster (m : Monitor) (now : Instant) :
    (m.tearDownIdle now).1 = m ∨ ∃ cutoff, (m.tearDownIdle now).1 = { m with roster := m.roster.retire cutoff } := by
  unfold tearDownIdle
  split
  · exact Or.inl rfl
  · exact Or.inr ⟨_, rfl⟩

/-- Tearing down leaves fewer reports, and all else as it is. -/
theorem Slides.tearDownIdle {m m' : Monitor} {given : List Submission} {left arrived : List View}
    (slides : m.Slides m' given left arrived) (now : Instant) :
    m.Slides (m'.tearDownIdle now).1 given left arrived := by
  rcases m'.tearDownIdle_roster now with same | ⟨cutoff, fewer⟩
  · rw [same]
    exact slides
  · rw [fewer]
    exact ⟨slides.window, slides.roster.retire cutoff, slides.nextSerial, slides.scale, slides.loads,
      fun report member => slides.reports report ((Roster.live_retire m'.roster cutoff).subset member)⟩

theorem Slides.record {m m' : Monitor} {given : List Submission} {left arrived : List View}
    (slides : m.Slides m' given left arrived) (merge : Merge) : m.Slides (m'.record merge) given left arrived :=
  ⟨slides.window, slides.roster, slides.nextSerial, slides.scale, slides.loads, slides.reports⟩

theorem finishMerge_fst (m : Monitor) (now : Instant) (expired : Nat) (taken : List Submission) : ∃ merge,
    (m.finishMerge now expired taken).1 =
      ((m.absorb now (taken.partition Submission.isSound).1).1.tearDownIdle now).1.record merge :=
  ⟨_, rfl⟩

theorem merge_fst (m : Monitor) (now : Instant) : ∃ n most, (m.merge now).1 =
    (finishMerge { m.evict n with inbox := ((m.evict n).inbox.popMany most).2 } now n
      ((m.evict n).inbox.popMany most).1).1 :=
  ⟨m.expiring now, (m.evict (m.expiring now)).inbox.capacity, rfl⟩

/-- A merge lets old requests go, then others that make room, and then what
waited comes in. -/
theorem merge_slides {m : Monitor} (sound : m.Sound) (now : Instant) :
    ∃ left arrived, m.Slides (m.merge now).1 [] left arrived := by
  obtain ⟨n, most, merged⟩ := m.merge_fst now
  have dropped := m.evict_window n
  have evicted := evict_revised sound.roster n
  have waiting := (m.evict n).inbox.popMany_waiting most
  generalize taken : (m.evict n).inbox.popMany most = both at merged waiting
  have between : Sound { m.evict n with inbox := both.2 } :=
    ⟨dropped ▸ sound.window.dropOldest_sound n, evicted.sound sound.roster⟩
  obtain ⟨merge, finished⟩ := finishMerge_fst { m.evict n with inbox := both.2 } now n both.1
  obtain ⟨k, new, came, grows, sub, loads, revised⟩ :=
    absorb_slides between now (both.1.partition Submission.isSound).1
  generalize (absorb { m.evict n with inbox := both.2 } now (both.1.partition Submission.isSound).1).1 = m'
    at finished grows loads revised
  dsimp only at grows revised
  rw [dropped] at grows revised
  have slides : m.Slides m' [] (m.window.oldest n ++ (m.window.dropOldest n).oldest k) (new.map m'.window.viewOf) := by
    have live : m'.roster.live = m.roster.live.map (·.revise fun b =>
        (b.removeAll (m.window.oldest n ++ (m.window.dropOldest n).oldest k)).addAll (new.map m'.window.viewOf)) := by
      have first : ({ m.evict n with inbox := both.2 } : Monitor).roster.live = _ := evicted.live
      rw [revised.live, first, List.map_map]
      refine List.map_congr_left fun report _ => ?_
      have both (b : Breakdown) : b.removeAll (m.window.oldest n ++ (m.window.dropOldest n).oldest k) =
          (b.removeAll (m.window.oldest n)).removeAll ((m.window.dropOldest n).oldest k) := List.foldl_append
      simp only [both]
      rfl
    refine ⟨sound.window.slides grows, revised.sound between.roster, ?_, ?_, ⟨came, loads, ?_⟩, fun report member => ?_⟩
    · exact Nat.le_of_eq (revised.nextSerial.trans evicted.nextSerial).symm
    · exact revised.scale.trans evicted.scale
    · have inbox : m'.inbox = both.2 := revised.inbox
      rw [inbox, List.append_nil, ← evicted.inbox, ← waiting]
      rw [List.partition_eq_filter_filter] at sub
      exact (sub.trans List.filter_sublist).append_right _
    · rw [live] at member
      obtain ⟨old, known, rfl⟩ := List.mem_map.mp member
      exact Or.inl ⟨old, known, rfl, rfl⟩
  rw [merged, finished]
  exact ⟨_, _, (slides.tearDownIdle now).record merge⟩

theorem Sound.idle {m : Monitor} (sound : m.Sound) : m.Slides m [] [] [] :=
  sound.stays rfl sound.roster rfl rfl (List.sublist_append_left _ _) fun report member => ⟨report, member, rfl, rfl⟩

/-- Whatever happens, the window moves on and the reports follow it. -/
theorem step_slides {m : Monitor} (sound : m.Sound) (event : Event) :
    ∃ left arrived, m.Slides (m.step event) (submitted [event]) left arrived := by
  cases event with
  | submit s => exact ⟨[], [], submit_slides sound s⟩
  | merge now => exact merge_slides sound now
  | lookup now id =>
    refine ⟨[], [], ?_⟩
    unfold step
    dsimp only
    split
    · rename_i found
      exact lookup_slides sound found
    · exact sound.idle
  | ask now q =>
    refine ⟨[], [], ?_⟩
    unfold step
    dsimp only
    split
    · rename_i asked
      exact ask_slides sound asked
    · exact sound.idle
  | tearDownIdle now => exact ⟨[], [], sound.idle.tearDownIdle now⟩

end Monitor

end Rollup
