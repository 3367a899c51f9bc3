import Mathlib.Data.List.Nodup
import Rollup.Proofs.Merge

namespace Rollup

namespace Lanes

/-- The orders in which all lanes of work can get done when a thread goes
through each of them, and the threads take turns as they like. -/
inductive Interleaves {α : Type} : List (List α) → List α → Prop
  | done {lanes : List (List α)} : (∀ lane ∈ lanes, lane = []) → Interleaves lanes []
  | turn (before : List (List α)) {after : List (List α)} {lane rest : List α} (a : α) :
      Interleaves (before ++ lane :: after) rest → Interleaves (before ++ (a :: lane) :: after) (a :: rest)

theorem Interleaves.cons_nil {α : Type} {lanes : List (List α)} {order : List α}
    (interleaves : Interleaves lanes order) : Interleaves ([] :: lanes) order := by
  induction interleaves with
  | done empty => exact .done (List.forall_mem_cons.mpr ⟨rfl, empty⟩)
  | @turn before after lane rest a _ ih => exact .turn ([] :: before) a ih

/-- The threads can run one after the other. -/
theorem interleaves_flatten {α : Type} (lanes : List (List α)) : Interleaves lanes lanes.flatten := by
  induction lanes with
  | nil => exact .done fun _ member => absurd member List.not_mem_nil
  | cons lane rest ih =>
    induction lane with
    | nil => exact ih.cons_nil
    | cons a lane later => exact .turn [] a later

/-- Work of the same key stays in order when it is all in one lane. -/
theorem Interleaves.filter_eq {α : Type} {key : α → Nat} {lanes : List (List α)} {order : List α}
    (interleaves : Interleaves lanes order)
    (apart : lanes.Pairwise fun first later => ∀ a ∈ first, ∀ b ∈ later, key a ≠ key b) (k : Nat) :
    order.filter (key · = k) = lanes.flatten.filter (key · = k) := by
  induction interleaves with
  | @done lanes empty => rw [List.flatten_eq_nil_iff.mpr empty]
  | @turn before after lane rest a _ ih =>
    obtain ⟨front, back, across⟩ := List.pairwise_append.mp apart
    obtain ⟨ahead, behind⟩ := List.pairwise_cons.mp back
    have still : (before ++ lane :: after).Pairwise fun first later =>
        ∀ a ∈ first, ∀ b ∈ later, key a ≠ key b := by
      refine List.pairwise_append.mpr ⟨front, List.pairwise_cons.mpr ⟨?_, behind⟩, fun l early => ?_⟩
      · exact fun l late b member => ahead l late b (List.mem_cons_of_mem a member)
      · refine List.forall_mem_cons.mpr ⟨fun b member c deeper => ?_, fun l' late => ?_⟩
        · exact across l early _ List.mem_cons_self b member c (List.mem_cons_of_mem a deeper)
        · exact across l early l' (List.mem_cons_of_mem _ late)
    have flat := ih still
    rw [List.flatten_append, List.flatten_cons, List.filter_append] at flat ⊢
    by_cases mine : key a = k
    · -- Nothing of this key is in an earlier lane.
      have none : before.flatten.filter (key · = k) = [] := by
        refine List.filter_eq_nil_iff.mpr fun b member same => ?_
        obtain ⟨l, early, inside⟩ := List.mem_flatten.mp member
        exact across l early _ List.mem_cons_self b inside a List.mem_cons_self ((of_decide_eq_true same).trans mine.symm)
      rw [none, List.nil_append] at flat ⊢
      rw [List.cons_append, List.filter_cons, List.filter_cons, if_pos (decide_eq_true mine),
        if_pos (decide_eq_true mine), flat]
    · have other : ¬decide (key a = k) = true := fun same => mine (of_decide_eq_true same)
      rw [List.cons_append, List.filter_cons, List.filter_cons, if_neg other, if_neg other, flat]

/-- The steps of a thread: to each report of its lane it makes all changes, one
after the other. -/
def turns (changes : List (Breakdown → Breakdown)) (lane : List Nat) : List (Nat × (Breakdown → Breakdown)) :=
  lane.flatMap fun serial => changes.map fun change => (serial, change)

variable {changes : List (Breakdown → Breakdown)}

theorem mem_turns {lane : List Nat} {turn : Nat × (Breakdown → Breakdown)} (member : turn ∈ turns changes lane) :
    turn.1 ∈ lane := by
  obtain ⟨serial, here, rest⟩ := List.mem_flatMap.mp member
  obtain ⟨change, _, rfl⟩ := List.mem_map.mp rest
  exact here

theorem flatten_turns (lanes : List (List Nat)) : (lanes.map (turns changes)).flatten = turns changes lanes.flatten := by
  induction lanes with
  | nil => rfl
  | cons lane rest ih =>
    rw [List.map_cons, List.flatten_cons, ih]
    exact List.flatMap_append.symm

/-- A report whose serial number comes up once gets each change once. -/
theorem filter_turns {serials : List Nat} (different : serials.Nodup) {serial : Nat} (member : serial ∈ serials) :
    (turns changes serials).filter (·.1 = serial) = changes.map fun change => (serial, change) := by
  induction serials with
  | nil => cases member
  | cons first rest ih =>
    obtain ⟨apart, differentRest⟩ := List.nodup_cons.mp different
    have split : turns changes (first :: rest) = changes.map (fun change => (first, change)) ++ turns changes rest :=
      List.flatMap_cons
    rw [split, List.filter_append]
    by_cases here : first = serial
    · subst here
      have all : (changes.map fun change => (first, change)).filter (·.1 = first) =
          changes.map fun change => (first, change) := by
        refine List.filter_eq_self.mpr fun turn mine => ?_
        obtain ⟨change, _, rfl⟩ := List.mem_map.mp mine
        exact decide_eq_true rfl
      have none : (turns changes rest).filter (·.1 = first) = [] := by
        refine List.filter_eq_nil_iff.mpr fun turn later same => apart ?_
        exact of_decide_eq_true same ▸ mem_turns later
      rw [all, none, List.append_nil]
    · have none : (changes.map fun change => (first, change)).filter (·.1 = serial) = [] := by
        refine List.filter_eq_nil_iff.mpr fun turn other same => here ?_
        obtain ⟨change, _, rfl⟩ := List.mem_map.mp other
        exact of_decide_eq_true same
      rw [none, List.nil_append]
      exact ih differentRest ((List.mem_cons.mp member).resolve_left (Ne.symm here))

/-- No report is in two lanes. -/
theorem turns_apart {lanes : List (List Nat)} (different : lanes.flatten.Nodup) :
    (lanes.map (turns changes)).Pairwise fun first later => ∀ a ∈ first, ∀ b ∈ later, a.1 ≠ b.1 := by
  refine List.pairwise_map.mpr ((List.nodup_flatten.mp different).2.imp fun disjoint a mine b other same => ?_)
  exact disjoint (mem_turns mine) (same ▸ mem_turns other)

end Lanes

namespace Roster

/-- Makes changes to reports in the order in which threads come to make them. -/
def perform (r : Roster) (order : List (Nat × (Breakdown → Breakdown))) : Roster :=
  order.foldl (fun r turn => update turn.2 r turn.1) r

/-- Changes every live report in its own way. -/
def remake (r : Roster) (f : Report → Report) : Roster :=
  { r with standing := r.standing.map f, onDemand := r.onDemand.mapValues f }

/-- All changes one after the other. -/
def compose (changes : List (Breakdown → Breakdown)) (b : Breakdown) : Breakdown := changes.foldl (fun b f => f b) b

theorem remake_remake (r : Roster) (f g : Report → Report) :
    (r.remake f).remake g = r.remake fun report => g (f report) := by
  unfold remake
  dsimp only
  rw [List.map_map, SortedMap.mapValues_mapValues]
  rfl

theorem remake_id (r : Roster) : r.remake id = r := by
  have onDemand : r.onDemand.mapValues id = r.onDemand := SortedMap.ext (List.map_id _)
  rw [remake, List.map_id, onDemand]

theorem remake_congr {r : Roster} {f g : Report → Report} (same : ∀ report ∈ r.live, f report = g report) :
    r.remake f = r.remake g := by
  have standing : r.standing.map f = r.standing.map g :=
    List.map_congr_left fun report member => same report (List.mem_append_left _ member)
  have onDemand : r.onDemand.mapValues f = r.onDemand.mapValues g := by
    refine SortedMap.ext (List.map_congr_left fun e member => ?_)
    rw [same e.2 (List.mem_append_right _ (List.mem_map_of_mem member))]
  rw [remake, remake, standing, onDemand]

/-- Each report comes to what its own changes make of it. -/
theorem perform_eq (r : Roster) (order : List (Nat × (Breakdown → Breakdown))) : r.perform order =
    r.remake fun report => report.revise (compose ((order.filter (·.1 = report.serial)).map Prod.snd)) := by
  induction order generalizing r with
  | nil => exact r.remake_id.symm
  | cons turn rest ih =>
    have first : update turn.2 r turn.1 =
        r.remake fun report => if report.serial = turn.1 then report.revise turn.2 else report := rfl
    have performed : r.perform (turn :: rest) = (update turn.2 r turn.1).perform rest := rfl
    rw [performed, ih, first, remake_remake]
    refine remake_congr fun report _ => ?_
    by_cases mine : turn.1 = report.serial
    · rw [if_pos mine.symm, List.filter_cons, if_pos (decide_eq_true mine)]
      rfl
    · rw [if_neg (Ne.symm mine), List.filter_cons, if_neg fun same => mine (of_decide_eq_true same)]

theorem perform_turns {r : Roster} (different : (r.live.map (·.serial)).Nodup)
    (changes : List (Breakdown → Breakdown)) :
    r.perform (Lanes.turns changes (r.live.map (·.serial))) = r.remake (·.revise (compose changes)) := by
  rw [perform_eq]
  refine remake_congr fun report member => ?_
  rw [Lanes.filter_turns different (List.mem_map_of_mem member), List.map_map]
  exact congrArg (fun fs => report.revise (compose fs)) (List.map_id _)

/-- However the threads take turns, every live report gets every change once
and in order. -/
theorem perform_interleaved {r : Roster} (different : (r.live.map (·.serial)).Nodup) {lanes : Nat}
    {changes : List (Breakdown → Breakdown)} {order : List (Nat × (Breakdown → Breakdown))}
    (interleaves : Lanes.Interleaves ((Lanes.split lanes (r.live.map (·.serial))).map (Lanes.turns changes)) order) :
    r.perform order = r.remake (·.revise (compose changes)) := by
  have flat := Lanes.flatten_split lanes (r.live.map (·.serial))
  rw [← perform_turns different, perform_eq, perform_eq]
  refine remake_congr fun report _ => ?_
  rw [interleaves.filter_eq (Lanes.turns_apart (flat.symm ▸ different)), Lanes.flatten_turns, flat]

theorem updates_eq {r : Roster} (different : (r.live.map (·.serial)).Nodup) (f : Breakdown → Breakdown) :
    (r.live.map (·.serial)).foldl (update f) r = r.remake (·.revise f) := by
  have single : Lanes.turns [f] (r.live.map (·.serial)) = (r.live.map (·.serial)).map fun serial => (serial, f) :=
    List.map_eq_flatMap.symm
  have performed := perform_turns different [f]
  rw [single, perform, List.foldl_map] at performed
  exact performed

end Roster

namespace Monitor

/-- What changes to all live reports can come to when a thread makes them in
each lane. -/
def CanUpdate (m : Monitor) (changes : List (Breakdown → Breakdown)) (m' : Monitor) : Prop :=
  let lanes := Lanes.split m.settings.lanes (m.roster.live.map (·.serial))
  ∃ order, Lanes.Interleaves (lanes.map (Lanes.turns changes)) order ∧ m' = { m with roster := m.roster.perform order }

/-- `evict` with threads. -/
def CanEvict (m : Monitor) (n : Nat) (m' : Monitor) : Prop :=
  if n = 0 then m' = m
  else ∃ left, m.CanUpdate ((m.window.oldest n).map fun v b => b.remove v) left ∧
    m' = { left with window := left.window.dropOldest n }

/-- `absorb` with threads. -/
def CanAbsorb (m : Monitor) (now : Instant) (batch : List Submission) (answer : Monitor × Merge) : Prop :=
  let lost := batch.length - m.window.capacity
  let batch := batch.drop lost
  let room := m.window.capacity - min m.window.size m.window.capacity
  let evicted := batch.length - room
  ∃ left, m.CanEvict evicted left ∧
    let (window, refused) := appendAll left.window now batch
    let appended := batch.length - refused
    let arrived := window.fromPosition left.window.size
    ∃ full, (if appended = 0 then full = { left with window }
        else CanUpdate { left with window } (arrived.map fun v b => b.add v) full) ∧
      answer = (full, { appended, malformed := refused, displaced := lost + evicted })

/-- `finishMerge` with threads. -/
def CanFinishMerge (m : Monitor) (now : Instant) (expired : Nat) (taken : List Submission)
    (answer : Monitor × Merge) : Prop :=
  let (sound, faulty) := taken.partition (·.isSound)
  ∃ absorbed, m.CanAbsorb now sound absorbed ∧
    let (m, tornDown) := absorbed.1.tearDownIdle now
    let merge := { absorbed.2 with malformed := faulty.length + absorbed.2.malformed, expired, tornDown }
    answer = (m.record merge, merge)

/-- `merge` with threads. -/
def CanMerge (m : Monitor) (now : Instant) (answer : Monitor × Merge) : Prop :=
  ∃ left, m.CanEvict (m.expiring now) left ∧
    let (taken, inbox) := left.inbox.popMany left.inbox.capacity
    CanFinishMerge { left with inbox } now (m.expiring now) taken answer

/-- `step` with threads. They are at work in a merge only. -/
def CanStep (m : Monitor) (event : Event) (m' : Monitor) : Prop :=
  match event with
  | .merge now => ∃ merge, m.CanMerge now (m', merge)
  | event => m' = m.step event

/-- `run` with threads, which take turns anew at every update. -/
def CanRun (m : Monitor) : List Event → Monitor → Prop
  | [], m' => m' = m
  | event :: rest, m' => ∃ between, m.CanStep event between ∧ between.CanRun rest m'

section Outcomes

variable {m : Monitor} {now : Instant} {answer : Monitor × Merge}

theorem canUpdate_iff {m' : Monitor} (sound : m.roster.Sound) {changes : List (Breakdown → Breakdown)} :
    m.CanUpdate changes m' ↔ m' = m.updateReports (Roster.compose changes) := by
  have roster : (m.updateReports (Roster.compose changes)).roster =
      m.roster.remake (·.revise (Roster.compose changes)) :=
    (m.updateReports_roster _).trans (Roster.updates_eq sound.different _)
  have updated : m.updateReports (Roster.compose changes) =
      { m with roster := (m.updateReports (Roster.compose changes)).roster } := rfl
  rw [updated, roster]
  constructor
  · rintro ⟨order, interleaves, rfl⟩
    rw [Roster.perform_interleaved sound.different interleaves]
  · rintro rfl
    have order := Lanes.interleaves_flatten
      ((Lanes.split m.settings.lanes (m.roster.live.map (·.serial))).map (Lanes.turns changes))
    exact ⟨_, order, by rw [Roster.perform_interleaved sound.different order]⟩

theorem canEvict_iff {m' : Monitor} (sound : m.roster.Sound) {n : Nat} : m.CanEvict n m' ↔ m' = m.evict n := by
  have all : Roster.compose ((m.window.oldest n).map fun v b => b.remove v) = (·.removeAll (m.window.oldest n)) :=
    funext fun b => List.foldl_map
  unfold CanEvict evict
  split
  · exact Iff.rfl
  · simp only [canUpdate_iff sound, all, exists_eq_left]

theorem canAbsorb_iff (sound : m.roster.Sound) {batch : List Submission} :
    m.CanAbsorb now batch answer ↔ answer = m.absorb now batch := by
  unfold CanAbsorb absorb
  dsimp only
  simp only [canEvict_iff sound, exists_eq_left]
  generalize batch.drop (batch.length - m.window.capacity) = batch
  generalize batch.length - (m.window.capacity - min m.window.size m.window.capacity) = n
  have left := (evict_revised sound n).sound sound
  generalize appendAll (m.evict n).window now batch = filled
  have all : Roster.compose ((filled.1.fromPosition (m.evict n).window.size).map fun v b => b.add v) =
      (·.addAll (filled.1.fromPosition (m.evict n).window.size)) := funext fun b => List.foldl_map
  have filledSound : ({ m.evict n with window := filled.1 } : Monitor).roster.Sound := left
  split
  · simp only [exists_eq_left]
  · simp only [canUpdate_iff filledSound, all, exists_eq_left]

theorem canFinishMerge_iff (sound : m.roster.Sound) {expired : Nat} {taken : List Submission} :
    m.CanFinishMerge now expired taken answer ↔ answer = m.finishMerge now expired taken := by
  unfold CanFinishMerge finishMerge
  dsimp only
  simp only [canAbsorb_iff sound, exists_eq_left]

theorem canMerge_iff (sound : m.roster.Sound) : m.CanMerge now answer ↔ answer = m.merge now := by
  have left := (evict_revised sound (m.expiring now)).sound sound
  unfold CanMerge merge
  dsimp only
  simp only [canEvict_iff sound, exists_eq_left]
  refine canFinishMerge_iff ?_
  exact left

theorem canStep_iff {m' : Monitor} (sound : m.roster.Sound) (event : Event) :
    m.CanStep event m' ↔ m' = m.step event := by
  cases event with
  | merge now =>
    unfold CanStep step
    dsimp only
    simp only [canMerge_iff sound]
    constructor
    · rintro ⟨merge, same⟩
      exact congrArg Prod.fst same
    · rintro rfl
      exact ⟨_, rfl⟩
  | submit s => exact Iff.rfl
  | lookup now id => exact Iff.rfl
  | ask now q => exact Iff.rfl
  | tearDownIdle now => exact Iff.rfl

/-- Threads can come to nothing but what the run comes to, and they do. -/
theorem canRun_iff {m' : Monitor} (sound : m.Sound) (history : List Event) :
    m.CanRun history m' ↔ m' = m.run history := by
  induction history generalizing m with
  | nil => exact Iff.rfl
  | cons event rest ih =>
    obtain ⟨_, _, slides⟩ := step_slides sound event
    unfold CanRun
    simp only [canStep_iff sound.roster, exists_eq_left]
    exact ih slides.sound

end Outcomes

/-- The same monitor with another number of lanes. -/
def withLanes (m : Monitor) (k : Nat) : Monitor := { m with settings := { m.settings with lanes := k } }

section WithLanes

variable (m : Monitor) (k : Nat) (now : Instant)

theorem updateReports_withLanes (f : Breakdown → Breakdown) :
    (m.withLanes k).updateReports f = (m.updateReports f).withLanes k := by
  have roster : ((m.withLanes k).updateReports f).roster = (m.updateReports f).roster :=
    ((m.withLanes k).updateReports_roster f).trans (m.updateReports_roster f).symm
  have left : (m.withLanes k).updateReports f =
      { m.withLanes k with roster := ((m.withLanes k).updateReports f).roster } := rfl
  rw [left, roster]
  rfl

theorem evict_withLanes (n : Nat) : (m.withLanes k).evict n = (m.evict n).withLanes k := by
  unfold evict
  split
  · rfl
  · dsimp only
    rw [updateReports_withLanes]
    rfl

theorem absorb_withLanes (batch : List Submission) : (m.withLanes k).absorb now batch =
    ((m.absorb now batch).1.withLanes k, (m.absorb now batch).2) := by
  have window : (m.withLanes k).window = m.window := rfl
  unfold absorb
  dsimp only
  rw [window, evict_withLanes]
  generalize m.evict _ = left
  have same : (left.withLanes k).window = left.window := rfl
  rw [same]
  generalize appendAll left.window now _ = filled
  split
  · rfl
  · have updated := updateReports_withLanes { left with window := filled.1 } k
      (·.addAll (filled.1.fromPosition left.window.size))
    exact congrArg (·, _) updated

theorem tearDownIdle_withLanes : (m.withLanes k).tearDownIdle now =
    ((m.tearDownIdle now).1.withLanes k, (m.tearDownIdle now).2) := by
  have settings : (m.withLanes k).settings.idleTimeout = m.settings.idleTimeout := rfl
  unfold tearDownIdle
  rw [settings]
  split
  · rfl
  · rfl

theorem finishMerge_withLanes (expired : Nat) (taken : List Submission) :
    (m.withLanes k).finishMerge now expired taken =
      ((m.finishMerge now expired taken).1.withLanes k, (m.finishMerge now expired taken).2) := by
  unfold finishMerge
  dsimp only
  rw [absorb_withLanes]
  dsimp only
  rw [tearDownIdle_withLanes]
  rfl

theorem merge_withLanes : (m.withLanes k).merge now = ((m.merge now).1.withLanes k, (m.merge now).2) := by
  have expiring : (m.withLanes k).expiring now = m.expiring now := rfl
  unfold merge
  dsimp only
  rw [expiring, evict_withLanes]
  generalize m.evict (m.expiring now) = left
  have waiting : (left.withLanes k).inbox = left.inbox := rfl
  rw [waiting]
  generalize left.inbox.popMany left.inbox.capacity = popped
  exact finishMerge_withLanes { left with inbox := popped.2 } k now (m.expiring now) popped.1

theorem ask_withLanes (q : Query) : (m.withLanes k).ask now q =
    (m.ask now q).map fun answer => (answer.1.withLanes k, answer.2) := by
  have roster : (m.withLanes k).roster = m.roster := rfl
  have names : (m.withLanes k).window.lexicon.names = m.window.lexicon.names := rfl
  have scale : (m.withLanes k).scale = m.scale := rfl
  unfold ask
  rw [roster, names, scale]
  cases m.roster.find? q.id with
  | some report => rfl
  | none =>
    dsimp only
    cases q.grouping m.window.lexicon.names with
    | error fault => rfl
    | ok g =>
      dsimp only [bind, Except.bind]
      cases Breakdown.create g q.filter m.scale with
      | error cause => rfl
      | ok breakdown => rfl

theorem lookup_withLanes (id : String) : (m.withLanes k).lookup now id =
    (m.lookup now id).map fun answer => (answer.1.withLanes k, answer.2) := by
  have roster : (m.withLanes k).roster = m.roster := rfl
  unfold lookup
  rw [roster]
  cases m.roster.find? id with
  | some report => rfl
  | none =>
    dsimp only
    cases Query.parse id with
    | error fault => rfl
    | ok q => exact ask_withLanes m k now q

theorem step_withLanes (event : Event) : (m.withLanes k).step event = (m.step event).withLanes k := by
  cases event with
  | submit s => rfl
  | merge now => exact congrArg Prod.fst (merge_withLanes m k now)
  | lookup now id =>
    unfold step
    dsimp only
    rw [lookup_withLanes]
    cases m.lookup now id <;> rfl
  | ask now q =>
    unfold step
    dsimp only
    rw [ask_withLanes]
    cases m.ask now q <;> rfl
  | tearDownIdle now => exact congrArg Prod.fst (tearDownIdle_withLanes m k now)

theorem run_withLanes (history : List Event) : (m.withLanes k).run history = (m.run history).withLanes k := by
  induction history generalizing m with
  | nil => rfl
  | cons event rest ih =>
    have first : (m.withLanes k).run (event :: rest) = ((m.withLanes k).step event).run rest := rfl
    rw [first, step_withLanes, ih]
    rfl

end WithLanes

theorem check_withLanes {settings : Settings} (fit : settings.check = .ok ()) {k : Nat} (some : 0 < k) :
    Settings.check { settings with lanes := k } = .ok () := by
  have others : ∀ e ∈ Settings.positiveFields { settings with lanes := k },
      e = ("report_parallelism", k) ∨ e ∈ settings.positiveFields := by
    simp [Settings.positiveFields]
  have none : (Settings.positiveFields { settings with lanes := k }).find? (·.2 = 0) = none := by
    refine List.find?_eq_none.mpr fun e member zero => ?_
    have nothing : e.2 = 0 := of_decide_eq_true zero
    rcases others e member with rfl | old
    · exact absurd nothing (Nat.ne_of_gt some)
    · exact absurd nothing (Nat.ne_of_gt (positive_of_check fit old))
  have scale : Settings.scale { settings with lanes := k } = settings.scale := rfl
  unfold Settings.check at fit ⊢
  rw [none]
  split at fit
  · cases fit
  · rw [scale]
    exact fit

theorem create_withLanes {settings : Settings} {start : Instant} {m : Monitor} (fit : settings.check = .ok ())
    (created : create settings start = .ok m) {k : Nat} (some : 0 < k) :
    create { settings with lanes := k } start = .ok (m.withLanes k) := by
  have scale : Settings.scale { settings with lanes := k } = settings.scale := rfl
  unfold create at created ⊢
  rw [fit] at created
  rw [check_withLanes fit some, scale]
  dsimp only at created ⊢
  cases scaled : settings.scale with
  | error fault =>
    rw [scaled] at created
    cases created
  | ok scale =>
    rw [scaled] at created
    cases created
    rfl

/-- With any number of lanes, at least one, every live report is in just one of
them. However the threads take turns, an update leaves every report as a single
lane does, and so each history ends in the same state, whatever the number of
lanes and however the threads took turns in its merges. -/
theorem run_any_lanes {settings : Settings} (fit : settings.check = .ok ()) (start : Instant) {k : Nat} (some : 0 < k) :
    ∃ m, create settings start = .ok m ∧ create { settings with lanes := k } start = .ok (m.withLanes k) ∧
      ∀ history,
        let serials := (m.run history).roster.live.map (·.serial)
        (Lanes.split k serials).flatten = serials ∧ serials.Nodup ∧
          (∀ changes order, Lanes.Interleaves ((Lanes.split k serials).map (Lanes.turns changes)) order →
            (m.run history).roster.perform order =
              (((m.run history).withLanes 1).updateReports (Roster.compose changes)).roster) ∧
          ∀ final, (m.withLanes k).CanRun history final ↔ final = (m.run history).withLanes k := by
  obtain ⟨m, created⟩ := create_of_check fit start
  obtain ⟨sound, _, _⟩ := create_start created
  refine ⟨m, created, create_withLanes fit created some, fun history => ?_⟩
  have reached := (run_sound sound history).roster
  refine ⟨Lanes.flatten_split k _, reached.different, fun changes order interleaves => ?_, fun final => ?_⟩
  · rw [Roster.perform_interleaved reached.different interleaves, updateReports_roster]
    exact (Roster.updates_eq reached.different _).symm
  · have lanesSound : (m.withLanes k).Sound := ⟨sound.window, sound.roster⟩
    rw [canRun_iff lanesSound, run_withLanes]

theorem turnover_any_lanes : Settings.standard.check = .ok () ∧ 0 < 3 ∧ ∃ m, create .standard .epoch = .ok m ∧
    Lanes.split 3 ((m.run turnover).roster.live.map (·.serial)) = [List.range' 0 7, List.range' 7 7, List.range' 14 5] ∧
    ∀ final, (m.withLanes 3).CanRun turnover final ↔ final = (m.run turnover).withLanes 3 := by
  have fit : Settings.standard.check = .ok () := rfl
  obtain ⟨m, created, _, same⟩ := run_any_lanes fit .epoch (by decide : 0 < 3)
  have lanes := passes_of_create created
    (fun m => decide (Lanes.split 3 ((m.run turnover).roster.live.map (·.serial)) =
      [List.range' 0 7, List.range' 7 7, List.range' 14 5]))
    (by decide +kernel)
  exact ⟨fit, by decide, m, created, of_decide_eq_true lanes, (same turnover).2.2.2⟩

end Monitor

end Rollup
