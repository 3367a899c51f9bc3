import Rollup.Proofs.Except
import Rollup.Proofs.Merge

namespace Rollup

namespace Vocabulary

theorem Grows.find?_eq {v w : Vocabulary} (grows : v.Grows w) {word : String} {id : Nat}
    (found : v.find? word = some id) : w.find? word = some id := by
  obtain ⟨within, same, before⟩ := List.idxOf?_eq_some_iff.mp found
  obtain ⟨new, words⟩ := grows
  have longer : id < w.words.length := by
    rw [← words, List.length_append]
    omega
  refine List.idxOf?_eq_some_iff.mpr ⟨longer, ?_, fun j less => ?_⟩
  · simpa only [← words, List.getElem_append_left within] using same
  · have inside : j < v.words.length := by omega
    simpa only [← words, List.getElem_append_left inside] using before j less

end Vocabulary

namespace Grouping

theorem firstRepeat?_eq_none_iff {names : List Nat} : firstRepeat? names = none ↔ names.Nodup := by
  have before (i : Nat) (within : i < names.length) :
      ((names[i]?).any (names.take i).contains = true) ↔ ∃ j, ∃ less : j < i, names[j] = names[i] := by
    rw [List.getElem?_eq_getElem within, Option.any_some, List.contains_iff_mem, List.mem_take_iff_getElem]
    constructor
    · rintro ⟨j, bound, same⟩
      exact ⟨j, by omega, same⟩
    · rintro ⟨j, less, same⟩
      exact ⟨j, by omega, same⟩
  unfold firstRepeat?
  rw [List.find?_eq_none, List.nodup_iff_pairwise_ne, List.pairwise_iff_getElem]
  constructor
  · intro none i j _ within less same
    exact none j (List.mem_range.mpr within) ((before j within).mpr ⟨i, less, same⟩)
  · intro different i member repeated
    obtain ⟨j, less, same⟩ := (before i (List.mem_range.mp member)).mp repeated
    exact different j i _ _ less same

/-- A grouping by tags needs between one and eight different ones. -/
theorem ofTags_eq_ok_iff {source : TagSource} {names : List Nat} {scope : Scope} {g : Grouping} :
    ofTags source names scope = .ok g ↔
      names ≠ [] ∧ names.length ≤ mostTags ∧ names.Nodup ∧ g = .byTags source names scope := by
  unfold ofTags
  rw [← firstRepeat?_eq_none_iff]
  split
  · rename_i none
    exact ⟨nofun, fun ⟨filled, _⟩ => absurd (List.isEmpty_iff.mp none) filled⟩
  · rename_i someTag
    have filled : names ≠ [] := fun none => someTag (List.isEmpty_iff.mpr none)
    split
    · rename_i many
      exact ⟨nofun, fun ⟨_, few, _⟩ => absurd many (Nat.not_lt.mpr few)⟩
    · rename_i few
      cases firstRepeat? names with
      | some position => exact ⟨nofun, fun ⟨_, _, different, _⟩ => nomatch different⟩
      | none => exact ⟨fun made => ⟨filled, Nat.not_lt.mp few, rfl, (Except.ok.inj made).symm⟩,
          fun ⟨_, _, _, same⟩ => congrArg _ same.symm⟩

end Grouping

namespace Query

/-- A report by tags is grouped by the numbers of its tags. -/
theorem grouping_tags_iff {kind : TagReport} {names : List String} {f : Filter} {tags : Vocabulary} {g : Grouping} :
    grouping ⟨.tags kind names, f⟩ tags = .ok g ↔
      ∃ ids, List.Forall₂ (fun name id => tags.find? name = some id) names ids ∧
        Grouping.ofTags kind.source ids kind.scope = .ok g := by
  unfold grouping
  rw [bind_eq_ok_iff]
  refine exists_congr fun ids => and_congr ?_ ?_
  · rw [mapM_eq_ok_iff]
    constructor
    · refine List.Forall₂.imp fun name id known => ?_
      split at known
      · cases known
        assumption
      · cases known
    · refine List.Forall₂.imp fun name id known => ?_
      rw [known]
  · cases Grouping.ofTags kind.source ids kind.scope with
    | error fault => exact ⟨nofun, nofun⟩
    | ok grouping => exact (Except.ok.injEq ..).to_iff.trans (Except.ok.injEq ..).to_iff.symm

theorem grouping_tags {kind : TagReport} {names : List String} {f : Filter} {tags : Vocabulary} {g : Grouping}
    (grouped : grouping ⟨.tags kind names, f⟩ tags = .ok g) :
    ∃ ids, List.Forall₂ (fun name id => tags.find? name = some id) names ids ∧ names ≠ [] ∧
      g = .byTags kind.source ids kind.scope := by
  obtain ⟨ids, numbered, made⟩ := grouping_tags_iff.mp grouped
  obtain ⟨filled, _, _, same⟩ := Grouping.ofTags_eq_ok_iff.mp made
  refine ⟨ids, numbered, fun none => filled ?_, same⟩
  rw [none] at numbered
  exact List.forall₂_nil_left_iff.mp numbered

/-- Tags keep their numbers, so a grouping stays what it is. -/
theorem grouping_grows {q : Query} {v w : Vocabulary} (grows : v.Grows w) {g : Grouping}
    (grouped : q.grouping v = .ok g) : q.grouping w = .ok g := by
  obtain ⟨subject, f⟩ := q
  cases subject with
  | standard report => exact grouped
  | tags kind names =>
    obtain ⟨ids, numbered, made⟩ := grouping_tags_iff.mp grouped
    exact grouping_tags_iff.mpr ⟨ids, numbered.imp fun _ _ known => grows.find?_eq known, made⟩

end Query

/-- A report without its numbers. -/
def Report.cleared (r : Report) : Report := { r with breakdown := r.breakdown.clear }

theorem Report.cleared_revise {f : Breakdown → Breakdown} (alike : ∀ b : Breakdown, b.Alike (f b)) (r : Report) :
    (r.revise f).cleared = r.cleared := by
  have same := alike r.breakdown
  unfold cleared revise Breakdown.clear
  dsimp only
  rw [same.grouping, same.filter, same.scale]

theorem Report.alike_of_cleared {r s : Report} (same : s.cleared = r.cleared) : r.breakdown.Alike s.breakdown where
  grouping := congrArg (fun r => r.breakdown.grouping) same
  filter := congrArg (fun r => r.breakdown.filter) same
  scale := congrArg (fun r => r.breakdown.scale) same

namespace Roster

/-- All about the live reports but their numbers. -/
def faces (r : Roster) : List Report × SortedMap String Report :=
  (r.standing.map Report.cleared, r.onDemand.mapValues Report.cleared)

/-- What a change of a report leaves alone is the same in the whole roster. -/
theorem modify_same {α : Type} {φ : Report → α} {f : Report → Report}
    (kept : ∀ report : Report, φ (f report) = φ report) (r : Roster) (serial : Nat) :
    (r.modify serial f).standing.map φ = r.standing.map φ ∧
      (r.modify serial f).onDemand.mapValues φ = r.onDemand.mapValues φ := by
  have each (report : Report) : φ (if report.serial = serial then f report else report) = φ report := by
    split
    · exact kept report
    · rfl
  unfold modify
  dsimp only
  rw [List.map_map, SortedMap.mapValues_mapValues]
  exact ⟨List.map_congr_left fun report _ => each report, congrArg (r.onDemand.mapValues ·) (funext each)⟩

theorem faces_modify {f : Report → Report} (kept : ∀ report : Report, (f report).cleared = report.cleared) (r : Roster)
    (serial : Nat) : (r.modify serial f).faces = r.faces :=
  have same := modify_same kept r serial
  Prod.ext same.1 same.2

theorem faces_updates {f : Breakdown → Breakdown} (alike : ∀ b : Breakdown, b.Alike (f b)) (serials : List Nat)
    (r : Roster) : (serials.foldl (update f) r).faces = r.faces := by
  induction serials generalizing r with
  | nil => rfl
  | cons serial rest ih => exact (ih (update f r serial)).trans (faces_modify (Report.cleared_revise alike) r serial)

theorem faces_live (r : Roster) : r.live.map Report.cleared = r.faces.1 ++ r.faces.2.values := by
  unfold live faces SortedMap.values SortedMap.mapValues
  simp only [List.map_append, List.map_map]
  rfl

/-- What is left of the faces once idle reports are torn down. -/
def retained (cutoff : Option Instant) (faces : List Report × SortedMap String Report) :
    List Report × SortedMap String Report :=
  (faces.1, cutoff.elim faces.2 fun cutoff => faces.2.filter fun _ report => !report.idleSince cutoff)

theorem retained_retained (cutoff : Option Instant) (faces : List Report × SortedMap String Report) :
    retained cutoff (retained cutoff faces) = retained cutoff faces := by
  cases cutoff with
  | none => rfl
  | some cutoff =>
    have twice (l : List (String × Report)) :
        (l.filter fun e => !e.2.idleSince cutoff).filter (fun e => !e.2.idleSince cutoff) =
          l.filter fun e => !e.2.idleSince cutoff := by
      rw [List.filter_filter]
      simp only [Bool.and_self]
    exact Prod.ext rfl (SortedMap.ext (twice _))

theorem faces_retire (r : Roster) (cutoff : Instant) : (r.retire cutoff).faces = retained (some cutoff) r.faces :=
  Prod.ext rfl (r.onDemand.mapValues_filter Report.cleared (fun _ report => !report.idleSince cutoff)
    (fun _ report => !report.idleSince cutoff) fun _ _ => rfl)

theorem mem_retained {cutoff : Option Instant} {faces : List Report × SortedMap String Report} {face : Report}
    (member : face ∈ (retained cutoff faces).1 ++ (retained cutoff faces).2.values) :
    face ∈ faces.1 ++ faces.2.values := by
  cases cutoff with
  | none => exact member
  | some cutoff =>
    have fewer : (faces.2.filter fun _ report => !report.idleSince cutoff).values.Sublist faces.2.values :=
      List.filter_sublist.map _
    exact ((List.Sublist.refl _).append fewer).subset member

end Roster

namespace Monitor

theorem evict_faces (m : Monitor) (n : Nat) : (m.evict n).roster.faces = m.roster.faces := by
  unfold evict
  split
  · rfl
  · have updated := m.updateReports_roster (·.removeAll (m.window.oldest n))
    exact (congrArg Roster.faces updated).trans (Roster.faces_updates (fun b => .removeAll b _) _ _)

theorem absorb_faces (m : Monitor) (now : Instant) (batch : List Submission) :
    (m.absorb now batch).1.roster.faces = m.roster.faces := by
  obtain ⟨kept, k, _, absorbed⟩ := m.absorb_fst now batch
  rw [absorbed]
  split
  · exact m.evict_faces k
  · rw [updateReports_roster, Roster.faces_updates fun b => .addAll b _]
    exact m.evict_faces k

theorem tearDownIdle_faces (m : Monitor) (now : Instant) : (m.tearDownIdle now).1.roster.faces =
    Roster.retained (m.settings.idleTimeout.bind now.before?) m.roster.faces := by
  unfold tearDownIdle
  split
  · rename_i none
    rw [none]
    rfl
  · rename_i cutoff some
    rw [some]
    exact Roster.faces_retire m.roster cutoff

theorem absorb_settings (m : Monitor) (now : Instant) (batch : List Submission) :
    (m.absorb now batch).1.settings = m.settings := by
  obtain ⟨kept, k, _, absorbed⟩ := m.absorb_fst now batch
  obtain ⟨roster, evicted⟩ := m.evict_eq k
  rw [absorbed, evicted]
  split <;> rfl

/-- A merge changes nothing about live reports but their numbers, and tears
idle ones down. -/
theorem merge_faces (m : Monitor) (now : Instant) : (m.merge now).1.roster.faces =
    Roster.retained (m.settings.idleTimeout.bind now.before?) m.roster.faces := by
  obtain ⟨n, most, merged⟩ := m.merge_fst now
  obtain ⟨merge, finished⟩ := finishMerge_fst { m.evict n with inbox := ((m.evict n).inbox.popMany most).2 } now n
    ((m.evict n).inbox.popMany most).1
  have faces := tearDownIdle_faces (absorb { m.evict n with inbox := ((m.evict n).inbox.popMany most).2 } now
    (((m.evict n).inbox.popMany most).1.partition Submission.isSound).1).1 now
  obtain ⟨roster, evicted⟩ := m.evict_eq n
  have settings : (m.evict n).settings = m.settings := by rw [evicted]
  rw [absorb_faces, absorb_settings] at faces
  rw [merged, finished]
  exact faces.trans (by rw [settings, m.evict_faces n])

/-- A merge only adds words. -/
theorem Steady.merge_extends {m : Monitor} (steady : m.Steady) (sound : m.Sound) (now : Instant) :
    m.window.lexicon.Extends (m.merge now).1.window.lexicon := by
  have smaller := (sound.window.dropOldest_sound (m.expiring now)).dropOldest_sound (m.crowd now)
  have extended := (smaller.keepAll_views now m.pooled).2.1
  rw [Window.dropOldest_lexicon, Window.dropOldest_lexicon] at extended
  rw [(steady.merged now).window]
  exact extended

theorem Steady.run_extends {m : Monitor} (steady : m.Steady) (sound : m.Sound) (history : List Event) :
    m.window.lexicon.Extends (m.run history).window.lexicon := by
  induction history generalizing m with
  | nil => exact .refl _
  | cons event rest ih =>
    obtain ⟨_, _, slides⟩ := step_slides sound event
    refine .trans ?_ (ih (steady.step event) slides.sound)
    rcases m.step_cases event with ⟨s, _, same⟩ | ⟨now, _, same⟩ | ⟨_, roster, same⟩
    · exact same ▸ .refl _
    · exact same ▸ steady.merge_extends sound now
    · exact same ▸ .refl _

/-- A report is what its query asks for, in the numbering of the tags. -/
structure Describes (tags : Vocabulary) (scale : Scale) (report : Report) : Prop where
  grouping : report.query.grouping tags = .ok report.breakdown.grouping
  filter : report.breakdown.filter = report.query.filter
  scale : report.breakdown.scale = scale

theorem Describes.of_cleared {tags : Vocabulary} {scale : Scale} {report other : Report}
    (describes : Describes tags scale report) (same : other.cleared = report.cleared) : Describes tags scale other := by
  have query : other.query = report.query := congrArg (fun r => r.query) same
  have alike := Report.alike_of_cleared same
  refine ⟨?_, ?_, alike.scale.trans describes.scale⟩
  · rw [query, alike.grouping]
    exact describes.grouping
  · rw [query, alike.filter]
    exact describes.filter

theorem Describes.extend {tags later : Vocabulary} {scale : Scale} {report : Report}
    (describes : Describes tags scale report) (extended : tags.Extends later) : Describes later scale report :=
  ⟨Query.grouping_grows extended.grows describes.grouping, describes.filter, describes.scale⟩

/-- Every live report is what its query asks for, and the standing reports
are the standard ones. -/
structure Described (m : Monitor) : Prop where
  live : ∀ report ∈ m.roster.live, Describes m.window.lexicon.names m.scale report
  standing : m.roster.standing.map (·.query) = StandardReport.all.map Query.ofStandard

theorem Described.touch {m : Monitor} (described : m.Described) (report : Report) (now : Instant) :
    (m.touch report now).1.Described where
  live touched member := by
    have live : (m.touch report now).1.roster.live = _ := Roster.live_modify _ _ _
    rw [live] at member
    obtain ⟨old, known, rfl⟩ := List.mem_map.mp member
    have before := described.live old known
    split
    · exact ⟨before.grouping, before.filter, before.scale⟩
    · exact before
  standing := by
    have queries (other : Report) :
        (if other.serial = report.serial then other.touch now else other).query = other.query := by
      split <;> rfl
    rw [← described.standing]
    exact (List.map_map ..).trans (List.map_congr_left fun other _ => queries other)

theorem Described.ask {m m' : Monitor} (described : m.Described) {now : Instant} {q : Query} {serial : Nat}
    (asked : m.ask now q = .ok (m', serial)) : m'.Described := by
  rcases ask_cases asked with ⟨report, rfl⟩ | ⟨_, g, grouped, rfl⟩
  · exact described.touch report now
  · refine ⟨fun report member => ?_, described.standing⟩
    rcases Roster.mem_live_insert member with rfl | old
    · have alike := Breakdown.Alike.addAll (.empty g q.filter m.scale) m.window.views
      exact ⟨grouped.trans (congrArg _ alike.grouping.symm), alike.filter, alike.scale⟩
    · exact described.live report old

theorem Described.lookup {m m' : Monitor} (described : m.Described) {now : Instant} {id : String} {serial : Nat}
    (found : m.lookup now id = .ok (m', serial)) : m'.Described := by
  rcases lookup_cases found with ⟨report, rfl⟩ | ⟨q, _, asked⟩
  · exact described.touch report now
  · exact described.ask asked

theorem Described.tearDownIdle {m : Monitor} (described : m.Described) (now : Instant) :
    (m.tearDownIdle now).1.Described := by
  rcases m.tearDownIdle_roster now with same | ⟨cutoff, fewer⟩
  · rw [same]
    exact described
  · rw [fewer]
    exact ⟨fun report member => described.live report ((m.roster.live_retire cutoff).subset member), described.standing⟩

theorem Described.merge {m : Monitor} (described : m.Described) (steady : m.Steady) (sound : m.Sound) (now : Instant) :
    (m.merge now).1.Described := by
  have faces := m.merge_faces now
  have extended := steady.merge_extends sound now
  obtain ⟨_, _, slides⟩ := merge_slides sound now
  refine ⟨fun report member => ?_, ?_⟩
  · have face : report.cleared ∈ (m.merge now).1.roster.live.map Report.cleared := List.mem_map_of_mem member
    rw [Roster.faces_live, faces] at face
    have before := Roster.mem_retained face
    rw [← Roster.faces_live] at before
    obtain ⟨old, known, same⟩ := List.mem_map.mp before
    rw [slides.scale]
    exact ((described.live old known).of_cleared same.symm).extend extended.names
  · have standing : (m.merge now).1.roster.standing.map Report.cleared = m.roster.standing.map Report.cleared :=
      congrArg Prod.fst faces
    have queries := congrArg (List.map Report.query) standing
    rw [List.map_map, List.map_map] at queries
    exact queries.trans described.standing

theorem Described.step {m : Monitor} (described : m.Described) (steady : m.Steady) (sound : m.Sound) (event : Event) :
    (m.step event).Described := by
  cases event with
  | submit s => exact ⟨described.live, described.standing⟩
  | merge now => exact described.merge steady sound now
  | lookup now id =>
    unfold Monitor.step
    dsimp only
    split
    · exact described.lookup ‹_›
    · exact described
  | ask now q =>
    unfold Monitor.step
    dsimp only
    split
    · exact described.ask ‹_›
    · exact described
  | tearDownIdle now => exact described.tearDownIdle now

theorem Described.run {m : Monitor} (described : m.Described) (steady : m.Steady) (sound : m.Sound)
    (history : List Event) : (m.run history).Described := by
  induction history generalizing m with
  | nil => exact described
  | cons event rest ih =>
    obtain ⟨_, _, slides⟩ := step_slides sound event
    exact ih (described.step steady sound event) (steady.step event) slides.sound

theorem create_described {settings : Settings} {now : Instant} {m : Monitor} (created : create settings now = .ok m) :
    m.Described := by
  obtain ⟨scale, rfl⟩ := create_eq created
  refine ⟨fun report member => ?_, ?_⟩
  · have standing : report ∈ (Roster.create scale now).standing := Roster.live_create scale now ▸ member
    obtain ⟨e, _, rfl⟩ := List.mem_map.mp standing
    exact ⟨rfl, rfl, rfl⟩
  · unfold Roster.create
    rw [List.map_map]
    have queries : (StandardReport.all.zipIdx.map Prod.fst).map Query.ofStandard =
        StandardReport.all.map Query.ofStandard := by
      rw [List.zipIdx_map_fst]
    rw [List.map_map] at queries
    exact queries

end Monitor

end Rollup
