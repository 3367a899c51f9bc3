import Mathlib.Data.List.Find
import Mathlib.Data.List.Nodup
import Rollup.Proofs.CanonicalId
import Rollup.Proofs.Described

namespace Rollup

/-- What makes a report the one it is: its serial number and its query. -/
def Report.card (r : Report) : Nat × Query := (r.serial, r.query)

namespace Roster

/-- The cards of the live reports, those made on demand by id. -/
def cards (r : Roster) : List (Nat × Query) × SortedMap String (Nat × Query) :=
  (r.standing.map Report.card, r.onDemand.mapValues Report.card)

theorem live_cards (r : Roster) : r.live.map Report.card = r.cards.1 ++ r.cards.2.values := by
  unfold live cards SortedMap.values SortedMap.mapValues
  simp only [List.map_append, List.map_map]
  rfl

theorem cards_faces (r : Roster) : r.cards = (r.faces.1.map Report.card, r.faces.2.mapValues Report.card) := by
  unfold cards faces
  rw [List.map_map, SortedMap.mapValues_mapValues]
  rfl

/-- Standing reports stay, and some of the others. -/
structure Keeps (r r' : Roster) : Prop where
  standing : r'.cards.1 = r.cards.1
  onDemand : r'.cards.2.entries.Sublist r.cards.2.entries

theorem Keeps.of_cards {r r' : Roster} (same : r'.cards = r.cards) : r.Keeps r' := by
  rw [Prod.ext_iff] at same
  exact ⟨same.1, same.2 ▸ .refl _⟩

theorem Keeps.of_faces {r r' : Roster} {cutoff : Option Instant} (left : r'.faces = retained cutoff r.faces) :
    r.Keeps r' := by
  have onDemand : (retained cutoff r.faces).2.entries.Sublist r.faces.2.entries := by
    cases cutoff with
    | none => exact .refl _
    | some cutoff => exact List.filter_sublist
  have cards := r'.cards_faces
  rw [left] at cards
  constructor
  · rw [cards, r.cards_faces]
    rfl
  · rw [cards, r.cards_faces]
    exact onDemand.map _

/-- Every report is filed under the id of its own query, and no report takes
the id of a standing one. -/
structure Filed (r : Roster) : Prop where
  standing : r.standing.map (·.query) = StandardReport.all.map Query.ofStandard
  proper : ∀ e ∈ r.onDemand.entries, e.2.query.Proper
  keyed : ∀ e ∈ r.onDemand.entries, e.1 = e.2.id
  apart : ∀ e ∈ r.onDemand.entries, ∀ report ∈ StandardReport.all, e.1 ≠ report.id

theorem Keeps.old {r r' : Roster} (keeps : r.Keeps r') {e : String × Report} (member : e ∈ r'.onDemand.entries) :
    ∃ old ∈ r.onDemand.entries, old.1 = e.1 ∧ old.2.query = e.2.query := by
  have card : (e.1, e.2.card) ∈ r'.cards.2.entries := List.mem_map.mpr ⟨e, member, rfl⟩
  obtain ⟨old, known, same⟩ := List.mem_map.mp (keeps.onDemand.subset card)
  exact ⟨old, known, congrArg (fun c : String × Nat × Query => c.1) same,
    congrArg (fun c : String × Nat × Query => c.2.2) same⟩

theorem Filed.keep {r r' : Roster} (filed : r.Filed) (keeps : r.Keeps r') : r'.Filed where
  standing := by
    have queries := congrArg (List.map Prod.snd) keeps.standing
    unfold cards at queries
    rw [List.map_map, List.map_map] at queries
    exact queries.trans filed.standing
  proper e member := by
    obtain ⟨old, known, _, same⟩ := keeps.old member
    exact same ▸ filed.proper old known
  keyed e member := by
    obtain ⟨old, known, key, same⟩ := keeps.old member
    have id : old.2.id = e.2.id := congrArg Query.id same
    rw [← key, ← id]
    exact filed.keyed old known
  apart e member := by
    obtain ⟨old, known, key, _⟩ := keeps.old member
    exact key ▸ filed.apart old known

theorem id_ofStandard : ∀ report ∈ StandardReport.all, (Query.ofStandard report).id = report.id := by
  decide

theorem Filed.mem_standing_iff {r : Roster} (filed : r.Filed) {q : Query} :
    (∃ report ∈ r.standing, report.query = q) ↔ ∃ standard ∈ StandardReport.all, Query.ofStandard standard = q := by
  rw [← List.mem_map, ← List.mem_map, filed.standing]

/-- A report made for a query that has none yet is filed where it belongs. -/
theorem Filed.insert {r : Roster} (filed : r.Filed) {report : Report} (proper : report.query.Proper)
    (absent : r.find? report.id = none) : (r.insert report).Filed := by
  have entries (e : String × Report) (member : e ∈ (r.insert report).onDemand.entries) :
      e = (report.id, report) ∨ e ∈ r.onDemand.entries := SortedMap.mem_insertEntry member
  refine ⟨filed.standing, fun e member => ?_, fun e member => ?_, fun e member => ?_⟩ <;>
    rcases entries e member with rfl | old
  · exact proper
  · exact filed.proper e old
  · rfl
  · exact filed.keyed e old
  · -- A standing report of that id would have been found.
    intro standard known same
    obtain ⟨other, there, query⟩ := filed.mem_standing_iff.mpr ⟨standard, known, rfl⟩
    have none := List.find?_eq_none.mp (Option.or_eq_none_iff.mp absent).1 other there
    have id : other.id = standard.id := (congrArg Query.id query).trans (id_ofStandard standard known)
    exact none (decide_eq_true (id.trans same.symm))
  · exact filed.apart e old

variable {r : Roster}

theorem Filed.live_proper (filed : r.Filed) {report : Report} (member : report ∈ r.live) : report.query.Proper := by
  rcases List.mem_append.mp member with standing | onDemand
  · obtain ⟨standard, known, same⟩ := filed.mem_standing_iff.mp ⟨report, standing, rfl⟩
    rw [← same]
    exact ⟨.standard known, Query.carried_any, Query.any_ordered⟩
  · obtain ⟨e, known, rfl⟩ := List.mem_map.mp onDemand
    exact filed.proper e known

/-- The standing reports come first, then the others by id. -/
theorem Filed.live_ids (filed : r.Filed) : r.live.map Report.id = StandardReport.all.map (·.id) ++ r.onDemand.keys := by
  have standing : r.standing.map Report.id = StandardReport.all.map (·.id) := by
    have ids := congrArg (List.map Query.id) filed.standing
    rw [List.map_map, List.map_map] at ids
    exact ids.trans (List.map_congr_left id_ofStandard)
  have onDemand : r.onDemand.values.map Report.id = r.onDemand.keys := by
    unfold SortedMap.values
    rw [List.map_map]
    exact List.map_congr_left fun e member => (filed.keyed e member).symm
  rw [live, List.map_append, standing, onDemand]

/-- No two reports share an id. -/
theorem Filed.distinct (filed : r.Filed) : (r.live.map Report.id).Nodup := by
  rw [filed.live_ids]
  refine List.nodup_append.mpr ⟨by decide, r.onDemand.keys_nodup, ?_⟩
  intro id known other there same
  obtain ⟨report, standard, rfl⟩ := List.mem_map.mp known
  obtain ⟨e, member, rfl⟩ := List.mem_map.mp there
  exact filed.apart e member report standard same.symm

/-- An id is looked up among the ids of the live reports. -/
theorem Filed.find?_eq (filed : r.Filed) (id : String) : r.find? id = r.live.find? fun report => report.id = id := by
  have onDemand : r.onDemand.find? id = r.onDemand.values.find? fun report => report.id = id := by
    unfold SortedMap.values SortedMap.find?
    rw [List.find?_map]
    refine congrArg _ (List.find?_congr fun e member => ?_)
    rw [Bool.eq_iff_iff, beq_iff_eq, filed.keyed e member]
    exact Std.LawfulEqCmp.compare_eq_iff_eq.trans decide_eq_true_iff.symm
  rw [find?, onDemand, live, List.find?_append]

theorem Filed.find?_iff (filed : r.Filed) {id : String} {report : Report} :
    r.find? id = some report ↔ report ∈ r.live ∧ report.id = id := by
  have found {other : Report} (here : r.live.find? (fun report => report.id = id) = some other) :
      other ∈ r.live ∧ other.id = id := by
    have passed := List.find?_some here
    exact ⟨List.mem_of_find?_eq_some here, of_decide_eq_true passed⟩
  rw [filed.find?_eq]
  refine ⟨found, fun ⟨member, same⟩ => ?_⟩
  have isFound : (r.live.find? fun report => report.id = id).isSome :=
    List.find?_isSome.mpr ⟨report, member, decide_eq_true same⟩
  obtain ⟨other, here⟩ := Option.isSome_iff_exists.mp isFound
  obtain ⟨known, equal⟩ := found here
  rw [here, List.inj_on_of_nodup_map filed.distinct known member (equal.trans same.symm)]

/-- A report that is made takes no place of another. -/
theorem live_subset_insert {new : Report} (absent : r.find? new.id = none) : r.live ⊆ (r.insert new).live := by
  intro report member
  rcases List.mem_append.mp member with standing | onDemand
  · exact List.mem_append_left _ standing
  · obtain ⟨e, known, rfl⟩ := List.mem_map.mp onDemand
    have other : e.1 ≠ new.id := by
      intro same
      have found := SortedMap.find?_eq_some_iff.mpr (same ▸ known : (new.id, e.2) ∈ r.onDemand.entries)
      rw [(Option.or_eq_none_iff.mp absent).2] at found
      cases found
    have stays : e ∈ (r.onDemand.insert new.id new).entries :=
      (SortedMap.mem_insertEntry_iff r.onDemand.sorted).mpr (Or.inr ⟨known, other⟩)
    exact List.mem_append_right _ (List.mem_map_of_mem stays)

end Roster

namespace Monitor

/-- Someone who asks for a report has made a query. -/
def Event.Possible : Event → Prop
  | .ask _ q => q.Made
  | _ => True

/-- Whether idle reports are torn down, which takes a timeout. -/
def Event.Sweeps (settings : Settings) : Event → Prop
  | .merge _ => settings.idleTimeout ≠ none
  | .tearDownIdle _ => settings.idleTimeout ≠ none
  | _ => False

/-- What becomes of the roster: reports stay or are torn down, the latter only
when idle reports are, or a report is made for a query that had none. -/
inductive Refiled (r : Roster) (swept : Prop) (r' : Roster) : Prop
  | kept : r.Keeps r' → (¬swept → r'.cards = r.cards) → Refiled r swept r'
  | made (report : Report) : report.query.Made → r.find? report.id = none → r' = r.insert report → Refiled r swept r'

theorem Refiled.same {r r' : Roster} (swept : Prop) (same : r'.cards = r.cards) : Refiled r swept r' :=
  .kept (.of_cards same) fun _ => same

theorem Refiled.swept {r r' : Roster} {timeout : Option Duration} {now : Instant}
    (left : r'.faces = Roster.retained (timeout.bind now.before?) r.faces) : Refiled r (timeout ≠ none) r' := by
  refine .kept (.of_faces left) fun never => ?_
  rw [not_ne_iff.mp never] at left
  rw [r'.cards_faces, left, r.cards_faces]
  rfl

theorem touch_cards (m : Monitor) (report : Report) (now : Instant) :
    (m.touch report now).1.roster.cards = m.roster.cards :=
  have card (other : Report) : (other.touch now).card = other.card := rfl
  have same := Roster.modify_same card m.roster report.serial
  Prod.ext same.1 same.2

theorem ask_refiled {m m' : Monitor} {now : Instant} {q : Query} {serial : Nat} (made : q.Made)
    (asked : m.ask now q = .ok (m', serial)) : Refiled m.roster False m'.roster := by
  rcases ask_cases asked with ⟨report, rfl⟩ | ⟨absent, g, _, rfl⟩
  · exact .same _ (m.touch_cards report now)
  · exact .made (.fresh m.roster.nextSerial q _ now) made absent rfl

theorem lookup_refiled {m m' : Monitor} {now : Instant} {id : String} {serial : Nat}
    (found : m.lookup now id = .ok (m', serial)) : Refiled m.roster False m'.roster := by
  rcases lookup_cases found with ⟨report, rfl⟩ | ⟨q, read, asked⟩
  · exact .same _ (m.touch_cards report now)
  · exact ask_refiled (.read read) asked

theorem step_refiled (m : Monitor) {event : Event} (possible : event.Possible) :
    Refiled m.roster (event.Sweeps m.settings) (m.step event).roster := by
  cases event with
  | submit s => exact .same _ rfl
  | merge now => exact .swept (m.merge_faces now)
  | lookup now id =>
    unfold step
    dsimp only
    split
    · exact lookup_refiled ‹_›
    · exact .same _ rfl
  | ask now q =>
    unfold step
    dsimp only
    split
    · exact ask_refiled possible ‹_›
    · exact .same _ rfl
  | tearDownIdle now => exact .swept (m.tearDownIdle_faces now)

theorem Refiled.filed {r r' : Roster} {swept : Prop} (refiled : Refiled r swept r') (filed : r.Filed) : r'.Filed := by
  cases refiled with
  | kept keeps _ => exact filed.keep keeps
  | made _ made absent same => exact same ▸ filed.insert made.proper absent

theorem Refiled.live_subset {r r' : Roster} {swept : Prop} (refiled : Refiled r swept r') (never : ¬swept) :
    r.live.map Report.card ⊆ r'.live.map Report.card := by
  cases refiled with
  | kept _ same =>
    rw [Roster.live_cards, Roster.live_cards, same never]
    exact List.Subset.refl _
  | made _ _ absent same => exact List.map_subset _ (same ▸ Roster.live_subset_insert absent)

theorem create_filed {settings : Settings} {now : Instant} {m : Monitor} (created : create settings now = .ok m) :
    m.roster.Filed := by
  have standing := (create_described created).standing
  obtain ⟨scale, rfl⟩ := create_eq created
  exact ⟨standing, fun _ member => (nomatch member), fun _ member => (nomatch member), fun _ member => (nomatch member)⟩

theorem run_filed {m : Monitor} (filed : m.roster.Filed) {history : List Event}
    (possible : ∀ event ∈ history, event.Possible) : (m.run history).roster.Filed := by
  induction history generalizing m with
  | nil => exact filed
  | cons event rest ih =>
    obtain ⟨first, later⟩ := List.forall_mem_cons.mp possible
    exact ih ((m.step_refiled first).filed filed) later

/-- While no idle reports are torn down, all reports stay. -/
theorem Obeys.run_keeps {m : Monitor} {settings : Settings} (obeys : m.Obeys settings) {later : List Event}
    (possible : ∀ event ∈ later, event.Possible) (never : ∀ event ∈ later, ¬event.Sweeps settings) :
    m.roster.live.map Report.card ⊆ (m.run later).roster.live.map Report.card := by
  induction later generalizing m with
  | nil => exact List.Subset.refl _
  | cons event rest ih =>
    obtain ⟨first, others⟩ := List.forall_mem_cons.mp possible
    obtain ⟨neverFirst, neverOthers⟩ := List.forall_mem_cons.mp never
    have refiled := m.step_refiled first
    rw [obeys.fixed] at refiled
    exact List.Subset.trans (refiled.live_subset neverFirst) (ih (obeys.step event) others neverOthers)

end Monitor

end Rollup
