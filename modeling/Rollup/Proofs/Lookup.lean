import Rollup.Proofs.Filing

namespace Rollup

theorem Vocabulary.exists_find?_iff {v : Vocabulary} {word : String} :
    (∃ id, v.find? word = some id) ↔ word ∈ v.words := by
  rw [← Option.isSome_iff_exists, find?, List.isSome_idxOf?]

/-- Different words have different numbers. -/
theorem Vocabulary.find?_biUnique (v : Vocabulary) :
    Relator.BiUnique fun (word : String) (id : Nat) => v.find? word = some id := by
  constructor
  · intro word id other known known'
    obtain ⟨within, same, _⟩ := List.idxOf?_eq_some_iff.mp known
    obtain ⟨_, same', _⟩ := List.idxOf?_eq_some_iff.mp known'
    exact same.symm.trans same'
  · intro word id other known known'
    exact Option.some.inj (known.symm.trans known')

namespace Query

/-- The tags that a query names are known, and they are as many and as different
as a grouping by tags needs. -/
def Answerable (q : Query) (tags : Vocabulary) : Prop :=
  ∀ kind names, q.subject = .tags kind names →
    (∀ name ∈ names, name ∈ tags.words) ∧ names.Nodup ∧ names.length ≤ Grouping.mostTags

theorem Answerable.grow {q : Query} {v w : Vocabulary} (answerable : q.Answerable v) (grows : v.Grows w) :
    q.Answerable w := by
  intro kind names same
  obtain ⟨known, different, few⟩ := answerable kind names same
  exact ⟨fun name member => grows.subset (known name member), different, few⟩

theorem numbered_iff {tags : Vocabulary} {names : List String} :
    (∃ ids, List.Forall₂ (fun name id => tags.find? name = some id) names ids) ↔ ∀ name ∈ names, name ∈ tags.words := by
  induction names with
  | nil => exact ⟨fun _ _ member => (nomatch member), fun _ => ⟨[], .nil⟩⟩
  | cons name rest ih =>
    rw [List.forall_mem_cons, ← ih, ← Vocabulary.exists_find?_iff]
    constructor
    · rintro ⟨_, _ | ⟨known, numbered⟩⟩
      exact ⟨⟨_, known⟩, _, numbered⟩
    · rintro ⟨⟨id, known⟩, ids, numbered⟩
      exact ⟨id :: ids, .cons known numbered⟩

/-- Only a query for unknown, repeated or too many tags has no grouping. -/
theorem Proper.grouping_iff {q : Query} (proper : q.Proper) {tags : Vocabulary} :
    (∃ g, q.grouping tags = .ok g) ↔ q.Answerable tags := by
  obtain ⟨subject, f⟩ := q
  cases subject with
  | standard report => exact ⟨fun _ _ _ other => (nomatch other), fun _ => ⟨_, rfl⟩⟩
  | tags kind names =>
    have filled : names ≠ [] := by
      have named := proper.subject
      generalize subjectPath (.tags kind names) = path at named
      cases named
      assumption
    have answerable : Answerable ⟨.tags kind names, f⟩ tags ↔
        (∀ name ∈ names, name ∈ tags.words) ∧ names.Nodup ∧ names.length ≤ Grouping.mostTags :=
      ⟨fun all => all kind names rfl, fun these _ _ same => by cases same; exact these⟩
    simp only [answerable, grouping_tags_iff, ← numbered_iff, Grouping.ofTags_eq_ok_iff]
    constructor
    · rintro ⟨_, ids, numbered, _, few, different, _⟩
      have once := (List.rel_nodup tags.find?_biUnique numbered).mpr different
      exact ⟨⟨ids, numbered⟩, once, numbered.length_eq ▸ few⟩
    · rintro ⟨⟨ids, numbered⟩, different, few⟩
      have once := (List.rel_nodup tags.find?_biUnique numbered).mp different
      refine ⟨_, ids, numbered, fun none => filled ?_, numbered.length_eq ▸ few, once, rfl⟩
      rw [none] at numbered
      exact List.forall₂_nil_right_iff.mp numbered

end Query

theorem Roster.Filed.query_eq {r : Roster} (filed : r.Filed) {q : Query} (proper : q.Proper) {report : Report}
    (member : report ∈ r.live) (same : report.id = q.id) : report.query = q := by
  have read := (filed.live_proper member).parse_id
  rw [show report.query.id = q.id from same, proper.parse_id] at read
  exact (Except.ok.inj read).symm

namespace Monitor

/-- What holds of every state that can be reached under some settings. -/
structure Tended (settings : Settings) (m : Monitor) : Prop where
  sound : m.Sound
  obeys : m.Obeys settings
  described : m.Described
  filed : m.roster.Filed

theorem create_tended {settings : Settings} (fit : settings.check = .ok ()) {now : Instant} {m : Monitor}
    (created : create settings now = .ok m) : m.Tended settings :=
  ⟨(create_start created).1, create_obeys fit created, create_described created, create_filed created⟩

variable {settings : Settings} {m : Monitor}

theorem Tended.run (tended : m.Tended settings) {history : List Event} (possible : ∀ event ∈ history, event.Possible) :
    (m.run history).Tended settings where
  sound := run_sound tended.sound history
  obeys := tended.obeys.run history
  described := tended.described.run tended.obeys.steady tended.sound history
  filed := run_filed tended.filed possible

/-- A report that goes by an id is the report of the query that the id stands
for, so an id can as well be read first. -/
theorem Tended.lookup_eq_ask (tended : m.Tended settings) (now : Instant) (id : String) :
    m.lookup now id = Query.parse id >>= m.ask now := by
  unfold lookup
  cases found : m.roster.find? id with
  | none => cases Query.parse id <;> rfl
  | some report =>
    obtain ⟨member, rfl⟩ := tended.filed.find?_iff.mp found
    have read : Query.parse report.id = .ok report.query := (tended.filed.live_proper member).parse_id
    have known : m.ask now report.query = .ok (m.touch report now) := ask_eq_ok_iff.mpr (Or.inl ⟨report, found, rfl⟩)
    rw [read]
    exact known.symm

theorem Tended.ask_succeeds_iff (tended : m.Tended settings) {q : Query} (proper : q.Proper) (now : Instant) :
    (∃ answer, m.ask now q = .ok answer) ↔ q.Answerable m.window.lexicon.names := by
  rw [← proper.grouping_iff]
  constructor
  · rintro ⟨answer, asked⟩
    rcases ask_eq_ok_iff.mp asked with ⟨report, found, _⟩ | ⟨_, _, g, grouped, _⟩
    · obtain ⟨member, same⟩ := tended.filed.find?_iff.mp found
      rw [← tended.filed.query_eq proper member same]
      exact ⟨_, (tended.described.live report member).grouping⟩
    · exact ⟨g, grouped⟩
  · rintro ⟨g, grouped⟩
    cases found : m.roster.find? q.id with
    | some report => exact ⟨_, ask_eq_ok_iff.mpr (Or.inl ⟨report, found, rfl⟩)⟩
    | none =>
      have checked : q.filter.check = .ok () := Filter.check_eq_ok_iff.mpr proper.ordered
      exact ⟨_, ask_eq_ok_iff.mpr (Or.inr ⟨found, checked, g, grouped, rfl⟩)⟩

/-- The answer is the report of the query, whether it was there or not. -/
theorem Tended.ask_answer (tended : m.Tended settings) {q : Query} (proper : q.Proper) {now : Instant} {m' : Monitor}
    {serial : Nat} (asked : m.ask now q = .ok (m', serial)) : (serial, q) ∈ m'.roster.live.map Report.card := by
  rcases ask_eq_ok_iff.mp asked with ⟨report, found, same⟩ | ⟨_, _, g, _, same⟩
  · obtain ⟨member, id⟩ := tended.filed.find?_iff.mp found
    have cards := m.touch_cards report now
    rw [same] at cards
    rw [Roster.live_cards, cards, ← Roster.live_cards]
    refine List.mem_map.mpr ⟨report, member, ?_⟩
    exact Prod.ext (congrArg Prod.snd same) (tended.filed.query_eq proper member id)
  · cases same
    obtain ⟨rest, _, perm⟩ := m.roster.live_insert
      (.fresh m.roster.nextSerial q ((Breakdown.empty g q.filter m.scale).addAll m.window.views) now)
    exact List.mem_map.mpr ⟨_, perm.mem_iff.mpr List.mem_cons_self, rfl⟩

theorem Tended.ask_known (tended : m.Tended settings) {serial : Nat} {q : Query}
    (known : (serial, q) ∈ m.roster.live.map Report.card) (now : Instant) : ∃ m', m.ask now q = .ok (m', serial) := by
  obtain ⟨report, member, card⟩ := List.mem_map.mp known
  cases card
  exact ⟨_, ask_eq_ok_iff.mpr (Or.inl ⟨report, tended.filed.find?_iff.mpr ⟨member, rfl⟩, rfl⟩)⟩

/-- A serial number that a live report has leads to it. -/
theorem Sound.report?_live (sound : m.Sound) {report : Report} (member : report ∈ m.roster.live) :
    m.report? report.serial = some report := by
  have isFound : (m.roster.live.find? fun other => other.serial = report.serial).isSome :=
    List.find?_isSome.mpr ⟨report, member, decide_eq_true rfl⟩
  obtain ⟨other, found⟩ := Option.isSome_iff_exists.mp isFound
  have passed := List.find?_some found
  have same := sound.roster.same (List.mem_of_find?_eq_some found) member (of_decide_eq_true passed)
  rw [report?, Roster.bySerial?, List.find?_append, found, same]
  rfl

theorem Tended.lookup_ok_iff (tended : m.Tended settings) {now : Instant} {id : String} {answer : Monitor × Nat} :
    m.lookup now id = .ok answer ↔ ∃ q, Query.parse id = .ok q ∧ q.Proper ∧ m.ask now q = .ok answer := by
  rw [tended.lookup_eq_ask, bind_eq_ok_iff]
  refine exists_congr fun q => and_congr_right fun read => (and_iff_right ?_).symm
  exact (Query.parse_eq_ok_iff.mp read).proper

theorem Tended.lookup_succeeds_iff (tended : m.Tended settings) (now : Instant) (id : String) :
    (∃ answer, m.lookup now id = .ok answer) ↔
      ∃ q, Query.parse id = .ok q ∧ q.Answerable m.window.lexicon.names := by
  constructor
  · rintro ⟨answer, found⟩
    obtain ⟨q, read, proper, asked⟩ := tended.lookup_ok_iff.mp found
    exact ⟨q, read, (tended.ask_succeeds_iff proper now).mp ⟨answer, asked⟩⟩
  · rintro ⟨q, read, answerable⟩
    have proper := (Query.parse_eq_ok_iff.mp read).proper
    obtain ⟨answer, asked⟩ := (tended.ask_succeeds_iff proper now).mpr answerable
    exact ⟨answer, tended.lookup_ok_iff.mpr ⟨q, read, proper, asked⟩⟩

theorem Tended.looked_up (tended : m.Tended settings) {now : Instant} {id : String} {m' : Monitor} {serial : Nat}
    (found : m.lookup now id = .ok (m', serial)) : m'.Tended settings := by
  have stepped : m.run [.lookup now id] = m' := by
    show m.step (.lookup now id) = m'
    rw [step, found]
  exact stepped ▸ tended.run (List.forall_mem_singleton.mpr trivial)

/-- What a lookup of an id comes to. The id is read, whether a report goes by
it or not. There is a report for it just if the query can be answered. -/
structure Answers (m : Monitor) (now : Instant) (id : String) : Prop where
  reads : m.lookup now id = Query.parse id >>= m.ask now
  succeeds : (∃ answer, m.lookup now id = .ok answer) ↔
    ∃ q, Query.parse id = .ok q ∧ q.Answerable m.window.lexicon.names
  /-- The report is the one of the query that the id stands for. -/
  report : ∀ m' serial, m.lookup now id = .ok (m', serial) →
    ∃ report ∈ m'.roster.live, m'.report? serial = some report ∧ Query.parse id = .ok report.query
  failure : ∀ fault, m.lookup now id = .error fault → m.step (.lookup now id) = m
  /-- An id with a report has one in every later state. -/
  again : (∃ answer, m.lookup now id = .ok answer) → ∀ later : List Event, (∀ event ∈ later, event.Possible) →
    ∀ hence, ∃ answer, (m.run later).lookup hence id = .ok answer
  /-- It has the same one, under any spelling, until idle reports are torn
  down. -/
  same : ∀ m' serial, m.lookup now id = .ok (m', serial) → ∀ later : List Event, (∀ event ∈ later, event.Possible) →
    (∀ event ∈ later, ¬event.Sweeps m.settings) → ∀ hence other, Query.parse other = Query.parse id →
      ∃ m'', (m'.run later).lookup hence other = .ok (m'', serial)

theorem Tended.answers (tended : m.Tended settings) (now : Instant) (id : String) : m.Answers now id where
  reads := tended.lookup_eq_ask now id
  succeeds := tended.lookup_succeeds_iff now id
  report m' serial found := by
    obtain ⟨q, read, proper, asked⟩ := tended.lookup_ok_iff.mp found
    obtain ⟨report, member, card⟩ := List.mem_map.mp (tended.ask_answer proper asked)
    cases card
    exact ⟨report, member, (tended.looked_up found).sound.report?_live member, read⟩
  failure fault failed := by rw [step, failed]
  again found later possible hence := by
    obtain ⟨q, read, answerable⟩ := (tended.lookup_succeeds_iff now id).mp found
    have extended := tended.obeys.steady.run_extends tended.sound later
    exact ((tended.run possible).lookup_succeeds_iff hence id).mpr ⟨q, read, answerable.grow extended.names.grows⟩
  same m' serial found later possible never hence other alike := by
    obtain ⟨q, read, proper, asked⟩ := tended.lookup_ok_iff.mp found
    have after := tended.looked_up found
    rw [tended.obeys.fixed] at never
    have stays := after.obeys.run_keeps possible never (tended.ask_answer proper asked)
    obtain ⟨m'', known⟩ := (after.run possible).ask_known stays hence
    exact ⟨m'', (after.run possible).lookup_ok_iff.mpr ⟨q, alike.trans read, proper, known⟩⟩

/-- Every report is kept under the id of its own query, and no two share one.
An id is answered by its query, however it is spelled: with the same report,
until idle reports are torn down, and with some report from the first time on. -/
theorem one_report_per_query {settings : Settings} (fit : settings.check = .ok ()) (start : Instant) :
    ∃ m, create settings start = .ok m ∧ ∀ history : List Event, (∀ event ∈ history, event.Possible) →
      (m.run history).roster.Filed ∧ ((m.run history).roster.live.map Report.id).Nodup ∧
        (∀ id report, (m.run history).roster.find? id = some report ↔
          report ∈ (m.run history).roster.live ∧ report.id = id) ∧
        ∀ now id, (m.run history).Answers now id := by
  obtain ⟨m, created⟩ := create_of_check fit start
  refine ⟨m, created, fun history possible => ?_⟩
  have tended := (create_tended fit created).run possible
  exact ⟨tended.filed, tended.filed.distinct, fun id report => tended.filed.find?_iff, tended.answers⟩

/-- A request with one tag. -/
def signIn : Submission where
  script := "sign_in"
  time := Duration.ofMillis 7
  dictionary := ["user", "ann"]
  tagNames := [0]
  tagValues := [1]

/-- A request is kept, and someone asks for a standard report. -/
def firstSignIn : List Event := [
  .submit signIn,
  .merge ⟨1000000000⟩,
  .ask ⟨1100000000⟩ (.ofStandard ⟨"by_host", [.host]⟩)]

theorem spellings_share_one_report : ∃ m, create .standard .epoch = .ok m ∧
    (∀ event ∈ firstSignIn, event.Possible) ∧ ((m.run firstSignIn).roster.live.map Report.id).Nodup ∧
      ∃ m' serial, (m.run firstSignIn).lookup ⟨2000000000⟩ "rtag_info:user?min=5&max=9" = .ok (m', serial) ∧
        ∃ m'', (m'.run [.submit signIn, .lookup ⟨2500000000⟩ "by_user"]).lookup ⟨3000000000⟩
          "rtag_info:user?max=9&min=5" = .ok (m'', serial) := by
  obtain ⟨m, created, answered⟩ := one_report_per_query (show Settings.standard.check = .ok () from rfl) .epoch
  have made : Query.Made (.ofStandard ⟨"by_host", [.host]⟩) :=
    .standard (show Query.ofStandardId "by_host" = .ok _ from rfl)
  have possible : ∀ event ∈ firstSignIn, event.Possible :=
    List.forall_mem_cons.mpr ⟨trivial, List.forall_mem_cons.mpr ⟨trivial, List.forall_mem_singleton.mpr made⟩⟩
  obtain ⟨_, distinct, _, answers⟩ := answered firstSignIn possible
  have passes := passes_of_create created (fun m => ((m.run firstSignIn).lookup ⟨2000000000⟩
    "rtag_info:user?min=5&max=9").toOption.isSome) (by decide +kernel)
  obtain ⟨⟨m', serial⟩, found⟩ : ∃ answer, (m.run firstSignIn).lookup ⟨2000000000⟩
      "rtag_info:user?min=5&max=9" = .ok answer := by
    cases found : (m.run firstSignIn).lookup ⟨2000000000⟩ "rtag_info:user?min=5&max=9" with
    | error fault =>
      rw [found] at passes
      cases passes
    | ok answer => exact ⟨answer, rfl⟩
  have calm := (answers ⟨2000000000⟩ _).same m' serial found [.submit signIn, .lookup ⟨2500000000⟩ "by_user"]
    (by simp [Event.Possible]) (by simp [Event.Sweeps])
  exact ⟨m, created, possible, distinct, m', serial, found, calm ⟨3000000000⟩ _ (by decide +kernel)⟩

end Monitor

end Rollup
