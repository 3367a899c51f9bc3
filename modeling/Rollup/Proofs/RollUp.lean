import Mathlib.Data.List.Perm.Basic
import Rollup.Proofs.Numbering

namespace Rollup

namespace Part

/-- The part under another key, or straight in the totals. -/
def rekey (φ : BucketKey → Option BucketKey) (p : Part) : Part := { p with key := p.key.bind φ }

theorem total_rekey (φ : BucketKey → Option BucketKey) (scale : Scale) (ps : List Part) (q : Quantity) :
    total scale (ps.map (rekey φ)) q = total scale ps q := by
  rw [total, total, List.map_map]
  rfl

theorem into_rekey (φ : BucketKey → Option BucketKey) (ps : List Part) (key : BucketKey) :
    into (ps.map (rekey φ)) key = (ps.filter fun p => p.key.bind φ = some key).map (rekey φ) := by
  rw [into, List.filter_map]
  rfl

/-- The parts with one of some keys, key by key. -/
theorem flatMap_into_perm {keys : List BucketKey} (once : keys.Nodup) (ps : List Part) :
    (keys.flatMap (into ps)).Perm (ps.filter fun p => p.key ∈ keys.map some) := by
  induction keys with
  | nil =>
    rw [List.filter_eq_nil_iff.mpr fun p _ => by simp]
    exact .refl _
  | cons key rest ih =>
    obtain ⟨apart, others⟩ := List.nodup_cons.mp once
    have here : (ps.filter fun p => p.key ∈ (key :: rest).map some).filter (fun p => p.key = some key) =
        into ps key := by
      rw [List.filter_filter]
      refine List.filter_congr fun p _ => ?_
      by_cases same : p.key = some key <;> simp [same]
    have elsewhere : (ps.filter fun p => p.key ∈ (key :: rest).map some).filter (fun p => !decide (p.key = some key)) =
        ps.filter fun p => p.key ∈ rest.map some := by
      rw [List.filter_filter]
      refine List.filter_congr fun p _ => ?_
      by_cases same : p.key = some key <;> simp [same, apart]
    have split := List.filter_append_perm (fun p : Part => decide (p.key = some key))
      (ps.filter fun p => p.key ∈ (key :: rest).map some)
    rw [here, elsewhere] at split
    rw [List.flatMap_cons]
    exact ((ih others).append_left _).trans split

theorem total_flatMap (scale : Scale) (ps : List Part) (keys : List BucketKey) (q : Quantity) :
    total scale (keys.flatMap (into ps)) q = (keys.map fun key => total scale (into ps key) q).sum := by
  induction keys with
  | nil => rfl
  | cons key rest ih => rw [List.flatMap_cons, total_append, ih, List.map_cons, List.sum_cons]

end Part

namespace Breakdown

/-- Breakdowns with the same parts, but for the keys: one is the other rolled
up. It has the keys that take the place of one in the other, and each of its
buckets is those of the other together whose place its key takes. -/
structure RolledUp (φ : BucketKey → Option BucketKey) (coarse fine : Breakdown) : Prop where
  keys : ∀ key, key ∈ coarse.entries.map (·.1) ↔ ∃ e ∈ fine.entries, φ e.1 = some key
  amounts : ∀ e ∈ coarse.entries, ∀ q, e.2.summary.amount q =
    ((fine.entries.filter fun d => φ d.1 = some e.1).map fun d => d.2.summary.amount q).sum
  totals : coarse.totals = fine.totals

theorem Holds.mem_keys_iff {b : Breakdown} {ps : List Part} (holds : b.Holds ps) (key : BucketKey) :
    key ∈ b.entries.map (·.1) ↔ ∃ p ∈ ps, p.key = some key := by
  have there : key ∈ b.entries.map (·.1) ↔ b.buckets.find? key ≠ none := by
    rw [List.mem_map, Option.ne_none_iff_exists']
    constructor
    · rintro ⟨e, member, rfl⟩
      exact ⟨e.2, SortedMap.find?_eq_some_iff.mpr member⟩
    · rintro ⟨bucket, found⟩
      exact ⟨(key, bucket), SortedMap.find?_eq_some_iff.mp found, rfl⟩
  rw [there, Ne, holds.missing, Part.into, List.filter_eq_nil_iff]
  simp

theorem Holds.entry_amount {b : Breakdown} {ps : List Part} (holds : b.Holds ps) {e : BucketKey × Bucket}
    (member : e ∈ b.entries) (q : Quantity) : e.2.summary.amount q = Part.total b.scale (Part.into ps e.1) q := by
  have found : b.buckets.find? e.1 = some e.2 := SortedMap.find?_eq_some_iff.mpr member
  have amounts := holds.buckets e.1 q
  rw [bucketAt, found] at amounts
  exact amounts

theorem Holds.rolledUp {coarse fine : Breakdown} {ps qs : List Part} (left : coarse.Holds ps) (right : fine.Holds qs)
    (scale : coarse.scale = fine.scale) {φ : BucketKey → Option BucketKey} (perm : ps.Perm (qs.map (Part.rekey φ))) :
    RolledUp φ coarse fine := by
  refine ⟨fun key => ?_, fun e member q => ?_, ?_⟩
  · rw [left.mem_keys_iff]
    constructor
    · rintro ⟨p, there, keyed⟩
      obtain ⟨r, known, rfl⟩ := List.mem_map.mp (perm.mem_iff.mp there)
      obtain ⟨j, origin, image⟩ := Option.bind_eq_some_iff.mp keyed
      obtain ⟨e, member, rfl⟩ := List.mem_map.mp ((right.mem_keys_iff j).mpr ⟨r, known, origin⟩)
      exact ⟨e, member, image⟩
    · rintro ⟨e, member, image⟩
      obtain ⟨r, known, origin⟩ := (right.mem_keys_iff e.1).mp (List.mem_map_of_mem member)
      refine ⟨r.rekey φ, perm.mem_iff.mpr (List.mem_map_of_mem known), ?_⟩
      rw [Part.rekey, origin]
      exact image
  · have keyed : (fine.entries.filter fun d => φ d.1 = some e.1).map (fun d => d.2.summary.amount q) =
        ((fine.entries.filter fun d => φ d.1 = some e.1).map (·.1)).map fun key =>
          Part.total fine.scale (Part.into qs key) q := by
      rw [List.map_map]
      exact List.map_congr_left fun d inside => right.entry_amount (List.mem_filter.mp inside).1 q
    have once : ((fine.entries.filter fun d => φ d.1 = some e.1).map (·.1)).Nodup :=
      (SortedMap.keys_nodup fine.buckets).sublist (List.filter_sublist.map _)
    have chosen : (qs.filter fun r => r.key ∈ ((fine.entries.filter fun d => φ d.1 = some e.1).map (·.1)).map some) =
        qs.filter fun r => r.key.bind φ = some e.1 := by
      refine List.filter_congr fun r known => decide_eq_decide.mpr ?_
      rw [List.map_map, List.mem_map, Option.bind_eq_some_iff]
      constructor
      · rintro ⟨d, inside, keyed⟩
        exact ⟨d.1, keyed.symm, of_decide_eq_true (List.mem_filter.mp inside).2⟩
      · rintro ⟨j, keyed, image⟩
        obtain ⟨d, there, rfl⟩ := List.mem_map.mp ((right.mem_keys_iff j).mpr ⟨r, known, keyed⟩)
        exact ⟨d, List.mem_filter.mpr ⟨there, decide_eq_true image⟩, keyed.symm⟩
    have together : Part.total coarse.scale (Part.into ps e.1) q =
        Part.total coarse.scale (qs.filter fun r => r.key.bind φ = some e.1) q := by
      have same : (Part.into ps e.1).Perm (Part.into (qs.map (Part.rekey φ)) e.1) := perm.filter _
      rw [Part.total_perm same, Part.into_rekey, Part.total_rekey]
    rw [left.entry_amount member, together, keyed, ← Part.total_flatMap, scale,
      Part.total_perm (Part.flatMap_into_perm once qs), chosen]
  · refine Summary.ext_amount ?_ fun q => ?_
    · rw [left.formed.totalsScale, right.formed.totalsScale, scale]
    · rw [left.totals, right.totals, scale, Part.total_perm perm, Part.total_rekey]

end Breakdown

namespace Query

/-- Where a report keeps nothing apart there are only totals. -/
theorem columns_eq_nil_iff {q : Query} {tags : Vocabulary} {g : Grouping} (grouped : q.grouping tags = .ok g) :
    q.columns = [] ↔ g = .totals := by
  have named := named_of_grouping grouped
  obtain ⟨subject, f⟩ := q
  cases subject with
  | standard report =>
    cases grouped
    rcases standard_grouping report with ⟨none, same⟩ | ⟨some, same⟩
    · exact ⟨fun _ => same, fun _ => congrArg (List.map Column.field) none⟩
    · rw [same]
      exact ⟨fun none => absurd (List.map_eq_nil_iff.mp none) some, fun totals => (nomatch totals)⟩
  | tags kind names =>
    obtain ⟨_, _, _, rfl⟩ := grouping_tags grouped
    refine ⟨fun none => ?_, fun totals => (nomatch totals)⟩
    exact absurd (List.map_eq_nil_iff.mp (List.append_eq_nil_iff.mp none).2) (named kind names rfl)

theorem rowKey_eq_iff {q : Query} (named : q.Named) (some : q.columns ≠ []) (left right : Column → String) :
    q.rowKey (q.columns.map left) = q.rowKey (q.columns.map right) ↔
      ∀ column ∈ q.columns, left column = right column := by
  rw [← List.map_inj_left]
  constructor
  · intro same
    rw [← values_rowKey named some left, same, values_rowKey named some right]
  · intro same
    rw [same]

theorem Coarser.tag_mem {coarse fine : Query} (coarser : Coarser coarse fine) {name : String}
    (member : .tag name ∈ fine.columns) : .tag name ∈ coarse.columns := by
  cases coarser with
  | standard f inside =>
    obtain ⟨a, _, same⟩ := List.mem_map.mp member
    cases same
  | tags names f source inside =>
    rcases List.mem_append.mp member with field | tag
    · obtain ⟨a, _, same⟩ := List.mem_map.mp field
      cases same
    · exact List.mem_append_right _ tag

/-- Within one request only tags make a difference, and a coarser report by
tags keeps apart the same tags. -/
theorem Coarser.same_iff {coarse fine : Query} (coarser : Coarser coarse fine) (named : coarse.Named)
    (named' : fine.Named) (some : coarse.columns ≠ []) (v : View) (left right : List Tag) :
    fine.keyFor v left = fine.keyFor v right ↔ coarse.keyFor v left = coarse.keyFor v right := by
  rw [keyFor, keyFor, keyFor, keyFor, rowKey_eq_iff named some, rowKey_eq_iff named' (coarser.columns_ne_nil some)]
  constructor
  · exact fun same column member => same column (coarser.columns_subset member)
  · intro same column member
    cases column with
    | field a => rfl
    | tag name => exact same _ (coarser.tag_mem member)

/-- A request is in mere totals what it is in one bucket of a finer report. -/
theorem Coarser.parts_totals {coarse fine : Query} (coarser : Coarser coarse fine) {v : View} {h : Grouping}
    (named : coarse.Named) (none : coarse.columns = []) (right : fine.grouping v.lexicon.names = .ok h) {f : Filter}
    (passes : f.accepts v = true) :
    (h.parts f v).map (Part.rekey (coarse.project? fine)) = [⟨v.id, .none, .ofRequest v.record⟩] := by
  cases coarser with
  | @standard coarse fine f' inside =>
    cases right
    rcases standard_grouping fine with ⟨_, totals⟩ | ⟨some, grouping⟩
    · rw [totals, Grouping.parts, if_pos passes]
      rfl
    · have grouped : fine.grouping ≠ .totals := by
        rw [grouping]
        simp
      have single (key : BucketKey) (c : Contribution) : (Breakdown.gather [(key, c)]).entries = [(key, c)] := rfl
      have projected (key : BucketKey) :
          project? ⟨.standard coarse, f'⟩ ⟨.standard fine, f'⟩ key = .none := if_pos none
      rw [Grouping.parts_of_accepts grouped passes, standard_contributions some f', single, List.map_singleton,
        List.map_singleton, Part.rekey, Option.bind_some, projected]
  | @tags kind _ names f' _ _ =>
    exact absurd (List.map_eq_nil_iff.mp (List.append_eq_nil_iff.mp none).2) (named kind names rfl)

/-- What a request puts into a coarser report is what it puts into a finer
one, but for the keys. -/
theorem Coarser.parts {coarse fine : Query} (coarser : Coarser coarse fine) {v : View} {g h : Grouping}
    (left : coarse.grouping v.lexicon.names = .ok g) (right : fine.grouping v.lexicon.names = .ok h) (f : Filter) :
    (g.parts f v).Perm ((h.parts f v).map (Part.rekey (coarse.project? fine))) := by
  have named := named_of_grouping left
  have named' := named_of_grouping right
  by_cases passes : f.accepts v = true
  · by_cases none : coarse.columns = []
    · rw [coarser.parts_totals named none right passes, (columns_eq_nil_iff left).mp none, Grouping.parts,
        if_pos passes]
    · have grouped : g ≠ .totals := fun totals => none ((columns_eq_nil_iff left).mpr totals)
      have grouped' : h ≠ .totals := fun totals =>
        coarser.columns_ne_nil none ((columns_eq_nil_iff right).mpr totals)
      obtain ⟨pieces, found, found'⟩ := coarser.contributions left right none
      rw [Grouping.parts_of_accepts grouped passes, Grouping.parts_of_accepts grouped' passes, found, found']
      have same (p : List Tag × Contribution) (_ : p ∈ pieces) (r : List Tag × Contribution) (_ : r ∈ pieces) :=
        coarser.same_iff named named' none v p.1 r.1
      have image (p : List Tag × Contribution) (_ : p ∈ pieces) := coarser.project?_rowKey named' none (v.text p.1)
      have rekeyed := Breakdown.gather_rekeyed same image
      have parts := rekeyed.map fun e : Option BucketKey × Contribution => (⟨v.id, e.1, e.2⟩ : Part)
      rw [List.map_map, List.map_map] at parts
      rw [List.map_map]
      exact parts
  · rw [Grouping.parts_of_refuses passes, Grouping.parts_of_refuses passes]
    exact .refl _

end Query

namespace Monitor

/-- What the requests of a window put into a coarser report is what they put
into a finer one, but for the keys. -/
theorem Describes.partsOf_perm {w : Window} {scale : Scale} {coarse fine : Report}
    (left : Describes w.lexicon.names scale coarse) (right : Describes w.lexicon.names scale fine)
    (coarser : coarse.query.Coarser fine.query) : (coarse.breakdown.partsOf w.views).Perm
      ((fine.breakdown.partsOf w.views).map (Part.rekey (coarse.query.project? fine.query))) := by
  have filters : fine.breakdown.filter = coarse.breakdown.filter := by
    rw [left.filter, right.filter, coarser.filter_eq]
  rw [Breakdown.partsOf, Breakdown.partsOf, List.map_flatMap, filters]
  refine List.Perm.flatMap_left _ fun v member => ?_
  have words : v.lexicon = w.lexicon := Window.view_lexicon member
  exact coarser.parts (words ▸ left.grouping) (words ▸ right.grouping) _

theorem Faithful.rolledUp {m : Monitor} (faithful : m.Faithful) {coarse fine : Report}
    (left : coarse ∈ m.roster.live) (right : fine ∈ m.roster.live) (coarser : coarse.query.Coarser fine.query) :
    Breakdown.RolledUp (coarse.query.project? fine.query) coarse.breakdown fine.breakdown := by
  have first := faithful.described.live coarse left
  have second := faithful.described.live fine right
  have scale := first.scale.trans second.scale.symm
  exact (faithful.mirrors coarse left).holds.rolledUp (faithful.mirrors fine right).holds scale
    (first.partsOf_perm second coarser)

theorem Faithful.standing_totals {m : Monitor} (faithful : m.Faithful) :
    ∀ report ∈ m.roster.standing, ∀ other ∈ m.roster.standing, report.breakdown.totals = other.breakdown.totals := by
  have standing := faithful.described.standing
  have live {report : Report} (member : report ∈ m.roster.standing) : report ∈ m.roster.live :=
    List.mem_append_left _ member
  -- The report that keeps nothing apart is coarser than each of them.
  obtain ⟨info, always, query⟩ : ∃ info ∈ m.roster.standing, info.query = .ofStandard ⟨"info", []⟩ := by
    have known : Query.ofStandard ⟨"info", []⟩ ∈ m.roster.standing.map (·.query) := by
      rw [standing]
      exact List.mem_map_of_mem List.mem_cons_self
    exact List.mem_map.mp known
  have same (report : Report) (member : report ∈ m.roster.standing) :
      info.breakdown.totals = report.breakdown.totals := by
    obtain ⟨kind, _, asked⟩ : ∃ kind ∈ StandardReport.all, Query.ofStandard kind = report.query := by
      have known := List.mem_map_of_mem (f := (·.query)) member
      rw [standing] at known
      exact List.mem_map.mp known
    have coarser : info.query.Coarser report.query := by
      rw [query, ← asked]
      exact .standard .any (List.nil_subset _)
    exact (faithful.rolledUp (live always) (live member) coarser).totals
  exact fun report member other member' => (same report member).symm.trans (same other member')

/-- In every state, of two live reports the one that keeps apart less of the
same is the other rolled up, key by key and sum by sum; and all standard
reports, which are always live, have the same totals. -/
theorem coarser_rolled_up {settings : Settings} (fit : settings.check = .ok ()) (now : Instant) :
    ∃ m, create settings now = .ok m ∧ ∀ history, Submission.Moderate (submitted history) →
      let roster := (m.run history).roster
      (∀ coarse ∈ roster.live, ∀ fine ∈ roster.live, coarse.query.Coarser fine.query →
        Breakdown.RolledUp (coarse.query.project? fine.query) coarse.breakdown fine.breakdown) ∧
      roster.standing.map (·.query) = StandardReport.all.map Query.ofStandard ∧
      ∀ report ∈ roster.standing, ∀ other ∈ roster.standing, report.breakdown.totals = other.breakdown.totals := by
  obtain ⟨m, created⟩ := create_of_check fit now
  refine ⟨m, created, fun history moderate => ?_⟩
  have faithful := run_faithful fit created moderate
  exact ⟨fun coarse left fine right coarser => faithful.rolledUp left right coarser, faithful.described.standing,
    faithful.standing_totals⟩

/-- A script that spends some time in a database, on a host. -/
def visit (host : String) : Submission where
  host := host
  script := "cart"
  time := Duration.ofMillis 9
  dictionary := ["group", "db"]
  timerHits := [1]
  timerValues := [Duration.ofMillis 4]
  timerTagCounts := [1]
  timerTagNames := [0]
  timerTagValues := [1]

/-- Two visits on different hosts. Reports on them are made before the second
one. -/
def visits : List Event := [
  .submit (visit "east"),
  .merge ⟨1000000000⟩,
  .ask ⟨1100000000⟩ ⟨.tags .tagReport ["group"], .any⟩,
  .ask ⟨1200000000⟩ ⟨.tags .tagReport2 ["group"], .any⟩,
  .submit (visit "west"),
  .merge ⟨2000000000⟩]

theorem visits_rolled_up : ∃ m, create .standard .epoch = .ok m ∧
    ∃ coarse ∈ (m.run visits).roster.live, ∃ fine ∈ (m.run visits).roster.live,
      coarse.query = ⟨.tags .tagReport ["group"], .any⟩ ∧ coarse.breakdown.entries.length = 1 ∧
      fine.query = ⟨.tags .tagReport2 ["group"], .any⟩ ∧ fine.breakdown.entries.length = 2 ∧
      Breakdown.RolledUp (coarse.query.project? fine.query) coarse.breakdown fine.breakdown := by
  obtain ⟨m, created, rolled⟩ := coarser_rolled_up (show Settings.standard.check = .ok () from rfl) .epoch
  have moderate : Submission.Moderate (submitted visits) := by
    intro f cap stops
    cases f <;> cases stops <;> decide
  have first := passes_of_create created (fun m => (m.run visits).roster.live.any fun report =>
    report.query = ⟨.tags .tagReport ["group"], .any⟩ ∧ report.breakdown.entries.length = 1) (by decide +kernel)
  have second := passes_of_create created (fun m => (m.run visits).roster.live.any fun report =>
    report.query = ⟨.tags .tagReport2 ["group"], .any⟩ ∧ report.breakdown.entries.length = 2) (by decide +kernel)
  obtain ⟨coarse, left, there⟩ := List.any_eq_true.mp first
  obtain ⟨fine, right, there'⟩ := List.any_eq_true.mp second
  obtain ⟨asked, single⟩ := of_decide_eq_true there
  obtain ⟨asked', two⟩ := of_decide_eq_true there'
  have coarser : coarse.query.Coarser fine.query := by
    rw [asked, asked']
    exact .tags ["group"] .any rfl (by decide)
  refine ⟨m, created, coarse, left, fine, right, asked, single, asked', two, ?_⟩
  exact (rolled visits moderate).1 coarse left fine right coarser

end Monitor

end Rollup
