import Mathlib.Data.List.Find
import Mathlib.Data.List.Nodup
import Rollup.Proofs.Columns

namespace Rollup

/-- No word has two numbers. -/
def Vocabulary.Distinct (v : Vocabulary) : Prop := v.words.Nodup

theorem Vocabulary.Distinct.learn {v w : Vocabulary} (distinct : v.Distinct) {word : String} {id : Nat}
    (learnt : v.learn word = .ok (w, id)) : w.Distinct := by
  unfold Vocabulary.learn at learnt
  split at learnt
  · cases learnt
    exact distinct
  · rename_i unknown
    split at learnt
    · cases learnt
      exact List.nodup_append.mpr ⟨distinct, List.nodup_singleton _, fun old member new isNew same =>
        List.idxOf?_eq_none_iff.mp unknown (List.mem_singleton.mp isNew ▸ same ▸ member)⟩
    · cases learnt

/-- Of distinct words only the one with the number of a word is that word. -/
theorem Vocabulary.Distinct.wordD_eq_iff {v : Vocabulary} (distinct : v.Distinct) {word : String} {id other : Nat}
    (known : v.find? word = some id) (within : other < v.size) : v.wordD other = word ↔ other = id := by
  obtain ⟨inside, same, _⟩ := List.idxOf?_eq_some_iff.mp known
  have there : v.wordD other = v.words[other] := by
    rw [wordD, word?, List.getElem?_eq_getElem within]
    rfl
  rw [there, ← same]
  exact List.Nodup.getElem_inj_iff distinct

theorem Lexicon.learnTag_distinct {lex : Lexicon} (distinct : lex.names.Distinct) (tag : String × String) :
    (lex.learnTag tag).1.names.Distinct := by
  unfold learnTag
  split
  · exact distinct
  · rename_i names name learnt
    split
    · exact distinct.learn learnt
    · exact distinct.learn learnt

theorem Lexicon.learnTags_distinct {lex : Lexicon} (distinct : lex.names.Distinct) (tags : List (String × String)) :
    (lex.learnTags tags).1.names.Distinct := by
  induction tags generalizing lex with
  | nil => exact distinct
  | cons tag rest ih => exact ih (learnTag_distinct distinct tag)

namespace Window

theorem learnTimers_distinct {lex : Lexicon} (distinct : lex.names.Distinct) (timers : List Submission.Timer) :
    (learnTimers lex timers).1.names.Distinct := by
  induction timers generalizing lex with
  | nil => exact distinct
  | cons timer rest ih => exact ih (Lexicon.learnTags_distinct distinct timer.tags)

theorem keepAll_distinct {w : Window} (distinct : w.lexicon.names.Distinct) (now : Instant) (batch : List Submission) :
    (w.keepAll now batch).lexicon.names.Distinct := by
  induction batch generalizing w with
  | nil => exact distinct
  | cons s rest ih =>
    refine ih (w := w.keep s now) ?_
    rw [keep_lexicon]
    exact Lexicon.learnTags_distinct (learnTimers_distinct distinct s.timers) s.tags

end Window

namespace Monitor

theorem Steady.run_distinct {m : Monitor} (steady : m.Steady) (distinct : m.window.lexicon.names.Distinct)
    (history : List Event) : (m.run history).window.lexicon.names.Distinct := by
  induction history generalizing m with
  | nil => exact distinct
  | cons event rest ih =>
    refine ih (steady.step event) ?_
    rcases m.step_cases event with ⟨s, _, same⟩ | ⟨now, _, same⟩ | ⟨_, roster, same⟩
    · exact same ▸ distinct
    · rw [same, (steady.merged now).window]
      refine Window.keepAll_distinct ?_ now m.pooled
      rw [Window.dropOldest_lexicon, Window.dropOldest_lexicon]
      exact distinct
    · exact same ▸ distinct

end Monitor

/-- A request whose tags all have words, in a numbering without repeats. -/
structure View.Legible (v : View) : Prop where
  names : v.lexicon.names.Distinct
  tags : ∀ tag ∈ v.record.tags, v.lexicon.Knows tag
  timerTags : ∀ timer ∈ v.timers, ∀ tag ∈ timer.tags, v.lexicon.Knows tag

theorem Window.Sound.legible {w : Window} (sound : w.Sound) (distinct : w.lexicon.names.Distinct) :
    ∀ v ∈ w.views, v.Legible := by
  intro v member
  obtain ⟨r, kept, rfl⟩ := List.mem_map.mp member
  exact ⟨distinct, sound.tags r kept, fun timer known => sound.timerTags timer (TimerRing.read_mem known)⟩

theorem View.attributeText_eq {v w : View} (same : v.reading = w.reading) :
    v.record.attributeText = w.record.attributeText := by
  funext a
  cases a with
  | script => exact congrArg Reading.script same
  | server => exact congrArg Reading.server same
  | host => exact congrArg Reading.host same
  | status => exact congrArg (fun r => Nat.repr r.status) same
  | schema => exact congrArg Reading.schema same

theorem View.ofRequest_eq {v w : View} (same : v.reading = w.reading) :
    Contribution.ofRequest v.record = .ofRequest w.record := by
  have time : v.record.time = w.record.time := congrArg Reading.time same
  have userTime : v.record.userTime = w.record.userTime := congrArg Reading.userTime same
  have systemTime : v.record.systemTime = w.record.systemTime := congrArg Reading.systemTime same
  have documentSize : v.record.documentSize = w.record.documentSize := congrArg Reading.documentSize same
  have footprint : v.record.memoryFootprint = w.record.memoryFootprint := congrArg Reading.memoryFootprint same
  rw [Contribution.ofRequest, Contribution.ofRequest, time, userTime, systemTime, documentSize, footprint]

theorem View.accepts_eq {v w : View} (same : v.reading = w.reading) (f : Filter) : f.accepts v = f.accepts w := by
  have time : v.record.time = w.record.time := congrArg Reading.time same
  have tags : v.requestTags = w.requestTags := congrArg Reading.tags same
  rw [Filter.accepts, Filter.accepts, time, tags]

namespace Grouping

/-- The values of the tags of these names, as words. -/
def wordValues? (tags : List (String × String)) (names : List String) : Option (List String) :=
  names.mapM fun name => (tags.find? (·.1 = name)).map (·.2)

theorem tagValues?_eq {v : View} (distinct : v.lexicon.names.Distinct) {tags : List Tag}
    (known : ∀ tag ∈ tags, v.lexicon.Knows tag) {names : List String} {ids : List Nat}
    (numbered : List.Forall₂ (fun name id => v.lexicon.names.find? name = some id) names ids) :
    tagValues? v tags ids = wordValues? (tags.map v.lexicon.spell) names := by
  unfold tagValues? wordValues?
  induction numbered with
  | nil => rfl
  | @cons name id names ids found _ ih =>
    have first : (Tag.lookup? tags id).map v.lexicon.values.wordD =
        ((tags.map v.lexicon.spell).find? (·.1 = name)).map (·.2) := by
      have alike : tags.find? (·.name = id) = tags.find? ((fun tag => decide (tag.1 = name)) ∘ v.lexicon.spell) := by
        refine List.find?_congr fun tag member => decide_eq_decide.mpr ?_
        exact (distinct.wordD_eq_iff found (known tag member).name).symm
      rw [Tag.lookup?, List.find?_map, ← alike, Option.map_map, Option.map_map]
      rfl
    rw [List.mapM_cons, List.mapM_cons, first, ih]

variable {v w : View} {names : List String} {ids : List Nat}

/-- What a grouping looks at, with the words of its tags. -/
theorem units_spelled (same : v.reading = w.reading) (g : Grouping) :
    (units v g).map (fun unit => (unit.1.map v.lexicon.spell, unit.2)) =
      (units w g).map fun unit => (unit.1.map w.lexicon.spell, unit.2) := by
  have tags : v.requestTags = w.requestTags := congrArg Reading.tags same
  have timers : v.timers.map v.lexicon.spellTimer = w.timers.map w.lexicon.spellTimer := congrArg Reading.timers same
  have whole := View.ofRequest_eq same
  unfold units
  split
  · rfl
  · exact congrArg₂ (fun tags c => [(tags, c)]) tags whole
  · exact congrArg₂ (fun tags c => [(tags, c)]) tags whole
  · rw [List.map_map, List.map_map]
    have spelled := congrArg (List.map fun (timer : Submission.Timer) => (timer.tags,
      Contribution.ofTimer ⟨timer.value, timer.hits, timer.userTime, timer.systemTime, []⟩)) timers
    rwa [List.map_map, List.map_map] at spelled

theorem contributions_spelled (legible : v.Legible)
    (numbered : List.Forall₂ (fun name id => v.lexicon.names.find? name = some id) names ids) (source : TagSource)
    (scope : Scope) : contributions v (.byTags source ids scope) =
      ((units v (.byTags source ids scope)).map fun unit => (unit.1.map v.lexicon.spell, unit.2)).filterMap fun unit =>
        (wordValues? unit.1 names).map fun values => (Scope.key scope v.record values, unit.2) := by
  rw [contributions_units, List.filterMap_map]
  refine List.filterMap_congr fun unit inside => ?_
  have known : ∀ tag ∈ unit.1, v.lexicon.Knows tag := by
    rcases mem_units inside with rfl | ⟨timer, known, rfl⟩
    · exact legible.tags
    · exact legible.timerTags timer known
  rw [tagValues?_eq legible.names known numbered]
  rfl

/-- What a report finds in a request depends on what the request reads as, and
not on how its words are numbered. -/
theorem contributions_eq (left : v.Legible) (right : w.Legible) (same : v.reading = w.reading) {q : Query}
    {g : Grouping} (grouped : q.grouping v.lexicon.names = .ok g) (grouped' : q.grouping w.lexicon.names = .ok g) :
    contributions v g = contributions w g := by
  have whole := View.ofRequest_eq same
  have texts := View.attributeText_eq same
  have scopes (scope : Scope) (values : List String) :
      Scope.key scope v.record values = Scope.key scope w.record values := by
    have script : v.record.script = w.record.script := congrFun texts .script
    have server : v.record.server = w.record.server := congrFun texts .server
    have host : v.record.host = w.record.host := congrFun texts .host
    cases scope <;> simp only [Scope.key, script, server, host]
  obtain ⟨subject, f⟩ := q
  cases subject with
  | standard report =>
    cases grouped
    rcases Query.standard_grouping report with ⟨_, totals⟩ | ⟨_, attributes⟩
    · rw [totals]
      rfl
    · rw [attributes, contributions, contributions, texts, whole]
  | tags kind names =>
    obtain ⟨ids, numbered, _, rfl⟩ := Query.grouping_tags grouped
    obtain ⟨ids', numbered', _, alike⟩ := Query.grouping_tags grouped'
    cases alike
    rw [contributions_spelled left numbered, contributions_spelled right numbered', units_spelled same]
    simp only [scopes]

end Grouping

/-- What is the same of two lists, one by one, may make something else the same. -/
theorem map_eq_map {α β γ δ : Type} {f : α → γ} {f' : β → γ} {g : α → δ} {g' : β → δ} {left : List α} {right : List β}
    (same : left.map f = right.map f') (each : ∀ a ∈ left, ∀ b ∈ right, f a = f' b → g a = g' b) :
    left.map g = right.map g' := by
  induction left generalizing right with
  | nil =>
    cases right with
    | nil => rfl
    | cons b rest => cases same
  | cons a rest ih =>
    cases right with
    | nil => cases same
    | cons b others =>
      obtain ⟨front, back⟩ := List.cons.inj same
      rw [List.map_cons, List.map_cons, each a List.mem_cons_self b List.mem_cons_self front,
        ih back fun c inside d inside' => each c (List.mem_cons_of_mem a inside) d (List.mem_cons_of_mem b inside')]

namespace Part

/-- A part without the number of its request. -/
def unnumbered (p : Part) : Option BucketKey × Contribution := (p.key, p.contribution)

theorem total_unnumbered {ps qs : List Part} (same : ps.map unnumbered = qs.map unnumbered) (scale : Scale)
    (q : Quantity) : total scale ps q = total scale qs q := by
  have contributions := congrArg (List.map Prod.snd) same
  rw [List.map_map, List.map_map] at contributions
  exact congrArg (Contribution.total scale · q) contributions

theorem into_unnumbered {ps qs : List Part} (same : ps.map unnumbered = qs.map unnumbered) (key : BucketKey) :
    (into ps key).map unnumbered = (into qs key).map unnumbered := by
  have filtered := congrArg (List.filter fun e => e.1 = some key) same
  rw [List.filter_map, List.filter_map] at filtered
  exact filtered

end Part

namespace Grouping

theorem parts_unnumbered {v w : View} (left : v.Legible) (right : w.Legible) (same : v.reading = w.reading) {q : Query}
    {g : Grouping} (grouped : q.grouping v.lexicon.names = .ok g) (grouped' : q.grouping w.lexicon.names = .ok g)
    (f : Filter) : (g.parts f v).map Part.unnumbered = (g.parts f w).map Part.unnumbered := by
  unfold parts
  rw [View.accepts_eq same]
  split
  · split
    · exact congrArg (fun c => [(none, c)]) (View.ofRequest_eq same)
    · rw [contributions_eq left right same grouped grouped', List.map_map, List.map_map]
      rfl
  · rfl

end Grouping

namespace Breakdown

/-- It makes no difference how the requests are numbered. -/
theorem Holds.renumber {b : Breakdown} {ps qs : List Part} (holds : b.Holds ps)
    (same : ps.map Part.unnumbered = qs.map Part.unnumbered) : b.Holds qs where
  formed := holds.formed
  placed q member := by
    have there : q.unnumbered ∈ ps.map Part.unnumbered := same ▸ List.mem_map_of_mem member
    obtain ⟨p, known, equal⟩ := List.mem_map.mp there
    obtain ⟨key, contribution⟩ := Prod.mk.inj equal
    have placed := holds.placed p known
    exact ⟨rfl, contribution ▸ placed.single, key ▸ placed.accepted⟩
  totals q := (holds.totals q).trans (Part.total_unnumbered same b.scale q)
  buckets key q := (holds.buckets key q).trans (Part.total_unnumbered (Part.into_unnumbered same key) b.scale q)
  missing key := by
    rw [holds.missing key, ← List.map_eq_nil_iff (f := Part.unnumbered), Part.into_unnumbered same key,
      List.map_eq_nil_iff]

theorem partsOf_unnumbered {b : Breakdown} {w w' : Window} {q : Query} (left : ∀ v ∈ w.views, v.Legible)
    (right : ∀ v ∈ w'.views, v.Legible) (grouped : q.grouping w.lexicon.names = .ok b.grouping)
    (grouped' : q.grouping w'.lexicon.names = .ok b.grouping)
    (readings : w.views.map View.reading = w'.views.map View.reading) :
    (b.partsOf w.views).map Part.unnumbered = (b.partsOf w'.views).map Part.unnumbered := by
  rw [partsOf, partsOf, List.map_flatMap, List.map_flatMap, List.flatMap_def, List.flatMap_def]
  refine congrArg List.flatten (map_eq_map readings fun v known v' known' same => ?_)
  rw [← Window.view_lexicon known] at grouped
  rw [← Window.view_lexicon known'] at grouped'
  exact Grouping.parts_unnumbered (left v known) (right v' known') same grouped grouped' _

end Breakdown

/-- All that can be seen of a report: what it is about, its totals and its
buckets. -/
def Report.figures (r : Report) : Report × Summary × List (BucketKey × Summary × List String) :=
  (r.cleared, r.breakdown.totals, r.breakdown.contents)

namespace Monitor

/-- Every live report is what its query asks for and amounts to the requests of
the window. -/
structure Faithful (m : Monitor) : Prop where
  sound : m.Sound
  distinct : m.window.lexicon.names.Distinct
  described : m.Described
  mirrors : ∀ report ∈ m.roster.live, report.breakdown.Mirrors m.window.views m.window.nextId

theorem run_faithful {settings : Settings} (fit : settings.check = .ok ()) {now : Instant} {m : Monitor}
    (created : create settings now = .ok m) {history : List Event}
    (moderate : Submission.Moderate (submitted history)) : (m.run history).Faithful := by
  obtain ⟨sound, draws, start⟩ := create_start created
  have steady := (create_obeys fit created).steady
  have distinct : m.window.lexicon.names.Distinct := by
    obtain ⟨scale, rfl⟩ := create_eq created
    exact List.nodup_nil
  refine ⟨run_sound sound history, steady.run_distinct distinct history,
    (create_described created).run steady sound history, fun report member => ?_⟩
  exact run_mirrors sound start history report member (holdableThroughout sound draws moderate report.serial)

/-- Where the same requests are kept, reports about the same show the same. -/
theorem Faithful.figures_eq {m m' : Monitor} (left : m.Faithful) (right : m'.Faithful)
    (readings : m.window.views.map View.reading = m'.window.views.map View.reading)
    (reports : m.roster.live.map Report.cleared = m'.roster.live.map Report.cleared) :
    m.roster.live.map Report.figures = m'.roster.live.map Report.figures := by
  refine map_eq_map reports fun report live report' live' same => ?_
  have query : report'.query = report.query := congrArg (fun r => r.query) same.symm
  have alike := Report.alike_of_cleared same.symm
  have parts : (report.breakdown.partsOf m.window.views).map Part.unnumbered =
      (report'.breakdown.partsOf m'.window.views).map Part.unnumbered := by
    rw [alike.partsOf_eq]
    refine Breakdown.partsOf_unnumbered (left.sound.window.legible left.distinct)
      (right.sound.window.legible right.distinct) (left.described.live report live).grouping ?_ readings
    rw [← query, ← alike.grouping]
    exact (right.described.live report' live').grouping
  obtain ⟨totals, contents⟩ := ((left.mirrors report live).holds.renumber parts).agree
    (right.mirrors report' live').holds (.refl _) alike
  rw [Report.figures, Report.figures, same, totals, contents]

end Monitor

end Rollup
