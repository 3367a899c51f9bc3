import Rollup.Proofs.Described
import Rollup.Proofs.Gather
import Rollup.Proofs.Key

namespace Rollup

/-- What a report keeps apart: an attribute of requests, or the values of a
tag. -/
inductive Column
  | field (a : Attribute)
  | tag (name : String)
deriving DecidableEq

namespace Column

/-- The values of some columns, out of those of all columns of a row. -/
def pick (wanted given : List Column) (values : List String) : List String :=
  wanted.map fun column => values.getD (given.idxOf column) ""

theorem pick_map {wanted given : List Column} (inside : wanted ⊆ given) (text : Column → String) :
    pick wanted given (given.map text) = wanted.map text := by
  refine List.map_congr_left fun column member => ?_
  have within : given.idxOf column < given.length := List.idxOf_lt_length_iff.mpr (inside member)
  rw [List.getD_eq_getElem?_getD, List.getElem?_map, List.getElem?_eq_getElem within, List.getElem_idxOf within]
  rfl

end Column

/-- The attributes that a scope keeps apart. -/
def Scope.attributes : Scope → List Attribute
  | .everywhere => []
  | .perScript => [.script]
  | .perScriptHostServer => [.script, .host, .server]
  | .perHost => [.host]

theorem Scope.attributes_pos {scope : Scope} (nested : scope ≠ .everywhere) : 0 < scope.attributes.length := by
  cases scope with
  | everywhere => exact absurd rfl nested
  | _ => exact Nat.succ_pos _

namespace Query

/-- What the report of a query keeps apart, in the order of its keys. -/
def columns (q : Query) : List Column :=
  match q.subject with
  | .standard report => report.attributes.map .field
  | .tags kind names => kind.scope.attributes.map .field ++ names.map .tag

/-- The key of a bucket, given the values of the columns. -/
def rowKey (q : Query) (values : List String) : BucketKey :=
  match q.subject with
  | .standard _ => .flat (Key.ofComponents values)
  | .tags kind _ =>
    if kind.scope = .everywhere then .flat (Key.ofComponents values)
    else .nested (Key.ofComponents (values.take 1)) (Key.ofComponents (values.drop 1))

/-- The key that a key of a finer report has in a coarser one: the columns
that the coarser one lacks are left out. Mere totals have no keys. -/
def project? (coarse fine : Query) (key : BucketKey) : Option BucketKey :=
  if coarse.columns = [] then none
  else some (coarse.rowKey (Column.pick coarse.columns fine.columns key.values))

/-- A report that keeps apart less of the same than another one. -/
inductive Coarser : Query → Query → Prop
  | standard {coarse fine : StandardReport} (f : Filter) :
      coarse.attributes ⊆ fine.attributes → Coarser ⟨.standard coarse, f⟩ ⟨.standard fine, f⟩
  | tags {coarse fine : TagReport} (names : List String) (f : Filter) : coarse.source = fine.source →
      coarse.scope.attributes ⊆ fine.scope.attributes → Coarser ⟨.tags coarse names, f⟩ ⟨.tags fine names, f⟩

variable {coarse fine : Query}

theorem Coarser.filter_eq (coarser : Coarser coarse fine) : coarse.filter = fine.filter := by
  cases coarser <;> rfl

theorem Coarser.columns_subset (coarser : Coarser coarse fine) : coarse.columns ⊆ fine.columns := by
  cases coarser with
  | standard _ inside => exact List.map_subset _ inside
  | tags names _ _ inside =>
    have scopes := List.subset_append_of_subset_left (names.map Column.tag) (List.map_subset Column.field inside)
    exact List.append_subset.mpr ⟨scopes, List.subset_append_right _ _⟩

theorem Coarser.columns_ne_nil (coarser : Coarser coarse fine) (some : coarse.columns ≠ []) : fine.columns ≠ [] :=
  fun none => some (List.subset_nil.mp (none ▸ coarser.columns_subset))

/-- A query by tags names one. -/
def Named (q : Query) : Prop := ∀ kind names, q.subject = .tags kind names → names ≠ []

theorem named_of_grouping {q : Query} {tags : Vocabulary} {g : Grouping} (grouped : q.grouping tags = .ok g) :
    q.Named := by
  rintro kind names same
  obtain ⟨subject, f⟩ := q
  cases same
  obtain ⟨_, _, some, _⟩ := grouping_tags grouped
  exact some

/-- A key is made of a row of values, with a group where the scope has an
attribute for it. -/
theorem rowKey_ofRow (q : Query) : ∃ grouped, (∀ values, q.rowKey values = .ofRow grouped values) ∧
    (q.Named → q.columns ≠ [] → ∀ text : Column → String, BucketKey.Names grouped (q.columns.map text)) := by
  have flat (some : q.columns ≠ []) (text : Column → String) : BucketKey.Names false (q.columns.map text) := by
    unfold BucketKey.Names
    rw [List.length_map]
    exact List.length_pos_of_ne_nil some
  obtain ⟨subject, f⟩ := q
  cases subject with
  | standard report => exact ⟨false, fun _ => rfl, fun _ => flat⟩
  | tags kind names =>
    by_cases everywhere : kind.scope = .everywhere
    · exact ⟨false, fun _ => if_pos everywhere, fun _ => flat⟩
    · refine ⟨true, fun _ => if_neg everywhere, fun named _ text => ?_⟩
      have tagged := List.length_pos_of_ne_nil (named kind names rfl)
      have kept := Scope.attributes_pos everywhere
      unfold BucketKey.Names columns
      simp only [List.length_map, List.length_append, if_true]
      omega

/-- The values of the columns can be read off the key. -/
theorem values_rowKey {q : Query} (named : q.Named) (some : q.columns ≠ []) (text : Column → String) :
    (q.rowKey (q.columns.map text)).values = q.columns.map text := by
  obtain ⟨grouped, same, names⟩ := q.rowKey_ofRow
  rw [same]
  exact BucketKey.values_ofRow (names named some text)

theorem Coarser.project?_rowKey (coarser : Coarser coarse fine) (named : fine.Named) (some : coarse.columns ≠ [])
    (text : Column → String) :
    coarse.project? fine (fine.rowKey (fine.columns.map text)) = .some (coarse.rowKey (coarse.columns.map text)) := by
  rw [project?, if_neg some, values_rowKey named (coarser.columns_ne_nil some), Column.pick_map coarser.columns_subset]

end Query

/-- What a request, or a timer of it with some tags, has in a column. -/
def View.text (v : View) (tags : List Tag) : Column → String
  | .field a => v.record.attributeText a
  | .tag name => ((v.lexicon.names.find? name).bind (Tag.lookup? tags)).elim "" v.lexicon.values.wordD

namespace Grouping

theorem map_tagWord {v : View} (tags : List Tag) {names : List String} {ids : List Nat}
    (numbered : List.Forall₂ (fun name id => v.lexicon.names.find? name = some id) names ids) :
    ids.map (v.tagWord tags) = names.map fun name => v.text tags (.tag name) := by
  induction numbered with
  | nil => rfl
  | cons known _ ih =>
    rw [List.map_cons, List.map_cons, ih, View.text, known]
    rfl

/-- What tags are found in does not depend on the scope. -/
theorem contributions_tags (v : View) (source : TagSource) {names : List String} {ids : List Nat}
    (numbered : List.Forall₂ (fun name id => v.lexicon.names.find? name = some id) names ids) :
    ∃ pieces : List (List Tag × Contribution), ∀ scope, contributions v (.byTags source ids scope) =
      pieces.map fun p => (Scope.key scope v.record (names.map fun name => v.text p.1 (.tag name)), p.2) := by
  refine ⟨(units v (.byTags source ids .everywhere)).filter fun unit => ids.all fun id => unit.1.any (·.name = id),
    fun scope => ?_⟩
  have scopeless : units v (.byTags source ids scope) = units v (.byTags source ids .everywhere) := by
    cases source <;> rfl
  rw [contributions_words, scopeless]
  simp only [map_tagWord _ numbered]

end Grouping

namespace Query

/-- The key that a request, or a timer of it with some tags, has in the report
of a query. -/
def keyFor (q : Query) (v : View) (tags : List Tag) : BucketKey := q.rowKey (q.columns.map (v.text tags))

theorem scope_key (kind : TagReport) (names : List String) (f : Filter) (v : View) (tags : List Tag) :
    Grouping.Scope.key kind.scope v.record (names.map fun name => v.text tags (.tag name)) =
      keyFor ⟨.tags kind names, f⟩ v tags := by
  rw [keyFor, columns, List.map_append, List.map_map, List.map_map]
  cases kind <;> rfl

theorem standard_grouping (report : StandardReport) :
    report.attributes = [] ∧ report.grouping = .totals ∨
      report.attributes ≠ [] ∧ report.grouping = .byAttributes report.attributes := by
  unfold StandardReport.grouping Grouping.ofAttributes
  cases report.attributes with
  | nil => exact Or.inl ⟨rfl, rfl⟩
  | cons first rest => exact Or.inr ⟨List.cons_ne_nil _ _, rfl⟩

theorem standard_contributions {report : StandardReport} (some : report.attributes ≠ []) (f : Filter) (v : View) :
    Grouping.contributions v report.grouping =
      [(keyFor ⟨.standard report, f⟩ v [], .ofRequest v.record)] := by
  rcases standard_grouping report with ⟨none, _⟩ | ⟨_, grouping⟩
  · exact absurd none some
  · rw [grouping, keyFor, columns, List.map_map]
    rfl

/-- A coarser report finds the same in a request as a finer one, under the
keys with fewer columns. -/
theorem Coarser.contributions {coarse fine : Query} (coarser : Coarser coarse fine) {v : View} {g h : Grouping}
    (left : coarse.grouping v.lexicon.names = .ok g) (right : fine.grouping v.lexicon.names = .ok h)
    (some : coarse.columns ≠ []) : ∃ pieces : List (List Tag × Contribution),
      Grouping.contributions v g = pieces.map (fun p => (coarse.keyFor v p.1, p.2)) ∧
      Grouping.contributions v h = pieces.map fun p => (fine.keyFor v p.1, p.2) := by
  cases coarser with
  | @standard coarse fine f inside =>
    cases left
    cases right
    have someCoarse : coarse.attributes ≠ [] := fun none => some (congrArg (List.map Column.field) none)
    have someFine : fine.attributes ≠ [] := fun none => someCoarse (List.subset_nil.mp (none ▸ inside))
    exact ⟨[([], .ofRequest v.record)], standard_contributions someCoarse f v, standard_contributions someFine f v⟩
  | @tags coarse fine names f source inside =>
    obtain ⟨ids, numbered, _, rfl⟩ := grouping_tags left
    obtain ⟨ids', numbered', _, rfl⟩ := grouping_tags right
    have one : Relator.RightUnique fun (name : String) (id : Nat) => v.lexicon.names.find? name = .some id :=
      fun _ _ _ known known' => Option.some.inj (known.symm.trans known')
    have same : ids' = ids := one.forall₂ numbered' numbered
    obtain ⟨pieces, found⟩ := Grouping.contributions_tags v coarse.source numbered
    refine ⟨pieces, ?_, ?_⟩
    · simp only [← scope_key]
      exact found coarse.scope
    · simp only [← scope_key, same, ← source]
      exact found fine.scope

end Query

end Rollup
