import Rollup.Proofs.Grammar

namespace Rollup.Query

/-- The queries that can be made: from the parts of a query, or from an id. -/
inductive Made : Query → Prop
  | standard {id : String} {q : Query} : ofStandardId id = .ok q → Made q
  | tags {kind : TagReport} {names : List String} {q : Query} : ofTags kind names = .ok q → Made q
  | filtered {q r : Query} {f : Filter} : Made q → q.withFilter f = .ok r → Made r
  | read {id : String} {q : Query} : parse id = .ok q → Made q

/-- A query that says nothing an id can't say. -/
structure Proper (q : Query) : Prop where
  subject : Names (subjectPath q.subject) q.subject
  filter : Carried q.filter
  ordered : q.filter.Ordered

theorem Names.proper {path : String} {subject : Subject} (names : Names path subject) :
    Names (subjectPath subject) subject := by
  cases names with
  | standard member => exact .standard member
  | tags kind some nameable => exact .tags kind some nameable

theorem carried_any : Carried .any where
  minTime _ member := nomatch member
  maxTime _ member := nomatch member
  tags _ member := nomatch member

theorem carried_normalized {f : Filter} (tags : ∀ tag ∈ f.tags.entries, Nameable tag.1 ∧ Nameable tag.2) :
    Carried (normalized f) where
  minTime := whole_normalized f.minTime
  maxTime := whole_normalized f.maxTime
  tags := tags

theorem Spells.proper {id : String} {q : Query} (spells : Spells id q) : q.Proper := by
  cases spells with
  | plain names => exact ⟨names.proper, carried_any, any_ordered⟩
  | filtered names written conditions ordered =>
    exact ⟨names.proper, conditions.carried (written_of_forall₂ written).1, ordered⟩

theorem Made.proper {q : Query} (made : Made q) : q.Proper := by
  induction made with
  | standard done =>
    obtain ⟨report, member, _, rfl⟩ := ofStandardId_eq_ok_iff.mp done
    exact ⟨.standard member, carried_any, any_ordered⟩
  | tags done =>
    obtain ⟨some, nameable, rfl⟩ := ofTags_eq_ok_iff.mp done
    exact ⟨.tags _ some nameable, carried_any, any_ordered⟩
  | filtered _ done before =>
    obtain ⟨_, tags, ordered, rfl⟩ := withFilter_eq_ok_iff.mp done
    exact ⟨before.subject, carried_normalized tags, ordered⟩
  | read done => exact (parse_eq_ok_iff.mp done).proper

theorem numeral_repr {n : Nat} (short : n ≤ longestMillis) : Numeral (Nat.repr n) n where
  digits := by
    refine ⟨Nat.toDigits 10 n, ?_, fun c member => ?_, ?_, Or.inl Nat.toList_repr⟩
    · exact Nat.toDigits_ne_nil
    · exact Nat.isDigit_of_mem_toDigits (by decide) (by decide) member
    · exact Nat.ofDigitChars_ten_toDigits.symm
  short := short

/-- The parameters that say what a filter says. -/
def parametersOf (f : Filter) : List Parameter :=
  f.minTime.toList.map (fun d => .min d.millis) ++ f.maxTime.toList.map (fun d => .max d.millis) ++
    f.tags.entries.map fun tag => .tag tag.1 tag.2

theorem Whole.millis {bound : Option Duration} (whole : Whole bound) :
    (bound.map Duration.millis).filter (0 < ·) = bound.map Duration.millis ∧
      (bound.map Duration.millis).map Duration.ofMillis = bound ∧ ∀ d ∈ bound, d.millis ≤ longestMillis := by
  cases bound with
  | none => exact ⟨rfl, rfl, fun _ member => (nomatch member)⟩
  | some d =>
    obtain ⟨n, positive, short, rfl⟩ := whole d rfl
    have same := Duration.millis_ofMillis short
    refine ⟨?_, ?_, ?_⟩
    · rw [Option.map_some, same, Option.filter_some, decide_eq_true positive]
      rfl
    · rw [Option.map_some, same]
      rfl
    · rintro _ ⟨⟩
      rwa [same]

theorem Carried.written {f : Filter} (carried : Carried f) :
    List.Forall₂ Parameter.Writes (parametersOf f) (parameters f) := by
  have bound (key : String) (bound : Option Duration) (p : Nat → Parameter)
      (writes : ∀ d ∈ bound, (p d.millis).Writes (key ++ "=" ++ Nat.repr d.millis)) :
      List.Forall₂ Parameter.Writes (bound.toList.map fun d => p d.millis) (boundParameter key bound) := by
    cases bound with
    | none => exact .nil
    | some d => exact .cons (writes d rfl) .nil
  refine List.rel_append (List.rel_append ?_ ?_) ?_
  · refine bound "min" f.minTime .min fun d member => ?_
    exact ⟨_, .min (numeral_repr (carried.minTime.millis.2.2 d member)), rfl⟩
  · refine bound "max" f.maxTime .max fun d member => ?_
    exact ⟨_, .max (numeral_repr (carried.maxTime.millis.2.2 d member)), rfl⟩
  · rw [List.forall₂_map_left_iff, List.forall₂_map_right_iff, List.forall₂_same]
    intro tag member
    obtain ⟨nameable, valuable⟩ := carried.tags tag member
    exact ⟨tag.2, .tag nameable valuable, rfl⟩

theorem Parameter.last_eq_none {α : Type} {read : Parameter → Option α} {ps : List Parameter}
    (silent : ∀ p ∈ ps, read p = none) : last read ps = none := by
  have nothing : ps.filterMap read = [] := List.filterMap_eq_nil_iff.mpr silent
  rw [last, nothing]
  rfl

/-- Where no two parameters say different things, what any of them says is
what the last one says. -/
theorem Parameter.last_of_agree {α : Type} {read : Parameter → Option α} {ps : List Parameter} {p : Parameter} {a : α}
    (agree : ∀ q ∈ ps, ∀ b, read q = some b → b = a) (member : p ∈ ps) (told : read p = some a) :
    last read ps = some a := by
  cases said : last read ps with
  | none =>
    have nothing := List.getLast?_eq_none_iff.mp said
    rw [List.filterMap_eq_nil_iff.mp nothing p member] at told
    cases told
  | some b =>
    obtain ⟨q, other, tells⟩ := Parameter.last_eq_some said
    rw [agree q other b tells]

theorem last_bound {read : Parameter → Option Nat} {p : Nat → Parameter} (tells : ∀ n, read (p n) = some n)
    (bound : Option Duration) :
    Parameter.last read (bound.toList.map fun d => p d.millis) = bound.map Duration.millis := by
  cases bound with
  | none => rfl
  | some d =>
    refine Parameter.last_of_agree (fun q member b told => ?_) (List.mem_singleton.mpr rfl) (tells _)
    cases List.mem_singleton.mp member
    exact Option.some.inj (told.symm.trans (tells _))

theorem last_tags (tags : SortedMap String String) (name : String) :
    Parameter.last (Parameter.value? name) (tags.entries.map fun tag => .tag tag.1 tag.2) = tags.find? name := by
  have entry {p : Parameter} {value : String} (member : p ∈ tags.entries.map fun tag => Parameter.tag tag.1 tag.2)
      (told : p.value? name = some value) : tags.find? name = some value := by
    obtain ⟨tag, known, rfl⟩ := List.mem_map.mp member
    obtain ⟨rfl, same⟩ := Option.ite_none_right_eq_some.mp told
    cases same
    exact SortedMap.find?_eq_some_iff.mpr known
  cases found : tags.find? name with
  | none =>
    refine Parameter.last_eq_none fun p member => Option.eq_none_iff_forall_ne_some.mpr fun value told => ?_
    rw [entry member told] at found
    cases found
  | some value =>
    have known := SortedMap.find?_eq_some_iff.mp found
    refine Parameter.last_of_agree (fun q member other told => ?_) (List.mem_map.mpr ⟨_, known, rfl⟩) (if_pos rfl)
    exact Option.some.inj ((entry member told).symm.trans found)

theorem Carried.conditions {f : Filter} (carried : Carried f) : Conditions (parametersOf f) f := by
  have quiet {α : Type} (read : Parameter → Option α) (bound : Option Duration) (p : Nat → Parameter)
      (silent : ∀ n, read (p n) = none) : Parameter.last read (bound.toList.map fun d => p d.millis) = none := by
    refine Parameter.last_eq_none fun q member => ?_
    obtain ⟨d, _, rfl⟩ := List.mem_map.mp member
    exact silent d.millis
  have silentTags (read : Parameter → Option Nat) (silent : ∀ name value, read (.tag name value) = none) :
      Parameter.last read (f.tags.entries.map fun tag => .tag tag.1 tag.2) = none := by
    refine Parameter.last_eq_none fun q member => ?_
    obtain ⟨tag, _, rfl⟩ := List.mem_map.mp member
    exact silent tag.1 tag.2
  obtain ⟨keptMin, sameMin, _⟩ := carried.minTime.millis
  obtain ⟨keptMax, sameMax, _⟩ := carried.maxTime.millis
  refine ⟨?_, ?_, fun name => ?_⟩ <;> rw [parametersOf, Parameter.last_append, Parameter.last_append]
  · rw [silentTags _ fun _ _ => rfl, quiet _ f.maxTime .max fun _ => rfl, last_bound (fun _ => rfl), Option.none_or,
      Option.none_or, keptMin, sameMin]
  · rw [silentTags _ fun _ _ => rfl, quiet _ f.minTime .min fun _ => rfl, last_bound (fun _ => rfl), Option.none_or,
      Option.or_none, keptMax, sameMax]
  · rw [last_tags, quiet _ f.minTime .min fun _ => rfl, quiet _ f.maxTime .max fun _ => rfl, Option.or_none,
      Option.or_none]

theorem Proper.spells {q : Query} (proper : q.Proper) : Spells q.id q := by
  obtain ⟨subject, f⟩ := q
  have written := proper.filter.written
  have conditions := proper.filter.conditions
  unfold id
  split
  · rename_i none
    rw [none] at written
    have nothing : parametersOf f = [] := List.forall₂_nil_right_iff.mp written
    rw [nothing] at conditions
    cases conditions_iff.mp conditions
    exact .plain proper.subject
  · exact .filtered proper.subject written conditions proper.ordered

theorem Proper.parse_id {q : Query} (proper : q.Proper) : parse q.id = .ok q := parse_eq_ok_iff.mpr proper.spells

/-- The id of the query that an id stands for. -/
def canonicalId (id : String) : Except Fault String := (parse id).map Query.id

/-- Ids and queries stand for each other: the id of a query that can be made
is read as that query, and no other one has it. -/
theorem ids_are_faithful :
    (∀ q, Made q → parse q.id = .ok q) ∧ (∀ q r, Made q → Made r → q.id = r.id → q = r) ∧
      ∀ id, (do canonicalId (← canonicalId id)) = canonicalId id := by
  refine ⟨fun q made => made.proper.parse_id, fun q r made made' same => ?_, fun id => ?_⟩
  · have read := made.proper.parse_id
    rw [same, made'.proper.parse_id] at read
    exact (Except.ok.inj read).symm
  · cases read : parse id with
    | error fault =>
      rw [canonicalId, read]
      rfl
    | ok q =>
      have proper := (parse_eq_ok_iff.mp read).proper
      have once : canonicalId id = .ok q.id := by rw [canonicalId, read]; rfl
      have twice : canonicalId q.id = .ok q.id := by rw [canonicalId, proper.parse_id]; rfl
      rw [once]
      exact twice

/-- Tags with colons, dots and plus signs in their names, and bounds in whole
milliseconds. -/
def oddlyNamed : Query where
  subject := .tags .tagReport ["a:b", "tag.+"]
  filter := ⟨some (Duration.ofMillis 100), some (Duration.ofMillis 2000), SortedMap.empty.insert "c" "1"⟩

theorem oddlyNamed_id_is_faithful :
    Made oddlyNamed ∧ parse "tag_report:a:b,tag.+?min=100&max=2000&tag.c=1" = .ok oddlyNamed := by
  have plain : ofTags .tagReport ["a:b", "tag.+"] = .ok ⟨.tags .tagReport ["a:b", "tag.+"], .any⟩ := by decide
  have filtered : withFilter ⟨.tags .tagReport ["a:b", "tag.+"], .any⟩
      ⟨some (Duration.ofNanos 100900000), some (Duration.ofNanos 2000999999), SortedMap.empty.insert "c" "1"⟩ =
        .ok oddlyNamed := by decide
  have made := (Made.tags plain).filtered filtered
  exact ⟨made, ids_are_faithful.1 _ made⟩

end Rollup.Query
