import Rollup.Proofs.Except
import Rollup.Proofs.Split
import Rollup.Query.Id

namespace Rollup

namespace Duration

theorem millis_ofMillis {n : Nat} (short : n ≤ Query.longestMillis) : (ofMillis n).millis = n := by
  have fits : n * 1000000 ≤ cap := by
    unfold Query.longestMillis at short
    unfold cap
    omega
  have nanos : (ofMillis n).val = n * 1000000 := Nat.min_eq_left fits
  rw [millis, nanos, Nat.mul_div_cancel n (by decide)]

theorem ofMillis_eq_zero_iff {n : Nat} : ofMillis n = 0 ↔ n = 0 := by
  have nanos : (ofMillis n).val = min (n * 1000000) cap := rfl
  rw [Capped.ext_iff, nanos, Capped.val_zero]
  unfold cap
  omega

end Duration

namespace Filter

@[simp] theorem minTime_withMin (f : Filter) (d : Duration) : (f.withMin d).minTime = bound d := rfl

@[simp] theorem maxTime_withMin (f : Filter) (d : Duration) : (f.withMin d).maxTime = f.maxTime := rfl

@[simp] theorem tags_withMin (f : Filter) (d : Duration) : (f.withMin d).tags = f.tags := rfl

@[simp] theorem minTime_withMax (f : Filter) (d : Duration) : (f.withMax d).minTime = f.minTime := rfl

@[simp] theorem maxTime_withMax (f : Filter) (d : Duration) : (f.withMax d).maxTime = bound d := rfl

@[simp] theorem tags_withMax (f : Filter) (d : Duration) : (f.withMax d).tags = f.tags := rfl

theorem withMin_withMax (f : Filter) (min max : Duration) :
    (f.withMin min).withMax max = (f.withMax max).withMin min := rfl

theorem withMin_requireTag (f : Filter) (min : Duration) (name value : String) :
    (f.withMin min).requireTag name value = (f.requireTag name value).withMin min := rfl

theorem withMax_requireTag (f : Filter) (max : Duration) (name value : String) :
    (f.withMax max).requireTag name value = (f.requireTag name value).withMax max := rfl

theorem requireTag_comm (f : Filter) {name other : String} (apart : name ≠ other) (value second : String) :
    (f.requireTag name value).requireTag other second = (f.requireTag other second).requireTag name value := by
  have tags : (f.tags.insert name value).insert other second = (f.tags.insert other second).insert name value := by
    apply SortedMap.ext_find?
    intro k
    simp only [SortedMap.find?_insert]
    grind
  exact congrArg (fun tags => { f with tags := tags }) tags

/-- Some time lies within the bounds. -/
def Ordered (f : Filter) : Prop := ∀ min ∈ f.minTime, ∀ max ∈ f.maxTime, min ≤ max

theorem check_eq_ok_iff {f : Filter} : f.check = .ok () ↔ f.Ordered := by
  obtain ⟨min, max, tags⟩ := f
  unfold check Ordered
  cases min with
  | none => simp
  | some min =>
    cases max with
    | none => simp
    | some max =>
      simp only [Option.mem_def, Option.some.injEq, forall_eq']
      split
      · rename_i inverted
        refine ⟨fun done => (nomatch done), fun ordered => ?_⟩
        rw [Capped.le_iff] at ordered
        rw [Capped.lt_iff] at inverted
        omega
      · rename_i ordered
        rw [Capped.lt_iff] at ordered
        rw [Capped.le_iff]
        exact ⟨fun _ => by omega, fun _ => rfl⟩

theorem bound_ofMillis (n : Nat) : bound (Duration.ofMillis n) = ((some n).filter (0 < ·)).map Duration.ofMillis := by
  unfold bound
  by_cases zero : n = 0
  · rw [if_pos (Duration.ofMillis_eq_zero_iff.mpr zero), zero]
    rfl
  · have positive : decide (0 < n) = true := decide_eq_true (Nat.pos_of_ne_zero zero)
    rw [if_neg fun same => zero (Duration.ofMillis_eq_zero_iff.mp same), Option.filter_some, positive]
    rfl

end Filter

namespace Query

/-- Text that can stand in an id as the name or the value of a tag. -/
def Nameable (text : String) : Prop := text ≠ "" ∧ ∀ c ∈ text.toList, c ∉ reserved

theorem checkName_eq_ok_iff {id : String} {ifEmpty : Flaw} {name : String} :
    checkName id ifEmpty name = .ok () ↔ Nameable name := by
  unfold checkName Nameable
  split
  · rename_i empty
    exact ⟨fun done => (nomatch done), fun both => absurd (String.isEmpty_iff.mp empty) both.1⟩
  · rename_i some
    rw [String.isEmpty_iff] at some
    split
    · rename_i structural
      obtain ⟨c, member, taken⟩ := List.any_eq_true.mp structural
      exact ⟨fun done => (nomatch done), fun both => absurd (List.contains_iff_mem.mp taken) (both.2 c member)⟩
    · rename_i free
      refine ⟨fun _ => ⟨some, fun c member taken => free ?_⟩, fun _ => rfl⟩
      exact List.any_eq_true.mpr ⟨c, member, List.contains_iff_mem.mpr taken⟩

theorem Nameable.free {text : String} (nameable : Nameable text) {c : Char} (taken : c ∈ reserved) : c ∉ text.toList :=
  fun member => nameable.2 c member taken

/-- The text in front of the question mark, for each subject. -/
inductive Names : String → Subject → Prop
  | standard {report : StandardReport} : report ∈ StandardReport.all → Names report.id (.standard report)
  | tags (kind : TagReport) {names : List String} : names ≠ [] → (∀ name ∈ names, Nameable name) →
      Names (kind.name ++ ":" ++ ",".intercalate names) (.tags kind names)

theorem standard_id_free : ∀ report ∈ StandardReport.all, ':' ∉ report.id.toList ∧ '?' ∉ report.id.toList := by
  decide

theorem find?_standard_id : ∀ report ∈ StandardReport.all, StandardReport.find? report.id = some report := by
  decide

theorem kind_name_free (kind : TagReport) : ':' ∉ kind.name.toList ∧ '?' ∉ kind.name.toList := by
  cases kind <;> decide

theorem find?_kind_eq_some_iff {name : String} {kind : TagReport} :
    TagReport.find? name = some kind ↔ kind.name = name := by
  constructor
  · intro found
    have passed := List.find?_some found
    exact of_decide_eq_true passed
  · rintro rfl
    cases kind <;> decide

theorem ofStandardId_eq_ok_iff {id : String} {q : Query} :
    ofStandardId id = .ok q ↔ ∃ report ∈ StandardReport.all, id = report.id ∧ q = ofStandard report := by
  unfold ofStandardId
  constructor
  · intro done
    split at done
    · rename_i report found
      cases done
      have passed := List.find?_some found
      exact ⟨report, List.mem_of_find?_eq_some found, (of_decide_eq_true passed).symm, rfl⟩
    · cases done
  · rintro ⟨report, member, rfl, rfl⟩
    rw [find?_standard_id report member]

theorem ofTags_eq_ok_iff {kind : TagReport} {names : List String} {q : Query} :
    ofTags kind names = .ok q ↔ names ≠ [] ∧ (∀ name ∈ names, Nameable name) ∧ q = ⟨.tags kind names, .any⟩ := by
  have checked : names.forM (checkName kind.name .emptyTagName) = .ok () ↔ ∀ name ∈ names, Nameable name := by
    simp only [forM_eq_ok_iff, checkName_eq_ok_iff]
  unfold ofTags
  split
  · rename_i fault refused
    rw [refused] at checked
    exact ⟨fun done => (nomatch done), fun both => (nomatch checked.mpr both.2.1)⟩
  · rename_i passed
    rw [passed] at checked
    split
    · rename_i none
      exact ⟨fun done => (nomatch done), fun both => absurd (List.isEmpty_iff.mp none) both.1⟩
    · rename_i some
      rw [List.isEmpty_iff] at some
      rw [Except.ok.injEq, eq_comm]
      exact ⟨fun same => ⟨some, checked.mp rfl, same⟩, fun all => all.2.2⟩

/-- No subject has a question mark in its path. -/
theorem Names.free {path : String} {subject : Subject} (names : Names path subject) : '?' ∉ path.toList := by
  cases names with
  | standard member => exact (standard_id_free _ member).2
  | @tags kind names _ nameable =>
    intro member
    rw [String.toList_append, String.toList_append] at member
    rcases List.mem_append.mp member with front | inNames
    · rcases List.mem_append.mp front with inKind | colon
      · exact (kind_name_free kind).2 inKind
      · exact absurd colon (by decide)
    · rcases Text.mem_intercalate inNames with comma | ⟨name, known, inside⟩
      · exact absurd comma (by decide)
      · exact (nameable name known).free (by decide) inside

theorem cut?_tags (kind : TagReport) (names : String) :
    Text.cut? ':' (kind.name ++ ":" ++ names) = some (kind.name, names) :=
  Text.cut?_eq_some_iff.mpr ⟨(kind_name_free kind).1, by simp⟩

/-- Names that can stand in an id are found again in a list of them. -/
theorem fields_names {names : List String} (some : names ≠ []) (nameable : ∀ name ∈ names, Nameable name) :
    ",".intercalate names ≠ "" ∧ Text.fields ',' (",".intercalate names) = names := by
  have free (name : String) (known : name ∈ names) : ',' ∉ name.toList := (nameable name known).free (by decide)
  exact ⟨Text.intercalate_ne_empty some (fun name known => (nameable name known).1) free,
    Text.fields_eq_iff.mpr ⟨some, free, rfl⟩⟩

theorem parsePath_eq_ok_iff {id path : String} {q : Query} :
    parsePath id path = .ok q ↔ Names path q.subject ∧ q.filter = .any := by
  constructor
  · intro done
    unfold parsePath at done
    split at done
    · obtain ⟨report, member, rfl, rfl⟩ := ofStandardId_eq_ok_iff.mp done
      exact ⟨.standard member, rfl⟩
    · rename_i name tags cut
      obtain ⟨_, split⟩ := Text.cut?_eq_some_iff.mp cut
      split at done
      · cases done
      · rename_i kind known
        split at done
        · cases done
        · split at done
          · cases done
          · obtain ⟨some, nameable, rfl⟩ := ofTags_eq_ok_iff.mp done
            have joined : tags = ",".intercalate (Text.fields ',' tags) := (Text.fields_eq_iff.mp rfl).2.2
            have whole : path = kind.name ++ ":" ++ ",".intercalate (Text.fields ',' tags) := by
              rw [← joined, ← String.toList_inj, split, find?_kind_eq_some_iff.mp known]
              simp
            rw [whole]
            exact ⟨.tags kind some nameable, rfl⟩
  · rintro ⟨names, any⟩
    obtain ⟨subject, filter⟩ := q
    cases any
    unfold parsePath
    cases names with
    | standard member =>
      rw [Text.cut?_eq_none_iff.mpr (standard_id_free _ member).1]
      exact ofStandardId_eq_ok_iff.mpr ⟨_, member, rfl, rfl⟩
    | @tags kind names some nameable =>
      obtain ⟨filled, fields⟩ := fields_names some nameable
      have checked : names.forM (checkName id .emptyTagName) = .ok () := by
        simpa only [forM_eq_ok_iff, checkName_eq_ok_iff] using nameable
      rw [cut?_tags]
      dsimp only
      rw [find?_kind_eq_some_iff.mpr rfl]
      dsimp only
      rw [if_neg (by rwa [String.isEmpty_iff]), fields, checked]
      exact ofTags_eq_ok_iff.mpr ⟨some, nameable, rfl⟩

end Query

end Rollup
