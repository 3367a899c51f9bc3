import Mathlib.Algebra.Order.BigOperators.Group.List
import Mathlib.Algebra.Order.Ring.Nat
import Rollup.Proofs.Assembly
import Rollup.Proofs.Check

namespace Rollup.Submission

section Arrays

variable {α : Type} {entries part : List α} {position count : Nat} {entry : α}

theorem drop_of_getElem? (found : entries[position]? = some entry) :
    entries.drop position = entry :: entries.drop (position + 1) := by
  obtain ⟨within, rfl⟩ := List.getElem?_eq_some_iff.mp found
  exact List.drop_eq_getElem_cons within

theorem drop_of_getElem?_none (missing : entries[position]? = none) : entries.drop position = [] :=
  List.drop_eq_nil_iff.mpr (List.getElem?_eq_none_iff.mp missing)

theorem headD_drop (entries : List α) (position : Nat) (d : α) :
    (entries.drop position).headD d = entries[position]?.getD d := by
  rw [List.headD_eq_head?_getD, List.head?_drop]

theorem slice?_eq_some_iff : slice? entries position count = some part ↔
    position + count ≤ entries.length ∧ (entries.drop position).take count = part := by
  rw [slice?, Option.ite_none_right_eq_some, Option.some_inj]

theorem length_of_slice (taken : slice? entries position count = some part) : part.length = count := by
  obtain ⟨within, rfl⟩ := slice?_eq_some_iff.mp taken
  rw [List.length_take, List.length_drop]
  omega

end Arrays

section Pairs

variable {dictionary : List String}

/-- The tag that a name and a value stand for, if the dictionary has both. -/
def tagPair? (dictionary : List String) (name value : Nat) : Option (String × String) := do
  let name ← dictionary[name]?
  let value ← dictionary[value]?
  return (name, value)

theorem tagPairs_eq_filterMap (names values : List Nat) :
    tagPairs dictionary names values = (names.zip values).filterMap (Function.uncurry (tagPair? dictionary)) := rfl

theorem tagPairs_cons (name value : Nat) (names values : List Nat) :
    tagPairs dictionary (name :: names) (value :: values) =
      (tagPair? dictionary name value).toList ++ tagPairs dictionary names values := by
  rw [tagPairs_eq_filterMap, List.zip_cons_cons, List.filterMap_cons, Function.uncurry_apply_pair]
  cases tagPair? dictionary name value <;> rfl

/-- Where the dictionary has every word, each name and each value is in a pair. -/
theorem stand_tagPairs {names values : List Nat} (same : names.length = values.length)
    (named : ∀ index ∈ names, index < dictionary.length) (valued : ∀ index ∈ values, index < dictionary.length) :
    Stand dictionary names ((tagPairs dictionary names values).map Prod.fst) ∧
      Stand dictionary values ((tagPairs dictionary names values).map Prod.snd) := by
  induction names generalizing values with
  | nil =>
    obtain rfl := List.eq_nil_of_length_eq_zero same.symm
    exact ⟨.nil, .nil⟩
  | cons name names ih =>
    cases values with
    | nil => cases same
    | cons value values =>
      obtain ⟨atName, namesLater⟩ := List.forall_mem_cons.mp named
      obtain ⟨atValue, valuesLater⟩ := List.forall_mem_cons.mp valued
      obtain ⟨names, values⟩ := ih (Nat.succ.inj same) namesLater valuesLater
      have nameFound := List.getElem?_eq_getElem atName
      have valueFound := List.getElem?_eq_getElem atValue
      have pair : tagPair? dictionary name value = some (dictionary[name], dictionary[value]) := by
        rw [tagPair?, nameFound, valueFound]
        rfl
      rw [tagPairs_cons, pair]
      exact ⟨.cons nameFound names, .cons valueFound values⟩

end Pairs

variable {s : Submission} {k : Nat} {timer : Timer}

/-- How many tags the first `k` timers have. -/
def tagStart (s : Submission) (k : Nat) : Nat := (s.timerTagCounts.take k).sum

theorem tagStart_succ {count : Nat} (found : s.timerTagCounts[k]? = some count) :
    s.tagStart (k + 1) = s.tagStart k + count := by
  rw [tagStart, List.take_add_one, found, List.sum_append, Option.toList_some, List.sum_singleton, tagStart]

theorem tagStart_mono (s : Submission) : Monotone s.tagStart := fun _ _ le =>
  (List.take_sublist_take_left le).sum_le_sum fun _ _ => Nat.zero_le _

/-- The arrays have the tags of the first `k` timers. -/
structure TagsFit (s : Submission) (k : Nat) : Prop where
  names : s.tagStart k ≤ s.timerTagNames.length
  words : s.tagStart k ≤ s.timerTagValues.length

theorem TagsFit.mono {j : Nat} (fit : s.TagsFit k) (le : j ≤ k) : s.TagsFit j :=
  ⟨(s.tagStart_mono le).trans fit.names, (s.tagStart_mono le).trans fit.words⟩

theorem tagsFit_zero (s : Submission) : s.TagsFit 0 := ⟨Nat.zero_le _, Nat.zero_le _⟩

/-- The arrays have every entry that the timer at `k` needs. CPU times are not
needed. -/
structure HasTimer (s : Submission) (k : Nat) : Prop where
  value : k < s.timerValues.length
  hits : k < s.timerHits.length
  tagCount : k < s.timerTagCounts.length
  tags : s.TagsFit (k + 1)

theorem HasTimer.mono {j : Nat} (has : s.HasTimer k) (le : j ≤ k) : s.HasTimer j :=
  ⟨le.trans_lt has.value, le.trans_lt has.hits, le.trans_lt has.tagCount, has.tags.mono (Nat.succ_le_succ le)⟩

theorem hasTimer_of_entries {value : Duration} {hits count : Nat} (atValue : s.timerValues[k]? = some value)
    (atHits : s.timerHits[k]? = some hits) (atCount : s.timerTagCounts[k]? = some count)
    (named : s.tagStart k + count ≤ s.timerTagNames.length) (worded : s.tagStart k + count ≤ s.timerTagValues.length) :
    s.HasTimer k := by
  rw [← tagStart_succ atCount] at named worded
  exact ⟨(List.getElem?_eq_some_iff.mp atValue).1, (List.getElem?_eq_some_iff.mp atHits).1,
    (List.getElem?_eq_some_iff.mp atCount).1, named, worded⟩

/-- The timer at `k` as the arrays have it, wherever the walk gets to. -/
def timerAt? (s : Submission) (k : Nat) : Option Timer := do
  let value ← s.timerValues[k]?
  let hits ← s.timerHits[k]?
  let count ← s.timerTagCounts[k]?
  let names ← slice? s.timerTagNames (s.tagStart k) count
  let words ← slice? s.timerTagValues (s.tagStart k) count
  return {
    value, hits
    userTime := s.timerUserTimes[k]?.getD 0
    systemTime := s.timerSystemTimes[k]?.getD 0
    tags := tagPairs s.dictionary names words }

/-- What makes up the timer at `k`. -/
structure Makes (s : Submission) (k : Nat) (timer : Timer) (count : Nat) (names words : List Nat) : Prop where
  value : s.timerValues[k]? = some timer.value
  hits : s.timerHits[k]? = some timer.hits
  tagCount : s.timerTagCounts[k]? = some count
  namesTaken : slice? s.timerTagNames (s.tagStart k) count = some names
  wordsTaken : slice? s.timerTagValues (s.tagStart k) count = some words
  userTime : s.timerUserTimes[k]?.getD 0 = timer.userTime
  systemTime : s.timerSystemTimes[k]?.getD 0 = timer.systemTime
  tags : tagPairs s.dictionary names words = timer.tags

theorem makes_of_timerAt? (found : s.timerAt? k = some timer) : ∃ count names words, s.Makes k timer count names words := by
  simp only [timerAt?, Option.bind_eq_bind, Option.bind_eq_some_iff, Option.pure_def, Option.some_inj] at found
  obtain ⟨value, atValue, hits, atHits, count, atCount, names, atNames, words, atWords, rfl⟩ := found
  exact ⟨count, names, words, atValue, atHits, atCount, atNames, atWords, rfl, rfl, rfl⟩

theorem Makes.timerAt? {count : Nat} {names words : List Nat} (makes : s.Makes k timer count names words) :
    s.timerAt? k = some timer := by
  unfold Submission.timerAt?
  simp only [makes.value, makes.hits, makes.tagCount, makes.namesTaken, makes.wordsTaken, makes.userTime,
    makes.systemTime, makes.tags, Option.bind_eq_bind, Option.bind_some, Option.pure_def]

theorem Makes.hasTimer {count : Nat} {names words : List Nat} (makes : s.Makes k timer count names words) : s.HasTimer k :=
  hasTimer_of_entries makes.value makes.hits makes.tagCount (slice?_eq_some_iff.mp makes.namesTaken).1
    (slice?_eq_some_iff.mp makes.wordsTaken).1

/-- The entries that a timer needs make it up. -/
theorem HasTimer.makes (has : s.HasTimer k) : ∃ timer count names words, s.Makes k timer count names words := by
  have tagCount := List.getElem?_eq_getElem has.tagCount
  have start := tagStart_succ tagCount
  have named := slice?_eq_some_iff.mpr ⟨start ▸ has.tags.names, rfl⟩
  have worded := slice?_eq_some_iff.mpr ⟨start ▸ has.tags.words, rfl⟩
  exact ⟨⟨_, _, _, _, _⟩, _, _, _, List.getElem?_eq_getElem has.value, List.getElem?_eq_getElem has.hits, tagCount,
    named, worded, rfl, rfl, rfl⟩

theorem timerAt?_isSome_iff : (s.timerAt? k).isSome ↔ s.HasTimer k := by
  rw [Option.isSome_iff_exists]
  constructor
  · rintro ⟨timer, found⟩
    obtain ⟨count, names, words, makes⟩ := makes_of_timerAt? found
    exact makes.hasTimer
  · intro has
    obtain ⟨timer, count, names, words, makes⟩ := has.makes
    exact ⟨timer, makes.timerAt?⟩

theorem timerAt?_eq_none (lacking : ¬s.HasTimer k) : s.timerAt? k = none := by
  rwa [← timerAt?_isSome_iff, Option.not_isSome_iff_eq_none] at lacking

/-- What the walk makes of the arrays behind the first `k` timers. -/
def timersFrom (s : Submission) (k : Nat) : List Timer :=
  walk s.dictionary (s.timerValues.drop k) (s.timerHits.drop k) (s.timerTagCounts.drop k)
    (s.timerUserTimes.drop k) (s.timerSystemTimes.drop k) (s.timerTagNames.drop (s.tagStart k))
    (s.timerTagValues.drop (s.tagStart k))

theorem timersFrom_zero (s : Submission) : s.timersFrom 0 = s.timers := rfl

theorem walk_of_lacking {dictionary : List String} {values users systems : List Duration}
    {hits tagCounts names words : List Nat} (lacking : values = [] ∨ hits = [] ∨ tagCounts = []) :
    walk dictionary values hits tagCounts users systems names words = [] := by
  rcases lacking with rfl | rfl | rfl
  · rfl
  · cases values <;> rfl
  · cases values <;> cases hits <;> rfl

theorem timersFrom_of_makes {count : Nat} {names words : List Nat} (makes : s.Makes k timer count names words) :
    s.timersFrom k = timer :: s.timersFrom (k + 1) := by
  obtain ⟨named, rfl⟩ := slice?_eq_some_iff.mp makes.namesTaken
  obtain ⟨worded, rfl⟩ := slice?_eq_some_iff.mp makes.wordsTaken
  have enough : count ≤ (s.timerTagNames.drop (s.tagStart k)).length ∧
      count ≤ (s.timerTagValues.drop (s.tagStart k)).length := by
    rw [List.length_drop, List.length_drop]
    omega
  unfold timersFrom
  rw [drop_of_getElem? makes.value, drop_of_getElem? makes.hits, drop_of_getElem? makes.tagCount, walk,
    if_pos enough, headD_drop, headD_drop, List.tail_drop, List.tail_drop, List.drop_drop, List.drop_drop,
    ← tagStart_succ makes.tagCount, makes.userTime, makes.systemTime, makes.tags]

/-- The walk stops at a timer that lacks an entry. That the tags before it are
there is what the steps before have looked at: without it a timer without tags
would be taken from behind the end of the arrays. -/
theorem timersFrom_of_lacking (fit : s.TagsFit k) (lacking : ¬s.HasTimer k) : s.timersFrom k = [] := by
  have nameFit := fit.names
  have wordFit := fit.words
  unfold timersFrom
  cases value : s.timerValues[k]? with
  | none => exact walk_of_lacking (.inl (drop_of_getElem?_none value))
  | some _ =>
  cases hits : s.timerHits[k]? with
  | none => exact walk_of_lacking (.inr (.inl (drop_of_getElem?_none hits)))
  | some _ =>
  cases tagCount : s.timerTagCounts[k]? with
  | none => exact walk_of_lacking (.inr (.inr (drop_of_getElem?_none tagCount)))
  | some count =>
  have scarce : ¬(count ≤ (s.timerTagNames.drop (s.tagStart k)).length ∧
      count ≤ (s.timerTagValues.drop (s.tagStart k)).length) := by
    rintro ⟨named, worded⟩
    rw [List.length_drop] at named worded
    exact lacking (hasTimer_of_entries value hits tagCount (by omega) (by omega))
  rw [drop_of_getElem? value, drop_of_getElem? hits, drop_of_getElem? tagCount, walk, if_neg scarce]

theorem getElem?_timersFrom (fit : s.TagsFit k) (i : Nat) : (s.timersFrom k)[i]? = s.timerAt? (k + i) := by
  induction i generalizing k with
  | zero =>
    by_cases has : s.HasTimer k
    · obtain ⟨timer, _, _, _, makes⟩ := has.makes
      rw [timersFrom_of_makes makes, List.getElem?_cons_zero, Nat.add_zero, makes.timerAt?]
    · rw [timersFrom_of_lacking fit has, List.getElem?_nil, Nat.add_zero, timerAt?_eq_none has]
  | succ i ih =>
    by_cases has : s.HasTimer k
    · obtain ⟨timer, _, _, _, makes⟩ := has.makes
      rw [timersFrom_of_makes makes, List.getElem?_cons_succ, ih has.tags, Nat.add_right_comm, Nat.add_assoc]
    · -- A later timer needs more of the arrays than this one, which they lack.
      have later : ¬s.HasTimer (k + (i + 1)) := fun later => has (later.mono (Nat.le_add_right k (i + 1)))
      rw [timersFrom_of_lacking fit has, List.getElem?_nil, timerAt?_eq_none later]

/-- The `k`-th timer of the walk is the timer at `k`. -/
theorem getElem?_timers (s : Submission) (k : Nat) : s.timers[k]? = s.timerAt? k := by
  rw [← timersFrom_zero, getElem?_timersFrom (tagsFit_zero s), Nat.zero_add]

theorem lt_length_timers_iff : k < s.timers.length ↔ s.HasTimer k := by
  rw [← timerAt?_isSome_iff, ← getElem?_timers, Option.isSome_iff_ne_none, ne_eq, List.getElem?_eq_none_iff, Nat.not_le]

/-- The timers of the walk are the longest prefix that the arrays have all
entries for. -/
theorem le_length_timers_iff {n : Nat} : n ≤ s.timers.length ↔ ∀ k < n, s.HasTimer k := by
  constructor
  · exact fun fits k before => lt_length_timers_iff.mp (before.trans_le fits)
  · intro has
    cases n with
    | zero => exact Nat.zero_le _
    | succ last => exact lt_length_timers_iff.mpr (has last last.lt_succ_self)

/-- No timer comes from behind the values. -/
theorem length_timers_le (s : Submission) : s.timers.length ≤ s.timerCount := by
  by_contra more
  exact (lt_length_timers_iff.mp (Nat.not_le.mp more)).value.ne rfl

/-- A timer has as many tags as it is said to have: none is left out. -/
theorem Agrees.length_tags (agrees : s.Agrees) {count : Nat} {names words : List Nat}
    (makes : s.Makes k timer count names words) : timer.tags.length = count := by
  obtain ⟨⟨⟨named, worded⟩, _⟩, _⟩ := agrees.indices_lt
  have nameCount := length_of_slice makes.namesTaken
  have wordCount := length_of_slice makes.wordsTaken
  obtain ⟨_, rfl⟩ := slice?_eq_some_iff.mp makes.namesTaken
  obtain ⟨_, rfl⟩ := slice?_eq_some_iff.mp makes.wordsTaken
  have stand := (stand_tagPairs (nameCount.trans wordCount.symm)
    (fun index member => named index (List.mem_of_mem_drop (List.mem_of_mem_take member)))
    (fun index member => worded index (List.mem_of_mem_drop (List.mem_of_mem_take member)))).1
  have pairs := stand.length_eq
  rw [makes.tags, List.length_map, nameCount] at pairs
  exact pairs.symm

/-- Arrays that agree, with tags that 64 bits have room to count. -/
structure Accords (s : Submission) : Prop extends s.Agrees where
  counted : s.tagSum < Word.limit

namespace Accords

theorem tagStart_timerCount (accords : s.Accords) : s.tagStart s.timerCount = s.declaredTags := by
  rw [tagStart, List.take_of_length_le accords.tagCounts.le, declaredTags, Word.wrap_eq accords.counted]
  rfl

theorem tagsFit (accords : s.Accords) (within : k ≤ s.timerCount) : s.TagsFit k :=
  TagsFit.mono ⟨(accords.tagStart_timerCount.trans accords.timerNames).le,
    (accords.tagStart_timerCount.trans accords.timerWords).le⟩ within

theorem hasTimer (accords : s.Accords) (within : k < s.timerCount) : s.HasTimer k :=
  ⟨within, within.trans_eq accords.hitCounts.symm, within.trans_eq accords.tagCounts.symm, accords.tagsFit within⟩

theorem length_timers (accords : s.Accords) : s.timers.length = s.timerCount :=
  Nat.le_antisymm s.length_timers_le (le_length_timers_iff.mpr fun _ => accords.hasTimer)

/-- What is read off each timer is an array, if it is so for each timer alone. -/
theorem map_timers (accords : s.Accords) {β : Type} {read : Timer → β} {entries : List β}
    (size : entries.length = s.timerCount)
    (reads : ∀ {k timer count names words}, s.Makes k timer count names words → entries[k]? = some (read timer)) :
    s.timers.map read = entries := by
  refine List.ext_getElem? fun k => ?_
  rw [List.getElem?_map, getElem?_timers]
  by_cases within : k < s.timerCount
  · obtain ⟨timer, count, names, words, makes⟩ := (accords.hasTimer within).makes
    rw [makes.timerAt?, reads makes, Option.map_some]
  · have lacking : ¬s.HasTimer k := fun has => within has.value
    rw [timerAt?_eq_none lacking, List.getElem?_eq_none_iff.mpr (by omega), Option.map_none]

theorem times (accords : s.Accords) {read : Timer → Duration} {times : List Duration}
    (fits : usageFits s.timerCount times)
    (reads : ∀ {k timer count names words}, s.Makes k timer count names words → times[k]?.getD 0 = read timer) :
    Times times (s.timers.map read) := by
  rcases fits with none | full
  · obtain rfl := List.eq_nil_of_length_eq_zero none
    refine Or.inr ⟨rfl, fun d member => ?_⟩
    obtain ⟨timer, known, rfl⟩ := List.mem_map.mp member
    obtain ⟨k, found⟩ := List.mem_iff_getElem?.mp known
    rw [getElem?_timers] at found
    obtain ⟨count, names, words, makes⟩ := makes_of_timerAt? found
    exact (reads makes).symm
  · refine Or.inl (accords.map_timers full fun {k timer _ _ _} makes => ?_).symm
    have within : k < times.length := makes.hasTimer.value.trans_eq full.symm
    rw [← reads makes, List.getElem?_eq_getElem within, Option.getD_some]

end Accords

/-- Counts of 32 bits do not add up to more than 64 bits have room for unless
there are more of them than 32 bits can number. -/
theorem tagSum_lt (few : s.timerTagCounts.length ≤ Word.shortLimit)
    (short : ∀ count ∈ s.timerTagCounts, count < Word.shortLimit) : s.tagSum < Word.limit := by
  have each : s.tagSum ≤ s.timerTagCounts.length • (Word.shortLimit - 1) :=
    List.sum_le_card_nsmul _ _ fun count member => Nat.le_sub_one_of_lt (short count member)
  calc s.tagSum ≤ s.timerTagCounts.length * (Word.shortLimit - 1) := each
    _ ≤ Word.shortLimit * (Word.shortLimit - 1) := Nat.mul_le_mul_right _ few
    _ < Word.limit := by decide

end Rollup.Submission
