import Mathlib.Algebra.Ring.Nat
import Mathlib.Data.List.Dedup
import Mathlib.Data.List.Forall2
import Mathlib.Data.List.Induction
import Rollup.Proofs.Check
import Rollup.Submission.Assembly
import Rollup.Submission.Walk

namespace Rollup.Submission

/-- Indices that stand for words in a dictionary, one for each. -/
def Stand (dictionary : List String) (indices : List Nat) (words : List String) : Prop :=
  List.Forall₂ (fun index word => dictionary[index]? = some word) indices words

theorem getElem?_of_start {dictionary larger : List String} (more : dictionary <+: larger) {index : Nat}
    {word : String} (found : dictionary[index]? = some word) : larger[index]? = some word := by
  obtain ⟨within, same⟩ := List.getElem?_eq_some_iff.mp found
  rw [List.prefix_iff_getElem?.mp more index within, same]

theorem Stand.index_lt {dictionary : List String} {indices : List Nat} {words : List String}
    (stand : Stand dictionary indices words) : ∀ index ∈ indices, index < dictionary.length := by
  induction stand with
  | nil => exact fun _ member => nomatch member
  | cons found _ ih =>
    intro index member
    rcases List.mem_cons.mp member with rfl | deeper
    · exact (List.getElem?_eq_some_iff.mp found).1
    · exact ih index deeper

/-- Indices that are what 32 bits keep of the positions of words. -/
def Points (dictionary : List String) (indices : List Nat) (words : List String) : Prop :=
  List.Forall₂ (fun index word => ∃ position, index = Word.cut position ∧ dictionary[position]? = some word) indices words

namespace Points

variable {dictionary larger : List String} {indices : List Nat} {words : List String}

theorem mono (points : Points dictionary indices words) (more : dictionary <+: larger) : Points larger indices words :=
  List.Forall₂.imp (fun _ _ ⟨position, cut, found⟩ => ⟨position, cut, getElem?_of_start more found⟩) points

theorem concat (points : Points dictionary indices words) {position : Nat} {word : String}
    (found : dictionary[position]? = some word) :
    Points dictionary (indices ++ [Word.cut position]) (words ++ [word]) :=
  List.rel_append points (.cons ⟨position, rfl, found⟩ .nil)

theorem append {more : List Nat} {others : List String} (points : Points dictionary indices words)
    (behind : Points dictionary more others) : Points dictionary (indices ++ more) (words ++ others) :=
  List.rel_append points behind

/-- No position is cut while there are no more words than indices. -/
theorem stand (points : Points dictionary indices words) (few : dictionary.length < Word.shortLimit) :
    Stand dictionary indices words := by
  refine List.Forall₂.imp (fun index word ⟨position, cut, found⟩ => ?_) points
  have within := (List.getElem?_eq_some_iff.mp found).1
  rw [cut, Word.cut_eq (Nat.lt_trans within few)]
  exact found

end Points

/-- Indices of names and of values pair up to the tags that they stand for. -/
theorem tagPairs_eq {dictionary : List String} {names values : List Nat} {tags : List (String × String)}
    (named : Stand dictionary names (tags.map Prod.fst)) (valued : Stand dictionary values (tags.map Prod.snd)) :
    tagPairs dictionary names values = tags := by
  induction tags generalizing names values with
  | nil =>
    cases named
    rfl
  | cons tag rest ih =>
    obtain ⟨name, value⟩ := tag
    cases named with
    | cons atName named =>
      cases valued with
      | cons atValue valued =>
        have later := ih named valued
        unfold tagPairs at later ⊢
        rw [List.zip_cons_cons, List.filterMap_cons, later]
        simp [atName, atValue]

/-- What is left of CPU times when they are given for every timer or for none:
they read as expected. -/
def Times (times expected : List Duration) : Prop := times = expected ∨ times = [] ∧ ∀ d ∈ expected, d = 0

theorem Times.cons {times expected : List Duration} {d : Duration} (reads : Times times (d :: expected)) :
    times.headD 0 = d ∧ Times times.tail expected := by
  rcases reads with rfl | ⟨rfl, zero⟩
  · exact ⟨rfl, Or.inl rfl⟩
  · exact ⟨(zero d List.mem_cons_self).symm, Or.inr ⟨rfl, fun e member => zero e (List.mem_cons_of_mem d member)⟩⟩

theorem Times.usageFits {times expected : List Duration} (reads : Times times expected) :
    usageFits expected.length times := by
  rcases reads with rfl | ⟨rfl, _⟩
  · exact Or.inr rfl
  · exact Or.inl rfl

namespace TimerSpec

def userTime (t : TimerSpec) : Duration := (t.cpu.getD (0, 0)).1

def systemTime (t : TimerSpec) : Duration := (t.cpu.getD (0, 0)).2

/-- The timer as a walk shows it. A CPU time that was left out is zero. -/
def shown (t : TimerSpec) : Timer := ⟨t.value, t.hits, t.userTime, t.systemTime, t.tags⟩

end TimerSpec

/-- The request tags among some entries, in order. -/
def tagsOf (entries : List Entry) : List (String × String) :=
  entries.filterMap fun
    | .tag name value => some (name, value)
    | _ => none

/-- The timers among some entries, in order. -/
def timersOf (entries : List Entry) : List TimerSpec :=
  entries.filterMap fun
    | .timer spec => some spec
    | _ => none

/-- Every name and value among some entries, as often as it is used. -/
def wordsOf (entries : List Entry) : List String :=
  entries.flatMap fun
    | .tag name value => [name, value]
    | .timer spec => spec.tags.flatMap fun tag => [tag.1, tag.2]
    | _ => []

/-- A dictionary of some words, each of them once. -/
structure Lists (dictionary words : List String) : Prop where
  once : dictionary.Nodup
  mem_iff : ∀ word, word ∈ dictionary ↔ word ∈ words

/-- A word has an index, and is listed from then on. Nothing else changes. -/
theorem addWord_eq {s : Submission} {words : List String} (lists : Lists s.dictionary words) (word : String) :
    ∃ dictionary position, s.addWord word = ({ s with dictionary }, Word.cut position) ∧ s.dictionary <+: dictionary ∧
      dictionary[position]? = some word ∧ Lists dictionary (words ++ [word]) := by
  unfold addWord
  split
  · rename_i position found
    have known : s.dictionary[position]? = some word := by
      obtain ⟨within, same, _⟩ := List.idxOf?_eq_some_iff.mp found
      exact List.getElem?_eq_some_iff.mpr ⟨within, same⟩
    refine ⟨s.dictionary, position, rfl, List.prefix_rfl, known, lists.once, fun w => ?_⟩
    have listed : word ∈ words := (lists.mem_iff word).mp (List.mem_of_getElem? known)
    rw [lists.mem_iff, List.mem_append, List.mem_singleton]
    refine ⟨Or.inl, fun either => ?_⟩
    rcases either with old | rfl
    · exact old
    · exact listed
  · rename_i unknown
    have new : word ∉ s.dictionary := List.idxOf?_eq_none_iff.mp unknown
    refine ⟨_, _, rfl, List.prefix_append _ _, by simp, ?_, fun w => by simp [lists.mem_iff]⟩
    refine List.nodup_append.mpr ⟨lists.once, List.nodup_singleton word, fun w member other single same => new ?_⟩
    rw [← List.mem_singleton.mp single, ← same]
    exact member

/-- A name and a value have indices, and are listed from then on. -/
theorem addWords_eq {s : Submission} {words : List String} (lists : Lists s.dictionary words) (name value : String) :
    ∃ dictionary between first second, s.addWord name = (between, Word.cut first) ∧
      between.addWord value = ({ s with dictionary }, Word.cut second) ∧ s.dictionary <+: dictionary ∧
      dictionary[first]? = some name ∧ dictionary[second]? = some value ∧ Lists dictionary (words ++ [name, value]) := by
  obtain ⟨half, first, atName, grown, named, listed⟩ := addWord_eq lists name
  obtain ⟨whole, second, atValue, grownMore, valued, listedMore⟩ :=
    addWord_eq (s := { s with dictionary := half }) listed value
  rw [List.append_assoc] at listedMore
  exact ⟨whole, _, first, second, atName, atValue, grown.trans grownMore, getElem?_of_start grownMore named, valued,
    listedMore⟩

/-- What timers say of their CPU times, if any of them does. -/
def usage (timers : List TimerSpec) (time : TimerSpec → Duration) : List Duration :=
  if timers.any (·.cpu.isSome) then timers.map time else []

theorem fitted_of_length {times : List Duration} {size : Nat} (fits : times.length = size) :
    fitted size times = times := by
  rw [fitted, ← fits, List.take_length, Nat.sub_self, List.replicate_zero, List.append_nil]

theorem fitted_nil (size : Nat) : fitted size [] = List.replicate size 0 := by
  rw [fitted, List.take_nil, List.nil_append, List.length_nil, Nat.sub_zero]

/-- Where no timer has CPU times they are all zero. -/
theorem map_of_unused {timers : List TimerSpec} (unused : timers.any (·.cpu.isSome) = false)
    {time : TimerSpec → Duration} (zero : ∀ t : TimerSpec, t.cpu = none → time t = 0) :
    timers.map time = List.replicate timers.length 0 := by
  rw [List.map_eq_replicate_iff]
  intro t member
  have none := List.any_eq_false.mp unused t member
  exact zero t (by simpa using none)

theorem TimerSpec.userTime_of_none {t : TimerSpec} (none : t.cpu = none) : t.userTime = 0 := by
  rw [userTime, none, Option.getD_none]

theorem TimerSpec.systemTime_of_none {t : TimerSpec} (none : t.cpu = none) : t.systemTime = 0 := by
  rw [systemTime, none, Option.getD_none]

theorem addUsage_of_used {s : Submission} {timers : Nat} {cpu : Option (Duration × Duration)}
    (used : cpu.isSome ∨ s.timerUserTimes ≠ []) : s.addUsage timers cpu = { s with
      timerUserTimes := fitted timers s.timerUserTimes ++ [(cpu.getD (0, 0)).1]
      timerSystemTimes := fitted timers s.timerSystemTimes ++ [(cpu.getD (0, 0)).2] } :=
  if_pos used

/-- One more timer keeps the CPU times as they should be, whether it is the
first to have any or not. -/
theorem addUsage_eq {s : Submission} {timers : List TimerSpec}
    (users : s.timerUserTimes = usage timers TimerSpec.userTime)
    (systems : s.timerSystemTimes = usage timers TimerSpec.systemTime) (t : TimerSpec) :
    s.addUsage timers.length t.cpu = { s with
      timerUserTimes := usage (timers ++ [t]) TimerSpec.userTime
      timerSystemTimes := usage (timers ++ [t]) TimerSpec.systemTime } := by
  have next : (timers ++ [t]).any (·.cpu.isSome) = (timers.any (·.cpu.isSome) || t.cpu.isSome) := by simp
  unfold usage at users systems ⊢
  rw [next]
  cases used : timers.any (·.cpu.isSome) with
  | true =>
    have some_timer : timers ≠ [] := by
      rintro rfl
      cases used
    rw [used, if_pos rfl] at users systems
    rw [addUsage_of_used (Or.inr (by simpa [users] using some_timer)), users, systems,
      fitted_of_length (List.length_map _), fitted_of_length (List.length_map _), Bool.true_or, if_pos rfl, if_pos rfl,
      List.map_append, List.map_append]
    rfl
  | false =>
    simp only [used, Bool.false_eq_true, if_false] at users systems
    cases given : t.cpu.isSome with
    | true =>
      rw [addUsage_of_used (Or.inl given), users, systems, fitted_nil, Bool.false_or, if_pos rfl, if_pos rfl,
        List.map_append, List.map_append, map_of_unused used fun _ => TimerSpec.userTime_of_none,
        map_of_unused used fun _ => TimerSpec.systemTime_of_none]
      rfl
    | false =>
      have unchanged : s.addUsage timers.length t.cpu = s := if_neg (by simp [given, users])
      rw [unchanged]
      cases s
      cases users
      cases systems
      rfl

/-- The tags of a timer go behind those of the timers before it. -/
theorem foldl_addTimerTag {s : Submission} {words : List String} (lists : Lists s.dictionary words)
    (tags : List (String × String)) : ∃ dictionary names values,
      tags.foldl addTimerTag s = { s with
        dictionary
        timerTagNames := s.timerTagNames ++ names
        timerTagValues := s.timerTagValues ++ values } ∧
      s.dictionary <+: dictionary ∧ Points dictionary names (tags.map Prod.fst) ∧
      Points dictionary values (tags.map Prod.snd) ∧
      Lists dictionary (words ++ tags.flatMap fun tag => [tag.1, tag.2]) := by
  induction tags generalizing s words with
  | nil => exact ⟨s.dictionary, [], [], by simp, List.prefix_rfl, .nil, .nil, by simpa using lists⟩
  | cons tag rest ih =>
    obtain ⟨dictionary, between, first, second, atName, atValue, grown, named, valued, listed⟩ :=
      addWords_eq lists tag.1 tag.2
    have added : s.addTimerTag tag = { s with
        dictionary
        timerTagNames := s.timerTagNames ++ [Word.cut first]
        timerTagValues := s.timerTagValues ++ [Word.cut second] } := by
      unfold addTimerTag
      simp only [atName, atValue]
    have next : Lists (s.addTimerTag tag).dictionary (words ++ [tag.1, tag.2]) := by
      rw [added]
      exact listed
    obtain ⟨larger, names, values, folded, grownMore, namedMore, valuedMore, listedMore⟩ := ih next
    rw [added] at grownMore
    refine ⟨larger, Word.cut first :: names, Word.cut second :: values, ?_, grown.trans grownMore,
      .cons ⟨first, rfl, getElem?_of_start grownMore named⟩ namedMore,
      .cons ⟨second, rfl, getElem?_of_start grownMore valued⟩ valuedMore, ?_⟩
    · rw [List.foldl_cons, folded, added]
      simp
    · simpa using listedMore

/-- The arrays of a submission, with `tags` as the tags of the request and with
these timers, spelled in a dictionary of `words`. -/
structure Carries (s : Submission) (tags : List (String × String)) (timers : List TimerSpec) (words : List String) :
    Prop where
  lists : Lists s.dictionary words
  names : Points s.dictionary s.tagNames (tags.map Prod.fst)
  values : Points s.dictionary s.tagValues (tags.map Prod.snd)
  timerValues : s.timerValues = timers.map (·.value)
  timerHits : s.timerHits = timers.map (·.hits)
  timerTagCounts : s.timerTagCounts = timers.map fun t => Word.cut t.tags.length
  timerNames : Points s.dictionary s.timerTagNames ((timers.flatMap (·.tags)).map Prod.fst)
  timerWords : Points s.dictionary s.timerTagValues ((timers.flatMap (·.tags)).map Prod.snd)
  userTimes : s.timerUserTimes = usage timers TimerSpec.userTime
  systemTimes : s.timerSystemTimes = usage timers TimerSpec.systemTime

namespace Carries

variable {s : Submission} {tags : List (String × String)} {timers : List TimerSpec} {words : List String}

theorem addTag (carries : s.Carries tags timers words) (name value : String) :
    (s.addTag name value).Carries (tags ++ [(name, value)]) timers (words ++ [name, value]) := by
  obtain ⟨dictionary, between, first, second, atName, atValue, grown, named, valued, lists⟩ :=
    addWords_eq carries.lists name value
  have added : s.addTag name value =
      { s with
        dictionary
        tagNames := s.tagNames ++ [Word.cut first]
        tagValues := s.tagValues ++ [Word.cut second] } := by
    unfold Submission.addTag
    simp only [atName, atValue]
  rw [added]
  refine { carries with lists, names := ?_, values := ?_, timerNames := ?_, timerWords := ?_ }
  · simpa using (carries.names.mono grown).concat named
  · simpa using (carries.values.mono grown).concat valued
  · exact carries.timerNames.mono grown
  · exact carries.timerWords.mono grown

theorem addTimer (carries : s.Carries tags timers words) (t : TimerSpec) :
    (s.addTimer t).Carries tags (timers ++ [t]) (words ++ t.tags.flatMap fun tag => [tag.1, tag.2]) := by
  have count : s.timerCount = timers.length := by rw [timerCount, carries.timerValues, List.length_map]
  have timed := addUsage_eq (s := { s with
    timerValues := s.timerValues ++ [t.value]
    timerHits := s.timerHits ++ [t.hits]
    timerTagCounts := s.timerTagCounts ++ [Word.cut t.tags.length] }) carries.userTimes carries.systemTimes t
  unfold Submission.addTimer
  dsimp only
  rw [count, timed]
  obtain ⟨dictionary, names, values, folded, grown, named, valued, lists⟩ := foldl_addTimerTag (s := { s with
    timerValues := s.timerValues ++ [t.value]
    timerHits := s.timerHits ++ [t.hits]
    timerTagCounts := s.timerTagCounts ++ [Word.cut t.tags.length]
    timerUserTimes := usage (timers ++ [t]) TimerSpec.userTime
    timerSystemTimes := usage (timers ++ [t]) TimerSpec.systemTime }) carries.lists t.tags
  rw [folded]
  refine ⟨lists, carries.names.mono grown, carries.values.mono grown, ?_, ?_, ?_, ?_, ?_, rfl, rfl⟩
  · simp [carries.timerValues]
  · simp [carries.timerHits]
  · simp [carries.timerTagCounts]
  · simpa using (carries.timerNames.mono grown).append named
  · simpa using (carries.timerWords.mono grown).append valued

/-- An entry adds what it has of tags, timers and words. -/
theorem enter (carries : s.Carries tags timers words) (entry : Entry) :
    (s.enter entry).Carries (tags ++ tagsOf [entry]) (timers ++ timersOf [entry]) (words ++ wordsOf [entry]) := by
  cases entry with
  | tag name value => simpa [Submission.enter, tagsOf, timersOf, wordsOf] using carries.addTag name value
  | timer spec => simpa [Submission.enter, tagsOf, timersOf, wordsOf] using carries.addTimer spec
  | _ =>
    simp only [tagsOf, timersOf, wordsOf, List.filterMap_cons, List.filterMap_nil, List.flatMap_cons,
      List.flatMap_nil, List.append_nil]
    exact { carries with }

end Carries

namespace Carries

variable {s : Submission} {tags : List (String × String)} {timers : List TimerSpec} {words : List String}

theorem indices_lt (carries : s.Carries tags timers words) (few : s.dictionary.length < Word.shortLimit) :
    ∀ index ∈ s.indices, index < s.dictionary.length := by
  intro index member
  simp only [indices, List.mem_append] at member
  rcases member with ((name | value) | name) | value
  · exact (carries.timerNames.stand few).index_lt index name
  · exact (carries.timerWords.stand few).index_lt index value
  · exact (carries.names.stand few).index_lt index name
  · exact (carries.values.stand few).index_lt index value

end Carries

/-- Tags between timers, words that come again, and the first CPU times with
the second timer. -/
def mixed : List Entry := [
  .tag "region" "eu",
  .timer { value := .ofMillis 5, tags := [("group", "db"), ("op", "select")] },
  .host "web-1",
  .timer { value := .ofMillis 7, hits := 3, cpu := some (.ofMillis 1, .ofMillis 2) },
  .tag "group" "eu",
  .timer { value := .ofMillis 1, tags := [("group", "region")] }]

end Rollup.Submission
