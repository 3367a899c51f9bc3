import Mathlib.Data.List.Induction
import Rollup.Proofs.SortedMap
import Rollup.Proofs.Spelling

namespace Rollup.Query

/-- A text that stands for a whole number: decimal digits, with a plus sign
in front or without one. -/
structure Numeral (text : String) (n : Nat) : Prop where
  digits : ∃ digits : List Char, digits ≠ [] ∧ (∀ c ∈ digits, c.isDigit) ∧ n = Nat.ofDigitChars 10 digits 0 ∧
    (text.toList = digits ∨ text.toList = '+' :: digits)
  short : n ≤ longestMillis

theorem wholeNumber?_eq_some_iff {text : String} {n : Nat} :
    Text.wholeNumber? longestMillis text = some n ↔ Numeral text n := by
  have reads (digits : List Char) :
      ((if digits.isEmpty then none else (Text.digitsValue? 0 digits).bind fun n =>
        if n ≤ longestMillis then some n else none) = some n) ↔
      digits ≠ [] ∧ (∀ c ∈ digits, c.isDigit) ∧ n = Nat.ofDigitChars 10 digits 0 ∧ n ≤ longestMillis := by
    simp only [List.isEmpty_iff, Option.ite_none_left_eq_some, Option.bind_eq_some_iff, Text.digitsValue?_eq_some_iff,
      Option.ite_none_right_eq_some, Option.some.injEq]
    constructor
    · rintro ⟨some, value, ⟨digits, same⟩, short, rfl⟩
      exact ⟨some, digits, same, short⟩
    · rintro ⟨some, digits, same, short⟩
      exact ⟨some, n, ⟨digits, same⟩, short, rfl⟩
  have plain : ¬ '+'.isDigit := by decide
  constructor
  · intro found
    unfold Text.wholeNumber? at found
    split at found
    · rename_i digits plus
      obtain ⟨some, all, same, short⟩ := (reads digits).mp found
      exact ⟨⟨digits, some, all, same, Or.inr plus⟩, short⟩
    · obtain ⟨some, all, same, short⟩ := (reads _).mp found
      exact ⟨⟨_, some, all, same, Or.inl rfl⟩, short⟩
  · rintro ⟨⟨digits, some, all, same, here⟩, short⟩
    have taken := (reads digits).mpr ⟨some, all, same, short⟩
    unfold Text.wholeNumber?
    rcases here with here | here
    · rw [here]
      split
      · rename_i rest
        exact absurd (all '+' List.mem_cons_self) plain
      · exact taken
    · rw [here]
      exact taken

theorem mem_reserved_iff {c : Char} : c ∈ reserved ↔ c = ',' ∨ c = '?' ∨ c = '&' ∨ c = '=' := by
  simp only [reserved, List.mem_cons, List.not_mem_nil, or_false]

theorem Numeral.free {text : String} {n : Nat} (numeral : Numeral text n) {c : Char} (taken : c ∈ reserved) :
    c ∉ text.toList := by
  have apart : ¬ c.isDigit ∧ c ≠ '+' := by
    rcases mem_reserved_iff.mp taken with rfl | rfl | rfl | rfl <;> decide
  obtain ⟨digits, _, all, _, here | here⟩ := numeral.digits
  · rw [here]
    exact fun member => apart.1 (all c member)
  · rw [here]
    exact List.not_mem_cons_of_ne_of_not_mem apart.2 fun member => apart.1 (all c member)

theorem parseBound_map_eq_ok_iff {id value : String} {set : Duration → Filter} {g : Filter} :
    (parseBound id value).map set = .ok g ↔ ∃ n, Numeral value n ∧ g = set (Duration.ofMillis n) := by
  unfold parseBound
  constructor
  · intro done
    split at done
    · rename_i n read
      cases done
      exact ⟨n, wholeNumber?_eq_some_iff.mp read, rfl⟩
    · cases done
  · rintro ⟨n, numeral, rfl⟩
    rw [wholeNumber?_eq_some_iff.mpr numeral]
    rfl

/-- One condition on requests, as an id carries it. -/
inductive Parameter
  | min (millis : Nat)
  | max (millis : Nat)
  | tag (name value : String)

namespace Parameter

/-- What stands in front of the equals sign. -/
def key : Parameter → String
  | min _ => "min"
  | max _ => "max"
  | tag name _ => "tag." ++ name

/-- What can stand behind the equals sign. -/
inductive Value : Parameter → String → Prop
  | min {millis : Nat} {text : String} : Numeral text millis → Value (min millis) text
  | max {millis : Nat} {text : String} : Numeral text millis → Value (max millis) text
  | tag {name value : String} : Nameable name → Nameable value → Value (tag name value) value

/-- The texts that a parameter has in ids. -/
def Writes (p : Parameter) (text : String) : Prop := ∃ value, p.Value value ∧ text = p.key ++ "=" ++ value

def apply (f : Filter) : Parameter → Filter
  | min millis => f.withMin (Duration.ofMillis millis)
  | max millis => f.withMax (Duration.ofMillis millis)
  | tag name value => f.requireTag name value

theorem Value.free {p : Parameter} {text : String} (value : p.Value text) {c : Char} (taken : c ∈ reserved) :
    c ∉ p.key.toList ∧ c ∉ text.toList := by
  obtain ⟨notMin, notMax, notTag⟩ : c ∉ "min".toList ∧ c ∉ "max".toList ∧ c ∉ "tag.".toList := by
    rcases mem_reserved_iff.mp taken with rfl | rfl | rfl | rfl <;> decide
  cases value with
  | min numeral => exact ⟨notMin, numeral.free taken⟩
  | max numeral => exact ⟨notMax, numeral.free taken⟩
  | tag name value =>
    refine ⟨?_, value.free taken⟩
    rw [key, String.toList_append, List.mem_append]
    exact not_or.mpr ⟨notTag, name.free taken⟩

theorem Writes.free {p : Parameter} {text : String} (writes : p.Writes text) : '&' ∉ text.toList := by
  obtain ⟨value, admissible, rfl⟩ := writes
  obtain ⟨notKey, notValue⟩ := admissible.free (by decide : '&' ∈ reserved)
  rw [String.toList_append, String.toList_append, List.mem_append, List.mem_append]
  exact not_or.mpr ⟨not_or.mpr ⟨notKey, by decide⟩, notValue⟩

theorem Writes.ne_empty {p : Parameter} {text : String} (writes : p.Writes text) : text ≠ "" := by
  obtain ⟨value, _, rfl⟩ := writes
  intro empty
  have chars := congrArg String.toList empty
  simp at chars

theorem writes_iff {p : Parameter} {text : String} :
    p.Writes text ↔ ∃ value, p.Value value ∧ Text.cut? '=' text = some (p.key, value) := by
  refine exists_congr fun value => and_congr_right fun admissible => ?_
  rw [Text.cut?_eq_some_iff, and_iff_right (admissible.free (by decide : '=' ∈ reserved)).1, ← String.toList_inj]
  simp

end Parameter

theorem parseParameter_eq_ok_iff {id text : String} {f g : Filter} :
    parseParameter id f text = .ok g ↔ ∃ p : Parameter, p.Writes text ∧ g = p.apply f := by
  simp only [Parameter.writes_iff]
  unfold parseParameter
  constructor
  · intro done
    split at done
    · cases done
    · rename_i key value cut
      split at done
      · rename_i isMin
        obtain ⟨n, numeral, rfl⟩ := parseBound_map_eq_ok_iff.mp done
        exact ⟨.min n, ⟨value, .min numeral, by rw [cut, isMin]; rfl⟩, rfl⟩
      · split at done
        · rename_i isMax
          obtain ⟨n, numeral, rfl⟩ := parseBound_map_eq_ok_iff.mp done
          exact ⟨.max n, ⟨value, .max numeral, by rw [cut, isMax]; rfl⟩, rfl⟩
        · split at done
          · cases done
          · rename_i name starts
            obtain ⟨_, nameable, rest⟩ := bind_eq_ok_iff.mp done
            obtain ⟨_, valuable, returned⟩ := bind_eq_ok_iff.mp rest
            cases returned
            have admissible := Parameter.Value.tag (checkName_eq_ok_iff.mp nameable) (checkName_eq_ok_iff.mp valuable)
            exact ⟨.tag name value, ⟨value, admissible, by rw [cut, Text.dropStart?_eq_some_iff.mp starts]; rfl⟩, rfl⟩
  · rintro ⟨p, ⟨value, admissible, cut⟩, rfl⟩
    rw [cut]
    cases admissible with
    | min numeral => exact parseBound_map_eq_ok_iff.mpr ⟨_, numeral, rfl⟩
    | max numeral => exact parseBound_map_eq_ok_iff.mpr ⟨_, numeral, rfl⟩
    | @tag name value nameable valuable =>
      have apart (start : String) (other : start.toList.head? ≠ some 't') : "tag." ++ name ≠ start := by
        rintro rfl
        exact other (by rw [String.toList_append]; rfl)
      dsimp only [Parameter.key]
      rw [if_neg (apart "min" (by decide)), if_neg (apart "max" (by decide)), Text.dropStart?_eq_some_iff.mpr rfl]
      dsimp only
      rw [checkName_eq_ok_iff.mpr nameable, checkName_eq_ok_iff.mpr valuable]
      rfl

theorem foldlM_parseParameter_eq_ok_iff {id : String} {texts : List String} {f g : Filter} :
    texts.foldlM (parseParameter id) f = .ok g ↔
      ∃ ps, List.Forall₂ Parameter.Writes ps texts ∧ g = ps.foldl Parameter.apply f := by
  induction texts generalizing f with
  | nil =>
    constructor
    · intro done
      cases done
      exact ⟨[], .nil, rfl⟩
    · rintro ⟨ps, written, rfl⟩
      cases written
      rfl
  | cons text rest ih =>
    rw [List.foldlM_cons, bind_eq_ok_iff]
    simp only [parseParameter_eq_ok_iff, ih]
    constructor
    · rintro ⟨_, ⟨p, writes, rfl⟩, ps, written, rfl⟩
      exact ⟨p :: ps, .cons writes written, rfl⟩
    · rintro ⟨ps, written, rfl⟩
      cases written with
      | cons writes written => exact ⟨_, ⟨_, writes, rfl⟩, _, written, rfl⟩

namespace Parameter

def min? : Parameter → Option Nat
  | min millis => some millis
  | max _ | tag _ _ => none

def max? : Parameter → Option Nat
  | max millis => some millis
  | min _ | tag _ _ => none

def value? (name : String) : Parameter → Option String
  | tag other value => if other = name then some value else none
  | min _ | max _ => none

/-- What the last one of the parameters that say anything says. -/
def last {α : Type} (read : Parameter → Option α) (ps : List Parameter) : Option α := (ps.filterMap read).getLast?

theorem last_append {α : Type} {read : Parameter → Option α} {ps qs : List Parameter} :
    last read (ps ++ qs) = (last read qs).or (last read ps) := by
  unfold last
  rw [List.filterMap_append, List.getLast?_append]

theorem last_concat {α : Type} {read : Parameter → Option α} {ps : List Parameter} {p : Parameter} :
    last read (ps ++ [p]) = (read p).or (last read ps) := by
  have one : last read [p] = read p := by
    unfold last
    cases said : read p <;> simp [said]
  rw [last_append, one]

theorem last_eq_some {α : Type} {read : Parameter → Option α} {ps : List Parameter} {a : α}
    (said : last read ps = some a) :
    ∃ p ∈ ps, read p = some a :=
  List.mem_filterMap.mp (List.mem_of_getLast? said)

end Parameter

/-- What parameters ask of a filter. The last one counts where several say
something about the same thing, and a bound of zero is none. -/
structure Conditions (ps : List Parameter) (f : Filter) : Prop where
  minTime : f.minTime = ((Parameter.last Parameter.min? ps).filter (0 < ·)).map Duration.ofMillis
  maxTime : f.maxTime = ((Parameter.last Parameter.max? ps).filter (0 < ·)).map Duration.ofMillis
  tags : ∀ name, f.tags.find? name = Parameter.last (Parameter.value? name) ps

theorem Conditions.unique {ps : List Parameter} {f g : Filter} (left : Conditions ps f) (right : Conditions ps g) :
    f = g := by
  obtain ⟨minTime, maxTime, tags⟩ := f
  have sameTags : tags = g.tags := SortedMap.ext_find? fun name => (left.tags name).trans (right.tags name).symm
  have sameMin : minTime = g.minTime := left.minTime.trans right.minTime.symm
  have sameMax : maxTime = g.maxTime := left.maxTime.trans right.maxTime.symm
  rw [sameMin, sameMax, sameTags]

theorem Conditions.concat {ps : List Parameter} {f : Filter} (conditions : Conditions ps f) (p : Parameter) :
    Conditions (ps ++ [p]) (p.apply f) := by
  obtain ⟨minTime, maxTime, tags⟩ := conditions
  cases p with
  | min millis =>
    constructor <;> simp only [Parameter.apply, Parameter.last_concat]
    · rw [Filter.minTime_withMin, Filter.bound_ofMillis, Parameter.min?, Option.some_or]
    · rw [Filter.maxTime_withMin, Parameter.max?, Option.none_or, maxTime]
    · exact fun name => by rw [Filter.tags_withMin, Parameter.value?, Option.none_or, tags]
  | max millis =>
    constructor <;> simp only [Parameter.apply, Parameter.last_concat]
    · rw [Filter.minTime_withMax, Parameter.min?, Option.none_or, minTime]
    · rw [Filter.maxTime_withMax, Filter.bound_ofMillis, Parameter.max?, Option.some_or]
    · exact fun name => by rw [Filter.tags_withMax, Parameter.value?, Option.none_or, tags]
  | tag name value =>
    constructor <;> simp only [Parameter.apply, Parameter.last_concat]
    · exact minTime
    · exact maxTime
    · intro other
      rw [Filter.requireTag, SortedMap.find?_insert, tags, Parameter.value?]
      split <;> rfl

theorem conditions_foldl (ps : List Parameter) : Conditions ps (ps.foldl Parameter.apply .any) := by
  induction ps using List.reverseRecOn with
  | nil => exact ⟨rfl, rfl, fun _ => rfl⟩
  | append_singleton ps p ih =>
    rw [List.foldl_append]
    exact ih.concat p

theorem conditions_iff {ps : List Parameter} {f : Filter} : Conditions ps f ↔ f = ps.foldl Parameter.apply .any :=
  ⟨fun conditions => conditions.unique (conditions_foldl ps), fun same => same ▸ conditions_foldl ps⟩

/-- A bound that an id can carry: some whole milliseconds, and not too many. -/
def Whole (bound : Option Duration) : Prop := ∀ d ∈ bound, ∃ n, 0 < n ∧ n ≤ longestMillis ∧ d = Duration.ofMillis n

theorem whole_ofMillis {n? : Option Nat} (short : ∀ n ∈ n?, n ≤ longestMillis) :
    Whole ((n?.filter (0 < ·)).map Duration.ofMillis) := by
  intro d member
  obtain ⟨n, kept, rfl⟩ := Option.map_eq_some_iff.mp member
  obtain ⟨said, positive⟩ := Option.filter_eq_some_iff.mp kept
  exact ⟨n, of_decide_eq_true positive, short n said, rfl⟩

theorem whole_normalized (bound : Option Duration) : Whole (bound.bind fun d => Filter.bound (wholeMillis d)) := by
  cases bound with
  | none => exact fun _ member => (nomatch member)
  | some d =>
    rw [Option.bind_some, wholeMillis, Filter.bound_ofMillis]
    refine whole_ofMillis fun n same => ?_
    rw [← Option.some.inj same]
    exact Nat.min_le_right _ _

theorem Whole.normalized {bound : Option Duration} (whole : Whole bound) :
    (bound.bind fun d => Filter.bound (wholeMillis d)) = bound := by
  cases bound with
  | none => rfl
  | some d =>
    obtain ⟨n, positive, short, rfl⟩ := whole d rfl
    have same : min (Duration.ofMillis n).millis longestMillis = n := by
      rw [Duration.millis_ofMillis short]
      exact Nat.min_eq_left short
    rw [Option.bind_some, wholeMillis, same, Filter.bound_ofMillis, Option.filter_some, decide_eq_true positive]
    rfl

/-- A filter that an id can carry. -/
structure Carried (f : Filter) : Prop where
  minTime : Whole f.minTime
  maxTime : Whole f.maxTime
  tags : ∀ tag ∈ f.tags.entries, Nameable tag.1 ∧ Nameable tag.2

theorem Carried.normalized {f : Filter} (carried : Carried f) : normalized f = f := by
  obtain ⟨minTime, maxTime, tags⟩ := f
  rw [Query.normalized, carried.minTime.normalized, carried.maxTime.normalized]

theorem checkBounds_eq_ok_iff {f : Filter} : checkBounds f = .ok () ↔ f.Ordered := by
  rw [← Filter.check_eq_ok_iff]
  unfold checkBounds
  cases f.check with
  | error cause => exact ⟨fun done => (nomatch done), fun done => (nomatch done)⟩
  | ok _ => exact ⟨fun _ => rfl, fun _ => rfl⟩

theorem checkTag_eq_ok_iff {tag : String × String} : checkTag tag = .ok () ↔ Nameable tag.1 ∧ Nameable tag.2 := by
  unfold checkTag
  rw [← @checkName_eq_ok_iff "filter" .emptyTagName, ← @checkName_eq_ok_iff "filter" .emptyTagValue]
  cases checkName "filter" .emptyTagName tag.1 with
  | error fault => exact ⟨fun done => (nomatch done), fun both => (nomatch both.1)⟩
  | ok _ => exact ⟨fun done => ⟨rfl, done⟩, And.right⟩

theorem withFilter_eq_ok_iff {q r : Query} {f : Filter} :
    q.withFilter f = .ok r ↔ f.Ordered ∧ (∀ tag ∈ f.tags.entries, Nameable tag.1 ∧ Nameable tag.2) ∧
      (normalized f).Ordered ∧ r = ⟨q.subject, normalized f⟩ := by
  have tags : f.tags.entries.forM checkTag = .ok () ↔ ∀ tag ∈ f.tags.entries, Nameable tag.1 ∧ Nameable tag.2 := by
    rw [forM_eq_ok_iff]
    simp only [checkTag_eq_ok_iff]
  rw [← checkBounds_eq_ok_iff, ← tags, ← checkBounds_eq_ok_iff]
  unfold withFilter
  constructor
  · intro done
    obtain ⟨_, ordered, rest⟩ := bind_eq_ok_iff.mp done
    obtain ⟨_, nameable, rest⟩ := bind_eq_ok_iff.mp rest
    obtain ⟨_, still, returned⟩ := bind_eq_ok_iff.mp rest
    cases returned
    exact ⟨ordered, nameable, still, rfl⟩
  · rintro ⟨ordered, nameable, still, rfl⟩
    rw [ordered, nameable, still]
    rfl

theorem Conditions.carried {ps : List Parameter} {f : Filter} (conditions : Conditions ps f)
    (written : ∀ p ∈ ps, ∃ text, p.Writes text) : Carried f where
  minTime := by
    rw [conditions.minTime]
    refine whole_ofMillis fun n said => ?_
    obtain ⟨p, member, isMin⟩ := Parameter.last_eq_some said
    obtain ⟨text, value, admissible, _⟩ := written p member
    cases admissible with
    | min numeral => cases isMin; exact numeral.short
    | max _ | tag _ _ => cases isMin
  maxTime := by
    rw [conditions.maxTime]
    refine whole_ofMillis fun n said => ?_
    obtain ⟨p, member, isMax⟩ := Parameter.last_eq_some said
    obtain ⟨text, value, admissible, _⟩ := written p member
    cases admissible with
    | max numeral => cases isMax; exact numeral.short
    | min _ | tag _ _ => cases isMax
  tags := by
    rintro ⟨name, value⟩ entry
    have said := (conditions.tags name).symm.trans (SortedMap.find?_eq_some_iff.mpr entry)
    obtain ⟨p, member, isTag⟩ := Parameter.last_eq_some said
    obtain ⟨text, shown, admissible, _⟩ := written p member
    cases admissible with
    | min _ | max _ => cases isTag
    | tag nameable valuable =>
      obtain ⟨rfl, same⟩ := Option.ite_none_right_eq_some.mp isTag
      cases same
      exact ⟨nameable, valuable⟩

end Rollup.Query
