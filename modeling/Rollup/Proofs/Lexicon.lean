import Rollup.Window

namespace Rollup

namespace Vocabulary

/-- All words keep their numbers, and new ones may follow. -/
def Grows (v w : Vocabulary) : Prop := v.words <+: w.words

theorem Grows.size_le {v w : Vocabulary} (grows : v.Grows w) : v.size ≤ w.size := grows.length_le

theorem Grows.wordD_eq {v w : Vocabulary} (grows : v.Grows w) {id : Nat} (known : id < v.size) :
    w.wordD id = v.wordD id := by
  obtain ⟨new, words⟩ := grows
  rw [wordD, wordD, word?, word?, ← words, List.getElem?_append_left known]

/-- There is room for one more word. -/
def Roomy (v : Vocabulary) : Prop := v.size < v.limit

instance (v : Vocabulary) : Decidable v.Roomy := inferInstanceAs (Decidable (_ < _))

/-- What a vocabulary can become: words keep their numbers, and one without
room takes no more words in. -/
structure Extends (v w : Vocabulary) : Prop where
  grows : v.Grows w
  limit : w.limit = v.limit
  closed : ¬v.Roomy → w.words = v.words

theorem Extends.refl (v : Vocabulary) : v.Extends v := ⟨List.prefix_rfl, rfl, fun _ => rfl⟩

theorem Extends.roomy {v w : Vocabulary} (extended : v.Extends w) (room : w.Roomy) : v.Roomy := by
  have size := extended.grows.size_le
  have limit := extended.limit
  unfold Roomy at room ⊢
  omega

theorem Extends.trans {u v w : Vocabulary} (first : u.Extends v) (later : v.Extends w) : u.Extends w where
  grows := List.IsPrefix.trans first.grows later.grows
  limit := later.limit.trans first.limit
  closed full := (later.closed fun room => full (first.roomy room)).trans (first.closed full)

/-- A word that is learnt has its number from then on. -/
theorem learn_extends {v w : Vocabulary} {word : String} {id : Nat} (learnt : v.learn word = .ok (w, id)) :
    v.Extends w ∧ w.words[id]? = some word := by
  unfold learn at learnt
  split at learnt
  · rename_i known
    cases learnt
    obtain ⟨within, same, _⟩ := List.idxOf?_eq_some_iff.mp known
    exact ⟨.refl v, List.getElem?_eq_some_iff.mpr ⟨within, same⟩⟩
  · split at learnt
    · rename_i room
      cases learnt
      exact ⟨⟨List.prefix_append _ _, rfl, fun full => absurd room full⟩, List.getElem?_concat_length⟩
    · cases learnt

/-- A word is refused only if it is new and there is no room. -/
theorem learn_refused {v : Vocabulary} {word : String} {full : Full} (refused : v.learn word = .error full) :
    word ∉ v.words ∧ ¬v.Roomy := by
  unfold learn at refused
  split at refused
  · cases refused
  · rename_i unknown
    split at refused
    · cases refused
    · rename_i noRoom
      exact ⟨List.idxOf?_eq_none_iff.mp unknown, noRoom⟩

theorem Extends.word_eq {v w : Vocabulary} (extended : v.Extends w) {id : Nat} {word : String}
    (known : v.words[id]? = some word) : w.wordD id = word ∧ word ∈ w.words := by
  obtain ⟨within, same⟩ := List.getElem?_eq_some_iff.mp known
  constructor
  · rw [extended.grows.wordD_eq within, wordD, word?, known]
    rfl
  · exact extended.grows.subset (same ▸ List.getElem_mem within)

end Vocabulary

namespace Lexicon

/-- Both numbers of a tag stand for words. -/
structure Knows (lex : Lexicon) (tag : Tag) : Prop where
  name : tag.name < lex.names.size
  value : tag.value < lex.values.size

/-- There is room for one more name and for one more value. -/
structure Roomy (lex : Lexicon) : Prop where
  names : lex.names.Roomy
  values : lex.values.Roomy

instance (lex : Lexicon) : Decidable lex.Roomy :=
  decidable_of_iff (lex.names.Roomy ∧ lex.values.Roomy)
    ⟨fun both => ⟨both.1, both.2⟩, fun roomy => ⟨roomy.names, roomy.values⟩⟩

structure Extends (a b : Lexicon) : Prop where
  names : a.names.Extends b.names
  values : a.values.Extends b.values

theorem Extends.refl (lex : Lexicon) : lex.Extends lex := ⟨.refl _, .refl _⟩

theorem Extends.trans {a b c : Lexicon} (first : a.Extends b) (later : b.Extends c) : a.Extends c :=
  ⟨first.names.trans later.names, first.values.trans later.values⟩

theorem Extends.knows {a b : Lexicon} (extended : a.Extends b) {tag : Tag} (known : a.Knows tag) : b.Knows tag :=
  ⟨Nat.lt_of_lt_of_le known.name extended.names.grows.size_le,
    Nat.lt_of_lt_of_le known.value extended.values.grows.size_le⟩

theorem Extends.spell_eq {a b : Lexicon} (extended : a.Extends b) {tag : Tag} (known : a.Knows tag) :
    b.spell tag = a.spell tag := by
  rw [spell, spell, extended.names.grows.wordD_eq known.name, extended.values.grows.wordD_eq known.value]

theorem Extends.roomy {a b : Lexicon} (extended : a.Extends b) (room : b.Roomy) : a.Roomy :=
  ⟨extended.names.roomy room.names, extended.values.roomy room.values⟩

/-- A tag as a client gets to see it. -/
def clipTag (tag : String × String) : String × String := (tag.1, Text.clip valueRoom tag.2)

/-- The name and the value of a tag have numbers. -/
def Covers (lex : Lexicon) (tag : String × String) : Prop := tag.1 ∈ lex.names.words ∧ tag.2 ∈ lex.values.words

instance (lex : Lexicon) (tag : String × String) : Decidable (lex.Covers tag) := inferInstanceAs (Decidable (_ ∧ _))

/-- Those of the tags, clipped, for which there are words. -/
def kept (lex : Lexicon) (tags : List (String × String)) : List (String × String) :=
  (tags.map clipTag).filter (lex.Covers ·)

theorem kept_append (lex : Lexicon) (front back : List (String × String)) :
    lex.kept (front ++ back) = lex.kept front ++ lex.kept back := by
  rw [kept, List.map_append, List.filter_append]
  rfl

/-- Numbered tags stand, now and in all that the lexicon can become, for those
of the given tags for which there are words. While there is room that is all
of them. -/
structure Settles (lex : Lexicon) (tags : List (String × String)) (learnt : List Tag) : Prop where
  known : ∀ tag ∈ learnt, lex.Knows tag
  spelled : ∀ later, lex.Extends later → learnt.map later.spell = later.kept tags
  complete : ∀ later, lex.Extends later → later.Roomy → later.kept tags = tags.map clipTag

theorem Settles.extend {lex later : Lexicon} {tags : List (String × String)} {learnt : List Tag}
    (settled : lex.Settles tags learnt) (extended : lex.Extends later) : later.Settles tags learnt where
  known tag member := extended.knows (settled.known tag member)
  spelled last further := settled.spelled last (extended.trans further)
  complete last further := settled.complete last (extended.trans further)

theorem Settles.append {lex : Lexicon} {front back : List (String × String)} {first last : List Tag}
    (left : lex.Settles front first) (right : lex.Settles back last) : lex.Settles (front ++ back) (first ++ last) where
  known tag member := (List.mem_append.mp member).elim (left.known tag) (right.known tag)
  spelled later extended := by
    rw [List.map_append, left.spelled later extended, right.spelled later extended, kept_append]
  complete later extended room := by
    rw [kept_append, left.complete later extended room, right.complete later extended room, List.map_append]

/-- A dropped tag lacks a word, and as there is no room it always will. -/
theorem settles_dropped {lex : Lexicon} {tag : String × String}
    (full : tag.1 ∉ lex.names.words ∧ ¬lex.names.Roomy ∨
      Text.clip valueRoom tag.2 ∉ lex.values.words ∧ ¬lex.values.Roomy) : lex.Settles [tag] [] where
  known _ member := nomatch member
  spelled later extended := by
    have uncovered : ¬later.Covers (clipTag tag) := by
      rintro ⟨name, value⟩
      rcases full with ⟨absent, noRoom⟩ | ⟨absent, noRoom⟩
      · exact absent (extended.names.closed noRoom ▸ name)
      · exact absent (extended.values.closed noRoom ▸ value)
    have none : later.kept [tag] = [] := List.filter_cons_of_neg (by simpa using uncovered)
    exact none.symm
  complete later extended room := by
    have before := extended.roomy room
    rcases full with ⟨_, noRoom⟩ | ⟨_, noRoom⟩
    · exact absurd before.names noRoom
    · exact absurd before.values noRoom

theorem learnTag_settles (lex : Lexicon) (tag : String × String) :
    lex.Extends (lex.learnTag tag).1 ∧ (lex.learnTag tag).1.Settles [tag] (lex.learnTag tag).2.toList := by
  unfold learnTag
  split
  · rename_i refused
    exact ⟨.refl lex, settles_dropped (Or.inl (Vocabulary.learn_refused refused))⟩
  · rename_i names name atName
    obtain ⟨namesExtend, nameKnown⟩ := Vocabulary.learn_extends atName
    split
    · rename_i refused
      exact ⟨⟨namesExtend, .refl _⟩, settles_dropped (Or.inr (Vocabulary.learn_refused refused))⟩
    · rename_i values value atValue
      obtain ⟨valuesExtend, valueKnown⟩ := Vocabulary.learn_extends atValue
      have covered (later : Lexicon) (extended : Extends ⟨names, values⟩ later) : later.kept [tag] = [clipTag tag] :=
        List.filter_cons_of_pos (by
          simpa using ⟨(extended.names.word_eq nameKnown).2, (extended.values.word_eq valueKnown).2⟩)
      refine ⟨⟨namesExtend, valuesExtend⟩, fun learnt same => ?_, fun later extended => ?_,
        fun later extended _ => covered later extended⟩
      · cases List.mem_singleton.mp same
        exact ⟨(List.getElem?_eq_some_iff.mp nameKnown).1, (List.getElem?_eq_some_iff.mp valueKnown).1⟩
      have spelled : later.spell ⟨name, value⟩ = clipTag tag :=
        Prod.ext (extended.names.word_eq nameKnown).1 (extended.values.word_eq valueKnown).1
      rw [covered later extended, ← spelled]
      rfl

theorem learnTags_settles (lex : Lexicon) (tags : List (String × String)) :
    lex.Extends (lex.learnTags tags).1 ∧ (lex.learnTags tags).1.Settles tags (lex.learnTags tags).2 := by
  induction tags generalizing lex with
  | nil => exact ⟨.refl lex, fun _ member => (nomatch member), fun _ _ => rfl, fun _ _ _ => rfl⟩
  | cons tag rest ih =>
    obtain ⟨first, front⟩ := lex.learnTag_settles tag
    obtain ⟨later, back⟩ := ih (lex.learnTag tag).1
    exact ⟨first.trans later, (front.extend later).append back⟩

/-- A timer with its tags spelled out. -/
def spellTimer (lex : Lexicon) (timer : Timer) : Submission.Timer :=
  ⟨timer.value, timer.hits, timer.userTime, timer.systemTime, timer.tags.map lex.spell⟩

end Lexicon

/-- A timer with a change made to its tags. -/
def Submission.Timer.retag (f : List (String × String) → List (String × String)) (timer : Submission.Timer) :
    Submission.Timer := { timer with tags := f timer.tags }

namespace Lexicon

/-- The same for the tags of timers. -/
structure SettlesTimers (lex : Lexicon) (timers : List Submission.Timer) (learnt : List Timer) : Prop where
  known : ∀ timer ∈ learnt, ∀ tag ∈ timer.tags, lex.Knows tag
  spelled : ∀ later, lex.Extends later → learnt.map later.spellTimer = timers.map (·.retag later.kept)
  complete : ∀ later, lex.Extends later → later.Roomy →
    timers.map (·.retag later.kept) = timers.map (·.retag (·.map clipTag))

end Lexicon

theorem Window.learnTimers_settles (lex : Lexicon) (timers : List Submission.Timer) :
    lex.Extends (learnTimers lex timers).1 ∧
      (learnTimers lex timers).1.SettlesTimers timers (learnTimers lex timers).2 := by
  induction timers generalizing lex with
  | nil => exact ⟨.refl lex, fun _ member => (nomatch member), fun _ _ => rfl, fun _ _ _ => rfl⟩
  | cons timer rest ih =>
    obtain ⟨first, front⟩ := lex.learnTags_settles timer.tags
    obtain ⟨later, back⟩ := ih (lex.learnTags timer.tags).1
    refine ⟨first.trans later, fun learnt member tag tagged => ?_, fun last extended => ?_, fun last extended room => ?_⟩
    · rcases List.mem_cons.mp member with rfl | deeper
      · exact (front.extend later).known tag tagged
      · exact back.known learnt deeper tag tagged
    · rw [learnTimers, List.map_cons, List.map_cons, ← back.spelled last extended, Submission.Timer.retag,
        ← front.spelled last (later.trans extended)]
      rfl
    · rw [List.map_cons, List.map_cons, back.complete last extended room, Submission.Timer.retag,
        front.complete last (later.trans extended) room]
      rfl

end Rollup
