import Rollup.Proofs.Lexicon
import Rollup.Proofs.Walk

namespace Rollup

/-- The entries of a list that a mask marks. -/
def chosen {α : Type} : List Bool → List α → List α
  | mark :: mask, entry :: rest => if mark then entry :: chosen mask rest else chosen mask rest
  | _, _ => []

section Chosen

variable {α β : Type} {mask : List Bool} {l : List α}

theorem chosen_map (f : α → β) (mask : List Bool) (l : List α) : chosen mask (l.map f) = (chosen mask l).map f := by
  induction mask generalizing l with
  | nil => rfl
  | cons mark mask ih =>
    cases l with
    | nil => rfl
    | cons entry rest => cases mark <;> simp [chosen, ih]

theorem forall₂_chosen {R : α → β → Prop} {k : List β} (mask : List Bool) (related : List.Forall₂ R l k) :
    List.Forall₂ R (chosen mask l) (chosen mask k) := by
  induction related generalizing mask with
  | nil => cases mask <;> exact .nil
  | cons head _ ih =>
    cases mask with
    | nil => exact .nil
    | cons mark mask =>
      cases mark with
      | false => exact ih mask
      | true => exact .cons head (ih mask)

theorem chosen_append (same : mask.length = l.length) (more : List Bool) (k : List α) :
    chosen (mask ++ more) (l ++ k) = chosen mask l ++ chosen more k := by
  induction mask generalizing l with
  | nil =>
    obtain rfl := List.eq_nil_of_length_eq_zero same.symm
    rfl
  | cons mark mask ih =>
    cases l with
    | nil => cases same
    | cons entry rest =>
      have later := ih (Nat.succ.inj same)
      cases mark <;> simp [chosen, later]

theorem length_chosen (within : mask.length ≤ l.length) : (chosen mask l).length = mask.count true := by
  induction mask generalizing l with
  | nil => rfl
  | cons mark mask ih =>
    cases l with
    | nil => exact absurd within (Nat.not_succ_le_zero _)
    | cons entry rest =>
      have later := ih (Nat.le_of_succ_le_succ within)
      cases mark <;> simp [chosen, later]

theorem chosen_sublist (mask : List Bool) (l : List α) : (chosen mask l).Sublist l := by
  induction mask generalizing l with
  | nil => exact List.nil_sublist l
  | cons mark mask ih =>
    cases l with
    | nil => exact .slnil
    | cons entry rest =>
      cases mark with
      | false => exact (ih rest).cons entry
      | true => exact (ih rest).cons_cons entry

/-- What a mask leaves of a list: the entries that it marks, and all behind it. -/
def sifted (mask : List Bool) (l : List α) : List α := chosen mask l ++ l.drop mask.length

theorem sifted_append (same : mask.length = l.length) (more : List Bool) (k : List α) :
    sifted (mask ++ more) (l ++ k) = chosen mask l ++ sifted more k := by
  rw [sifted, chosen_append same, List.length_append, same, List.drop_length_add_append, List.append_assoc, sifted]

theorem mem_of_mem_sifted {entry : α} (member : entry ∈ sifted mask l) : entry ∈ l := by
  rcases List.mem_append.mp member with marked | behind
  · exact (chosen_sublist mask l).subset marked
  · exact List.mem_of_mem_drop behind

theorem length_sifted (within : mask.length ≤ l.length) :
    (sifted mask l).length = mask.count true + (l.length - mask.length) := by
  rw [sifted, List.length_append, length_chosen within, List.length_drop]

end Chosen

namespace Lexicon

variable (lex : Lexicon)

/-- Marks the tags that get a number when they are numbered one after the
other. -/
def mask (lex : Lexicon) : List (String × String) → List Bool
  | [] => []
  | tag :: rest => (lex.learnTag tag).2.isSome :: (lex.learnTag tag).1.mask rest

/-- The tags that are not dropped. -/
def fitting (lex : Lexicon) (tags : List (String × String)) : List (String × String) := chosen (lex.mask tags) tags

/-- The same for the tags of timers. -/
def timerMasks (lex : Lexicon) : List Submission.Timer → List (List Bool)
  | [] => []
  | timer :: rest => lex.mask timer.tags :: (lex.learnTags timer.tags).1.timerMasks rest

def fittingTimers (lex : Lexicon) : List Submission.Timer → List Submission.Timer
  | [] => []
  | timer :: rest => timer.retag lex.fitting :: (lex.learnTags timer.tags).1.fittingTimers rest

@[simp] theorem length_mask (tags : List (String × String)) : (lex.mask tags).length = tags.length := by
  induction tags generalizing lex with
  | nil => rfl
  | cons tag rest ih => exact congrArg Nat.succ (ih _)

theorem length_fittingTimers (timers : List Submission.Timer) : (lex.fittingTimers timers).length = timers.length := by
  induction timers generalizing lex with
  | nil => rfl
  | cons timer rest ih => exact congrArg Nat.succ (ih _)

theorem length_timerMasks (timers : List Submission.Timer) : (lex.timerMasks timers).length = timers.length := by
  induction timers generalizing lex with
  | nil => rfl
  | cons timer rest ih => exact congrArg Nat.succ (ih _)

theorem length_flatten_timerMasks (timers : List Submission.Timer) :
    (lex.timerMasks timers).flatten.length = (timers.flatMap (·.tags)).length := by
  induction timers generalizing lex with
  | nil => rfl
  | cons timer rest ih =>
    rw [timerMasks, List.flatten_cons, List.flatMap_cons, List.length_append, List.length_append, ih, length_mask]

theorem flatMap_fittingTimers (timers : List Submission.Timer) :
    (lex.fittingTimers timers).flatMap (·.tags) = chosen (lex.timerMasks timers).flatten (timers.flatMap (·.tags)) := by
  induction timers generalizing lex with
  | nil => rfl
  | cons timer rest ih =>
    rw [fittingTimers, timerMasks, List.flatMap_cons, List.flatMap_cons, List.flatten_cons,
      chosen_append (lex.length_mask timer.tags), ih]
    rfl

end Lexicon

namespace Submission

/-- A submission without the tags that would be dropped. What the walk does not
come by stays as it is. -/
def thin (s : Submission) (lex : Lexicon) : Submission :=
  let masks := lex.timerMasks s.timers
  let own := (Window.learnTimers lex s.timers).1.mask s.tags
  { s with
    timerTagCounts := masks.map (·.count true) ++ s.timerTagCounts.drop masks.length
    timerTagNames := sifted masks.flatten s.timerTagNames
    timerTagValues := sifted masks.flatten s.timerTagValues
    tagNames := chosen own s.tagNames
    tagValues := chosen own s.tagValues }

section Pairs

variable {dictionary : List String} {names values : List Nat}

theorem length_tagPairs (same : names.length = values.length) (named : ∀ index ∈ names, index < dictionary.length)
    (valued : ∀ index ∈ values, index < dictionary.length) :
    (tagPairs dictionary names values).length = names.length := by
  have pairs := (stand_tagPairs same named valued).1.length_eq
  rw [List.length_map] at pairs
  exact pairs.symm

theorem tagPairs_chosen (same : names.length = values.length) (named : ∀ index ∈ names, index < dictionary.length)
    (valued : ∀ index ∈ values, index < dictionary.length) (mask : List Bool) :
    tagPairs dictionary (chosen mask names) (chosen mask values) = chosen mask (tagPairs dictionary names values) := by
  obtain ⟨nameStand, valueStand⟩ := stand_tagPairs same named valued
  refine tagPairs_eq ?_ ?_
  · rw [← chosen_map]
    exact forall₂_chosen mask nameStand
  · rw [← chosen_map]
    exact forall₂_chosen mask valueStand

end Pairs

/-- The walk takes the tags of the next timer off the front. -/
theorem walk_front {dictionary : List String} {values users systems : List Duration} {value : Duration} {hit count : Nat}
    {hits counts ownNames ownWords names words : List Nat} (named : ownNames.length = count)
    (worded : ownWords.length = count) :
    walk dictionary (value :: values) (hit :: hits) (count :: counts) users systems (ownNames ++ names)
        (ownWords ++ words) =
      ⟨value, hit, users.headD 0, systems.headD 0, tagPairs dictionary ownNames ownWords⟩ ::
        walk dictionary values hits counts users.tail systems.tail names words := by
  have enough : count ≤ (ownNames ++ names).length ∧ count ≤ (ownWords ++ words).length := by
    rw [List.length_append, List.length_append]
    omega
  rw [walk, if_pos enough, List.take_left' named, List.take_left' worded, List.drop_left' named, List.drop_left' worded]

theorem exists_append_of_le {α : Type} {l : List α} {n : Nat} (within : n ≤ l.length) :
    ∃ own rest, l = own ++ rest ∧ own.length = n :=
  ⟨l.take n, l.drop n, (List.take_append_drop n l).symm, List.length_take_of_le within⟩

/-- Taking tags out of the arrays takes them out of the timers of the walk,
which stops where it did. -/
theorem walk_sifted {dictionary : List String} {values users systems : List Duration}
    {hits counts names words : List Nat} (named : ∀ index ∈ names, index < dictionary.length)
    (worded : ∀ index ∈ words, index < dictionary.length) (lex : Lexicon) {timers : List Timer}
    (walked : walk dictionary values hits counts users systems names words = timers) :
    walk dictionary values hits
        ((lex.timerMasks timers).map (·.count true) ++ counts.drop (lex.timerMasks timers).length) users systems
        (sifted (lex.timerMasks timers).flatten names) (sifted (lex.timerMasks timers).flatten words) =
      lex.fittingTimers timers := by
  induction timers generalizing values hits counts users systems names words lex with
  | nil => exact walked
  | cons timer rest ih =>
    -- A walk that gets on to a timer has found each array as that timer needs it.
    cases values with
    | nil => cases walked
    | cons value values =>
    cases hits with
    | nil => cases walked
    | cons hit hits =>
    cases counts with
    | nil => cases walked
    | cons count counts =>
    by_cases enough : count ≤ names.length ∧ count ≤ words.length
    · obtain ⟨ownNames, names, rfl, nameCount⟩ := exists_append_of_le enough.1
      obtain ⟨ownWords, words, rfl, wordCount⟩ := exists_append_of_le enough.2
      obtain ⟨ownNamed, named⟩ := List.forall_mem_append.mp named
      obtain ⟨ownWorded, worded⟩ := List.forall_mem_append.mp worded
      have same := nameCount.trans wordCount.symm
      rw [walk_front nameCount wordCount] at walked
      obtain ⟨rfl, onward⟩ := List.cons.inj walked
      have later := ih named worded (lex.learnTags (tagPairs dictionary ownNames ownWords)).1 onward
      have size : (lex.mask (tagPairs dictionary ownNames ownWords)).length = count := by
        rw [lex.length_mask, length_tagPairs same ownNamed ownWorded, nameCount]
      rw [Lexicon.timerMasks, List.map_cons, List.flatten_cons, List.length_cons, List.cons_append,
        List.drop_succ_cons, sifted_append (size.trans nameCount.symm), sifted_append (size.trans wordCount.symm),
        walk_front (length_chosen (size.trans nameCount.symm).le) (length_chosen (size.trans wordCount.symm).le),
        tagPairs_chosen same ownNamed ownWorded, later]
      rfl
    · rw [walk, if_neg enough] at walked
      cases walked

variable {s : Submission}

theorem Agrees.thin_timers (agrees : s.Agrees) (lex : Lexicon) : (s.thin lex).timers = lex.fittingTimers s.timers := by
  obtain ⟨⟨⟨named, worded⟩, _⟩, _⟩ := agrees.indices_lt
  exact walk_sifted named worded lex rfl

theorem Agrees.thin_tags (agrees : s.Agrees) (lex : Lexicon) :
    (s.thin lex).tags = (Window.learnTimers lex s.timers).1.fitting s.tags := by
  obtain ⟨⟨_, named⟩, worded⟩ := agrees.indices_lt
  exact tagPairs_chosen agrees.paired named worded _

/-- The timers of the walk have as many tags as the front of the tag counts
says. -/
theorem Agrees.tagCounts_timers (agrees : s.Agrees) :
    s.timers.map (·.tags.length) = s.timerTagCounts.take s.timers.length := by
  refine List.ext_getElem? fun k => ?_
  rw [List.getElem?_map, List.getElem?_take]
  split
  · rename_i within
    obtain ⟨timer, count, names, words, makes⟩ := (lt_length_timers_iff.mp within).makes
    rw [getElem?_timers, makes.timerAt?, makes.tagCount, Option.map_some, agrees.length_tags makes]
  · rename_i beyond
    rw [List.getElem?_eq_none_iff.mpr (Nat.not_lt.mp beyond), Option.map_none]

theorem tagsFit_length_timers (s : Submission) : s.TagsFit s.timers.length := by
  cases size : s.timers.length with
  | zero => exact tagsFit_zero s
  | succ last => exact (lt_length_timers_iff.mp (size ▸ Nat.lt_succ_self last)).tags

theorem Agrees.length_flatten_masks (agrees : s.Agrees) (lex : Lexicon) :
    (lex.timerMasks s.timers).flatten.length = s.tagStart s.timers.length := by
  rw [lex.length_flatten_timerMasks, List.length_flatMap, agrees.tagCounts_timers, tagStart]

/-- The tags that are taken out are missing from the arrays and from what the
counts are summed up to, though 64 bits may have no room for all of them. -/
theorem Agrees.thin_declaredTags (agrees : s.Agrees) (lex : Lexicon) :
    (s.thin lex).declaredTags = (lex.timerMasks s.timers).flatten.count true +
      (s.declaredTags - (lex.timerMasks s.timers).flatten.length) := by
  have fewer : (lex.timerMasks s.timers).flatten.count true ≤ s.tagStart s.timers.length :=
    List.count_le_length.trans_eq (agrees.length_flatten_masks lex)
  have parted : s.tagSum = s.tagStart s.timers.length + (s.timerTagCounts.drop s.timers.length).sum := by
    rw [tagStart, ← List.sum_append, List.take_append_drop]
    rfl
  have thinned : (s.thin lex).tagSum =
      (lex.timerMasks s.timers).flatten.count true + (s.timerTagCounts.drop s.timers.length).sum := by
    rw [List.count_flatten, ← lex.length_timerMasks s.timers, ← List.sum_append]
    rfl
  have told : s.tagStart s.timers.length ≤ s.declaredTags := s.tagsFit_length_timers.names.trans_eq agrees.timerNames.symm
  unfold declaredTags at told ⊢
  rw [parted] at told
  rw [thinned, agrees.length_flatten_masks, parted, Word.wrap_add_of_le fewer told]

/-- What is left of a submission whose arrays agree has arrays that agree. -/
theorem Agrees.thin (agrees : s.Agrees) (lex : Lexicon) : (s.thin lex).Agrees := by
  obtain ⟨⟨⟨timerNamed, timerWorded⟩, named⟩, worded⟩ := agrees.indices_lt
  have fit := s.tagsFit_length_timers
  have declared := agrees.thin_declaredTags lex
  have masks := agrees.length_flatten_masks lex
  have own : ((Window.learnTimers lex s.timers).1.mask s.tags).length = s.tagNames.length := by
    rw [Lexicon.length_mask]
    exact length_tagPairs agrees.paired named worded
  exact {
    hitCounts := agrees.hitCounts
    tagCounts := by
      have walked := s.length_timers_le
      have counts := agrees.tagCounts
      rw [Submission.thin, List.length_append, List.length_map, List.length_drop, lex.length_timerMasks]
      exact (by omega : s.timers.length + (s.timerTagCounts.length - s.timers.length) = s.timerCount)
    userTimes := agrees.userTimes
    systemTimes := agrees.systemTimes
    hit := agrees.hit
    timerNames := by
      rw [declared, agrees.timerNames, ← length_sifted (masks.trans_le fit.names)]
      rfl
    timerWords := by
      rw [declared, agrees.timerWords, ← length_sifted (masks.trans_le fit.words)]
      rfl
    paired := by
      rw [Submission.thin, length_chosen own.le, length_chosen (own.trans agrees.paired).le]
    known := by
      rw [indices, List.forall_mem_append, List.forall_mem_append, List.forall_mem_append]
      exact ⟨⟨⟨fun index member => timerNamed index (mem_of_mem_sifted member),
        fun index member => timerWorded index (mem_of_mem_sifted member)⟩,
        fun index member => named index ((chosen_sublist _ _).subset member)⟩,
        fun index member => worded index ((chosen_sublist _ _).subset member)⟩ }

end Submission

end Rollup
