import Mathlib.Data.List.Perm.Subperm
import Rollup.Proofs.Screening
import Rollup.Proofs.Thinning

namespace Rollup

namespace Vocabulary

/-- A word has a number, or there is room for it. -/
def Admits (v : Vocabulary) (word : String) : Prop := word ∈ v.words ∨ v.Roomy

instance (v : Vocabulary) (word : String) : Decidable (v.Admits word) := inferInstanceAs (Decidable (_ ∨ _))

/-- The vocabulary with a word in it. -/
def including (v : Vocabulary) (word : String) : Vocabulary :=
  if word ∈ v.words then v else { v with words := v.words ++ [word] }

theorem including_of_mem {v : Vocabulary} {word : String} (known : word ∈ v.words) : v.including word = v := if_pos known

theorem including_of_new {v : Vocabulary} {word : String} (new : word ∉ v.words) :
    v.including word = { v with words := v.words ++ [word] } := if_neg new

theorem learn_of_admits {v : Vocabulary} {word : String} (admits : v.Admits word) :
    ∃ id, v.learn word = .ok (v.including word, id) := by
  unfold learn
  split
  · rename_i id found
    have known : word ∈ v.words := List.isSome_idxOf?.mp (Option.isSome_of_eq_some found)
    exact ⟨id, by rw [including_of_mem known]⟩
  · rename_i missing
    have new : word ∉ v.words := List.idxOf?_eq_none_iff.mp missing
    have room : v.words.length < v.limit := admits.resolve_left new
    exact ⟨v.words.length, by rw [if_pos room, including_of_new new]⟩

theorem learn_of_not_admits {v : Vocabulary} {word : String} (refused : ¬v.Admits word) :
    v.learn word = .error ⟨v.limit⟩ := by
  obtain ⟨new, full⟩ := not_or.mp refused
  have missing : v.find? word = none := List.idxOf?_eq_none_iff.mpr new
  rw [learn, missing]
  exact if_neg full

/-- One vocabulary has the words of another one and some that were left to it,
for which there was room. -/
structure Sheds (v rest : Vocabulary) (left : List String) : Prop where
  limit : rest.limit = v.limit
  fewer : rest.words.Subperm v.words
  known : ∀ word, word ∈ v.words ↔ word ∈ rest.words ∨ word ∈ left
  within : left ≠ [] → v.size ≤ v.limit

variable {v rest : Vocabulary} {left : List String} {word : String}

theorem Sheds.refl (v : Vocabulary) : v.Sheds v [] :=
  ⟨rfl, List.Subperm.refl _, fun _ => by simp, fun some => absurd rfl some⟩

/-- A word that only the larger vocabulary has leaves room in the other one. -/
theorem Sheds.roomy (sheds : v.Sheds rest left) (more : word ∈ v.words) (lacking : word ∉ rest.words) : rest.Roomy := by
  have among : word ∈ left := ((sheds.known word).mp more).resolve_left lacking
  have within := sheds.within (List.ne_nil_of_mem among)
  have smaller := (List.cons_subperm_of_not_mem_of_mem lacking more sheds.fewer).length_le
  rw [List.length_cons] at smaller
  rw [Roomy, sheds.limit]
  exact Nat.lt_of_lt_of_le smaller within

theorem Sheds.admits (sheds : v.Sheds rest left) (admits : v.Admits word) : rest.Admits word := by
  by_cases here : word ∈ rest.words
  · exact Or.inl here
  right
  rcases admits with known | room
  · exact sheds.roomy known here
  · have smaller := sheds.fewer.length_le
    rw [Roomy, sheds.limit]
    exact Nat.lt_of_le_of_lt smaller room

/-- A word that both take in changes nothing about what was left. -/
theorem Sheds.including (sheds : v.Sheds rest left) (admits : v.Admits word) :
    (v.including word).Sheds (rest.including word) left := by
  -- The word is in both, in the larger one only, or in neither.
  by_cases here : word ∈ rest.words
  · rw [including_of_mem here, including_of_mem ((sheds.known word).mpr (Or.inl here))]
    exact sheds
  rw [including_of_new here]
  by_cases known : word ∈ v.words
  · rw [including_of_mem known]
    refine ⟨sheds.limit, ?_, fun other => ?_, sheds.within⟩
    · exact List.perm_append_singleton word rest.words |>.subperm.trans
        (List.cons_subperm_of_not_mem_of_mem here known sheds.fewer)
    · rw [sheds.known other, List.mem_append, List.mem_singleton]
      constructor
      · exact Or.imp_left Or.inl
      · rintro ((old | rfl) | among)
        · exact Or.inl old
        · exact (sheds.known other).mp known
        · exact Or.inr among
  · rw [including_of_new known]
    refine ⟨sheds.limit, (List.subperm_append_right [word]).mpr sheds.fewer, fun other => ?_, fun _ => ?_⟩
    · rw [List.mem_append, List.mem_append, sheds.known other, or_right_comm]
    · have room : v.words.length < v.limit := admits.resolve_left known
      rw [size, List.length_append, List.length_singleton]
      exact room

/-- A new word that only the larger one takes in is one more that was left. -/
theorem Sheds.leave (sheds : v.Sheds rest left) (new : word ∉ v.words) (room : v.Roomy) :
    (v.including word).Sheds rest (left ++ [word]) := by
  rw [including_of_new new]
  refine ⟨sheds.limit, sheds.fewer.trans (List.sublist_append_left _ _).subperm, fun other => ?_, fun _ => ?_⟩
  · rw [List.mem_append, sheds.known other, List.mem_append, or_assoc]
  · rw [size, List.length_append, List.length_singleton]
    exact room

end Vocabulary

namespace Lexicon

/-- All that can become of a tag: it is kept, or its name stays and its value is
refused, or its name is refused. -/
theorem learnTag_cases (lex : Lexicon) (tag : String × String) :
    (lex.names.Admits tag.1 ∧ lex.values.Admits (Text.clip valueRoom tag.2) ∧ ∃ learnt, lex.learnTag tag =
        (⟨lex.names.including tag.1, lex.values.including (Text.clip valueRoom tag.2)⟩, some learnt)) ∨
      (lex.names.Admits tag.1 ∧ ¬lex.values.Admits (Text.clip valueRoom tag.2) ∧
        lex.learnTag tag = (⟨lex.names.including tag.1, lex.values⟩, none)) ∨
      ¬lex.names.Admits tag.1 ∧ lex.learnTag tag = (lex, none) := by
  unfold learnTag
  by_cases named : lex.names.Admits tag.1
  · obtain ⟨name, atName⟩ := Vocabulary.learn_of_admits named
    rw [atName]
    by_cases valued : lex.values.Admits (Text.clip valueRoom tag.2)
    · obtain ⟨value, atValue⟩ := Vocabulary.learn_of_admits valued
      exact Or.inl ⟨named, valued, ⟨name, value⟩, by rw [atValue]⟩
    · exact Or.inr (Or.inl ⟨named, valued, by rw [Vocabulary.learn_of_not_admits valued]⟩)
  · exact Or.inr (Or.inr ⟨named, by rw [Vocabulary.learn_of_not_admits named]⟩)

/-- A tag is dropped for its value, and leaves its name behind, which is new. -/
structure Strays (lex : Lexicon) (tag : String × String) : Prop where
  new : tag.1 ∉ lex.names.words
  room : lex.names.Roomy
  refused : ¬lex.values.Admits (Text.clip valueRoom tag.2)

instance (lex : Lexicon) (tag : String × String) : Decidable (lex.Strays tag) :=
  decidable_of_iff (tag.1 ∉ lex.names.words ∧ lex.names.Roomy ∧ ¬lex.values.Admits (Text.clip valueRoom tag.2))
    ⟨fun ⟨new, room, refused⟩ => ⟨new, room, refused⟩, fun strays => ⟨strays.new, strays.room, strays.refused⟩⟩

/-- The names that dropped tags leave behind. -/
def strayed (lex : Lexicon) : List (String × String) → List String
  | [] => []
  | tag :: rest => (if lex.Strays tag then [tag.1] else []) ++ (lex.learnTag tag).1.strayed rest

def strayedTimers (lex : Lexicon) : List Submission.Timer → List String
  | [] => []
  | timer :: rest => lex.strayed timer.tags ++ (lex.learnTags timer.tags).1.strayedTimers rest

/-- The same values, and names of which some were left to the larger lexicon. -/
structure Sheds (lex rest : Lexicon) (left : List String) : Prop where
  names : lex.names.Sheds rest.names left
  values : rest.values = lex.values

variable {lex rest : Lexicon} {left : List String}

theorem Sheds.refl (lex : Lexicon) : lex.Sheds lex [] := ⟨.refl lex.names, rfl⟩

/-- A tag is either kept by both lexicons or dropped by the larger one, and then
the other one need not see it. -/
theorem Sheds.learnTag (sheds : lex.Sheds rest left) (tag : String × String) :
    (lex.learnTag tag).2.isSome ∧ (rest.learnTag tag).2.isSome ∧ (lex.learnTag tag).1.Sheds (rest.learnTag tag).1 left ∧
        ¬lex.Strays tag ∨
      (lex.learnTag tag).2 = none ∧
        (lex.learnTag tag).1.Sheds rest (left ++ if lex.Strays tag then [tag.1] else []) := by
  rcases lex.learnTag_cases tag with ⟨named, valued, learnt, done⟩ | ⟨named, refused, done⟩ | ⟨refused, done⟩
  · left
    have namedToo := sheds.names.admits named
    have valuedToo : rest.values.Admits (Text.clip valueRoom tag.2) := sheds.values ▸ valued
    rcases rest.learnTag_cases tag with ⟨_, _, also, doneToo⟩ | ⟨_, refused, _⟩ | ⟨refused, _⟩
    · rw [done, doneToo]
      refine ⟨rfl, rfl, ⟨sheds.names.including named, ?_⟩, fun strays => strays.refused valued⟩
      rw [sheds.values]
    · exact absurd valuedToo refused
    · exact absurd namedToo refused
  · right
    rw [done]
    refine ⟨rfl, ⟨?_, sheds.values⟩⟩
    by_cases new : tag.1 ∈ lex.names.words
    · rw [if_neg fun strays => strays.new new, List.append_nil, Vocabulary.including_of_mem new]
      exact sheds.names
    · have room := named.resolve_left new
      rw [if_pos ⟨new, room, refused⟩]
      exact sheds.names.leave new room
  · right
    rw [done, if_neg fun strays => refused (Or.inr strays.room), List.append_nil]
    exact ⟨rfl, sheds⟩

theorem learnTags_cons (tag : String × String) (rest : List (String × String)) :
    lex.learnTags (tag :: rest) = (((lex.learnTag tag).1.learnTags rest).1,
      (lex.learnTag tag).2.toList ++ ((lex.learnTag tag).1.learnTags rest).2) := rfl

theorem learnTimers_cons (timer : Submission.Timer) (rest : List Submission.Timer) :
    Window.learnTimers lex (timer :: rest) = ((Window.learnTimers (lex.learnTags timer.tags).1 rest).1,
      ⟨timer.value, timer.hits, timer.userTime, timer.systemTime, (lex.learnTags timer.tags).2⟩ ::
        (Window.learnTimers (lex.learnTags timer.tags).1 rest).2) := rfl

theorem fitting_of_kept {tag : String × String} (kept : (lex.learnTag tag).2.isSome) (rest : List (String × String)) :
    lex.fitting (tag :: rest) = tag :: (lex.learnTag tag).1.fitting rest := if_pos kept

theorem fitting_of_dropped {tag : String × String} (dropped : (lex.learnTag tag).2 = none)
    (rest : List (String × String)) : lex.fitting (tag :: rest) = (lex.learnTag tag).1.fitting rest := by
  refine if_neg ?_
  rw [dropped]
  exact Bool.false_ne_true

/-- What the larger lexicon keeps of some tags the other one keeps, too, though it
never sees those that are dropped. -/
theorem Sheds.learnTags (sheds : lex.Sheds rest left) (tags : List (String × String)) :
    (lex.learnTags tags).1.Sheds (rest.learnTags (lex.fitting tags)).1 (left ++ lex.strayed tags) ∧
      rest.fitting (lex.fitting tags) = lex.fitting tags := by
  induction tags generalizing lex rest left with
  | nil => exact ⟨(List.append_nil left).symm ▸ sheds, rfl⟩
  | cons tag tags ih =>
    rw [strayed, ← List.append_assoc]
    rcases sheds.learnTag tag with ⟨kept, keptToo, next, straight⟩ | ⟨dropped, next⟩
    · obtain ⟨later, same⟩ := ih next
      rw [fitting_of_kept kept, fitting_of_kept keptToo, same, if_neg straight, List.append_nil]
      exact ⟨later, rfl⟩
    · rw [fitting_of_dropped dropped]
      exact ih next

theorem Sheds.learnTimers (sheds : lex.Sheds rest left) (timers : List Submission.Timer) :
    (Window.learnTimers lex timers).1.Sheds (Window.learnTimers rest (lex.fittingTimers timers)).1
        (left ++ lex.strayedTimers timers) ∧
      rest.fittingTimers (lex.fittingTimers timers) = lex.fittingTimers timers := by
  induction timers generalizing lex rest left with
  | nil => exact ⟨(List.append_nil left).symm ▸ sheds, rfl⟩
  | cons timer timers ih =>
    obtain ⟨next, sameTags⟩ := sheds.learnTags timer.tags
    obtain ⟨later, same⟩ := ih next
    rw [strayedTimers, ← List.append_assoc]
    refine ⟨later, ?_⟩
    have tags : (timer.retag lex.fitting).retag rest.fitting = timer.retag lex.fitting := by
      unfold Submission.Timer.retag
      rw [sameTags]
    exact congrArg₂ List.cons tags same

/-- A tag that is kept is spelled as it was, its value clipped. -/
theorem learnTag_spelled {tag : String × String} {learnt : Tag} (kept : (lex.learnTag tag).2 = some learnt)
    {later : Lexicon} (extended : (lex.learnTag tag).1.Extends later) : later.spell learnt = clipTag tag := by
  have spelled := (lex.learnTag_settles tag).2.spelled later extended
  rw [kept] at spelled
  have member : later.spell learnt ∈ later.kept [tag] := spelled ▸ List.mem_singleton_self _
  exact List.mem_singleton.mp (List.mem_of_mem_filter member)

theorem learnTags_spelled (tags : List (String × String)) {later : Lexicon}
    (extended : (lex.learnTags tags).1.Extends later) :
    (lex.learnTags tags).2.map later.spell = (lex.fitting tags).map clipTag := by
  induction tags generalizing lex with
  | nil => rfl
  | cons tag rest ih =>
    rw [learnTags_cons] at extended ⊢
    have front := ((lex.learnTag tag).1.learnTags_settles rest).1.trans extended
    rw [List.map_append, ih extended]
    cases learnt : (lex.learnTag tag).2 with
    | none =>
      rw [fitting_of_dropped learnt]
      rfl
    | some number =>
      rw [fitting_of_kept (Option.isSome_of_eq_some learnt), List.map_cons, ← learnTag_spelled learnt front]
      rfl

theorem learnTimers_spelled (timers : List Submission.Timer) {later : Lexicon}
    (extended : (Window.learnTimers lex timers).1.Extends later) :
    (Window.learnTimers lex timers).2.map later.spellTimer =
      (lex.fittingTimers timers).map (·.retag (·.map clipTag)) := by
  induction timers generalizing lex with
  | nil => rfl
  | cons timer rest ih =>
    rw [learnTimers_cons] at extended ⊢
    have front := (Window.learnTimers_settles (lex.learnTags timer.tags).1 rest).1.trans extended
    have own := learnTags_spelled timer.tags front
    rw [fittingTimers, List.map_cons, List.map_cons, ← ih extended, spellTimer, own]
    rfl

/-- A dropped tag that leaves no name behind leaves nothing. -/
theorem learnTag_of_dropped {tag : String × String} (dropped : (lex.learnTag tag).2 = none) (straight : ¬lex.Strays tag) :
    (lex.learnTag tag).1 = lex := by
  rcases lex.learnTag_cases tag with ⟨_, _, learnt, done⟩ | ⟨named, refused, done⟩ | ⟨_, done⟩
  · rw [done] at dropped
    cases dropped
  · have known : tag.1 ∈ lex.names.words := by
      by_contra new
      exact straight ⟨new, named.resolve_left new, refused⟩
    rw [done, Vocabulary.including_of_mem known]
  · rw [done]

theorem learnTags_fitting {tags : List (String × String)} (straight : lex.strayed tags = []) :
    lex.learnTags (lex.fitting tags) = lex.learnTags tags := by
  induction tags generalizing lex with
  | nil => rfl
  | cons tag rest ih =>
    obtain ⟨here, later⟩ := List.append_eq_nil_iff.mp straight
    have notHere : ¬lex.Strays tag := fun strays => by
      rw [if_pos strays] at here
      cases here
    cases learnt : (lex.learnTag tag).2 with
    | none =>
      have nothing := learnTag_of_dropped learnt notHere
      rw [nothing] at later
      rw [fitting_of_dropped learnt, learnTags_cons, learnt, nothing, ih later]
      rfl
    | some number =>
      rw [fitting_of_kept (Option.isSome_of_eq_some learnt), learnTags_cons, learnTags_cons, ih later]

theorem learnTimers_fitting {timers : List Submission.Timer} (straight : lex.strayedTimers timers = []) :
    Window.learnTimers lex (lex.fittingTimers timers) = Window.learnTimers lex timers := by
  induction timers generalizing lex with
  | nil => rfl
  | cons timer rest ih =>
    obtain ⟨here, later⟩ := List.append_eq_nil_iff.mp straight
    have own : lex.learnTags (timer.retag lex.fitting).tags = lex.learnTags timer.tags := learnTags_fitting here
    rw [fittingTimers, learnTimers_cons, learnTimers_cons, own, ih later]
    rfl

end Lexicon

namespace Submission

/-- The names that tags of a submission leave behind though they are dropped. -/
def strayed (s : Submission) (lex : Lexicon) : List String :=
  lex.strayedTimers s.timers ++ (Window.learnTimers lex s.timers).1.strayed s.tags

variable {s : Submission}

theorem Agrees.thin_thin (agrees : s.Agrees) (lex : Lexicon) :
    ((s.thin lex).thin lex).timers = (s.thin lex).timers ∧ ((s.thin lex).thin lex).tags = (s.thin lex).tags := by
  obtain ⟨sheds, timers⟩ := (Lexicon.Sheds.refl lex).learnTimers s.timers
  have tags := (sheds.learnTags s.tags).2
  rw [(agrees.thin lex).thin_timers, (agrees.thin lex).thin_tags, agrees.thin_timers, agrees.thin_tags]
  exact ⟨timers, tags⟩

end Submission

namespace Window

variable {s : Submission}

/-- Of the lexicons that a submission leads to, whole and thinned out, the first
has the names left behind besides. -/
theorem keep_sheds (agrees : s.Agrees) (w : Window) (now : Instant) :
    (w.keep s now).lexicon.Sheds (w.keep (s.thin w.lexicon) now).lexicon (s.strayed w.lexicon) := by
  have timers := ((Lexicon.Sheds.refl w.lexicon).learnTimers s.timers).1
  rw [keep_lexicon, keep_lexicon, agrees.thin_timers, agrees.thin_tags]
  exact (timers.learnTags s.tags).1

/-- What is kept of a submission is all that its thinned out form says. -/
theorem keep_reading (agrees : s.Agrees) (w : Window) (now : Instant) :
    ((w.keep s now).viewOf (w.recordOf s now)).reading = (s.thin w.lexicon).reading := by
  have after := ((learnTimers w.lexicon s.timers).1.learnTags_settles s.tags).1
  have timers := Lexicon.learnTimers_spelled s.timers after
  have tags := (learnTimers w.lexicon s.timers).1.learnTags_spelled s.tags (.refl _)
  have read := w.keep_read_new s now
  have count : (s.thin w.lexicon).timers.length = s.timers.length := by
    rw [agrees.thin_timers, Lexicon.length_fittingTimers]
  rw [Submission.reading, Submission.readingWith, Submission.readingOf, Submission.retag_keptTimers, count,
    agrees.thin_timers, agrees.thin_tags, ← timers, ← tags, ← List.map_take, ← read]
  rfl

/-- The requests that were there before show what they did, and the new one
shows what was not dropped. -/
theorem Sound.keep_shown {w : Window} (sound : w.Sound) (agrees : s.Agrees) (now : Instant) :
    (w.keep s now).views.map View.shown = w.views.map View.shown ++
      [(w.nextId, max (max now w.lastTimestamp) firstMoment, (s.thin w.lexicon).reading)] := by
  have old (v : View) (member : v ∈ w.views) : (v.relearn (w.keep s now).lexicon).shown = v.shown := by
    have reading := (sound.relearn_twin (w.keep_extends s now) member).reading_eq
    rw [View.shown, View.shown, reading]
    rfl
  have new : ((w.keep s now).viewOf (w.recordOf s now)).shown =
      (w.nextId, max (max now w.lastTimestamp) firstMoment, (s.thin w.lexicon).reading) := by
    rw [View.shown, keep_reading agrees]
    rfl
  rw [sound.keep_views, List.map_append, List.map_map, List.map_singleton, new]
  exact congrArg (· ++ _) (List.map_congr_left old)

theorem foldr_sizes {α : Type} (size : α → Nat) (l : List α) (n : Nat) :
    l.foldr (fun entry sum => size entry + sum) n = (l.map size).sum + n := by
  induction l with
  | nil => exact (Nat.zero_add n).symm
  | cons entry rest ih => rw [List.foldr_cons, ih, List.map_cons, List.sum_cons, Nat.add_assoc]

/-- As many tags are numbered as the thinned out submission has. -/
theorem numbered_eq (agrees : s.Agrees) (lex : Lexicon) :
    (learnTimers lex s.timers).2.foldr (fun timer n => timer.tags.length + n)
      ((learnTimers lex s.timers).1.learnTags s.tags).2.length = tagsGiven (s.thin lex) := by
  have tags := congrArg List.length ((learnTimers lex s.timers).1.learnTags_spelled s.tags (.refl _))
  have timers := congrArg (List.map (·.tags.length)) (lex.learnTimers_spelled s.timers (.refl _))
  simp only [List.length_map, List.map_map, Function.comp_def, Lexicon.spellTimer, Submission.Timer.retag] at tags timers
  rw [tagsGiven, agrees.thin_timers, agrees.thin_tags,
    foldr_sizes fun timer : Timer => timer.tags.length,
    foldr_sizes fun timer : Submission.Timer => timer.tags.length, timers, tags]

theorem keep_droppedTags (agrees : s.Agrees) (w : Window) (now : Instant) :
    (w.keep s now).droppedTags = w.droppedTags + (tagsGiven s - tagsGiven (s.thin w.lexicon)) := by
  rw [← numbered_eq agrees]
  rfl

/-- A submission that is thinned out already loses no tags. -/
theorem keep_thin_droppedTags (agrees : s.Agrees) (w : Window) (now : Instant) :
    (w.keep (s.thin w.lexicon) now).droppedTags = w.droppedTags := by
  obtain ⟨timers, tags⟩ := agrees.thin_thin w.lexicon
  have given : tagsGiven ((s.thin w.lexicon).thin w.lexicon) = tagsGiven (s.thin w.lexicon) := by
    rw [tagsGiven, tagsGiven, timers, tags]
  rw [keep_droppedTags (agrees.thin w.lexicon), given, Nat.sub_self, Nat.add_zero]

theorem tagsGiven_eq (s : Submission) : tagsGiven s = (s.timers.flatMap (·.tags)).length + s.tags.length := by
  rw [tagsGiven, foldr_sizes fun timer : Submission.Timer => timer.tags.length, List.length_flatMap]

theorem tagsGiven_thin_le (agrees : s.Agrees) (lex : Lexicon) : tagsGiven (s.thin lex) ≤ tagsGiven s := by
  rw [tagsGiven_eq, tagsGiven_eq, agrees.thin_timers, agrees.thin_tags, lex.flatMap_fittingTimers]
  exact Nat.add_le_add (chosen_sublist _ _).length_le (chosen_sublist _ _).length_le

/-- The same window with more tags counted as dropped. -/
def withDropped (w : Window) (n : Nat) : Window := { w with droppedTags := w.droppedTags + n }

theorem keep_withDropped (w : Window) (n : Nat) (s : Submission) (now : Instant) :
    (w.withDropped n).keep s now = (w.keep s now).withDropped n := by
  unfold keep withDropped
  dsimp only
  rw [Nat.add_right_comm]

theorem append_withDropped (w : Window) (n : Nat) (s : Submission) (now : Instant) :
    (w.withDropped n).append s now = (w.append s now).map fun both => (both.1.withDropped n, both.2) := by
  have full : (w.withDropped n).isFull = w.isFull := rfl
  unfold append
  rw [full, keep_withDropped]
  cases s.check with
  | error fault => rfl
  | ok _ => cases w.isFull <;> rfl

/-- How many tags were dropped makes no difference to what comes after. -/
theorem act_withDropped (w : Window) (n : Nat) (action : Action) :
    (w.withDropped n).act action = (w.act action).withDropped n := by
  cases action with
  | append s now =>
    unfold act
    dsimp only
    rw [append_withDropped]
    cases w.append s now <;> rfl
  | drop count =>
    have requests : (w.withDropped n).requests = w.requests := rfl
    unfold act dropOldest
    dsimp only
    rw [requests]
    cases (w.requests.take count).getLast? <;> rfl

theorem play_withDropped (w : Window) (n : Nat) (actions : List Action) :
    (w.withDropped n).play actions = (w.play actions).withDropped n := by
  induction actions generalizing w with
  | nil => rfl
  | cons action rest ih =>
    have next := ih (w.act action)
    rw [← act_withDropped] at next
    exact next

/-- Where no name is left behind, dropped tags make no difference but to their
number. -/
theorem keep_thin (agrees : s.Agrees) (w : Window) (now : Instant) (straight : s.strayed w.lexicon = []) :
    w.keep s now = (w.keep (s.thin w.lexicon) now).withDropped (tagsGiven s - tagsGiven (s.thin w.lexicon)) := by
  obtain ⟨timersStraight, tagsStraight⟩ := List.append_eq_nil_iff.mp straight
  have timers := Lexicon.learnTimers_fitting timersStraight
  have tags := Lexicon.learnTags_fitting tagsStraight
  have lexicon : (w.keep (s.thin w.lexicon) now).lexicon = (w.keep s now).lexicon := by
    rw [keep_lexicon, keep_lexicon, agrees.thin_timers, agrees.thin_tags, timers, tags]
  have ring : (w.keep (s.thin w.lexicon) now).ring = (w.keep s now).ring := by
    rw [keep_ring, keep_ring, agrees.thin_timers, timers]
    rfl
  have record : w.recordOf (s.thin w.lexicon) now = w.recordOf s now := by
    unfold recordOf
    rw [agrees.thin_timers, agrees.thin_tags, timers, tags]
    rfl
  rw [withDropped, keep_thin_droppedTags agrees, ← keep_droppedTags agrees w now, keep_requests, record, ring, lexicon]
  rfl

/-- A dropped tag costs itself, and at times a place for a name. Whatever came
before, a submission is kept as if the tags that are dropped had never been
sent: every request shows the same, the same values are known, and the count of
dropped tags grows by these tags. Names that dropped tags leave behind are known
besides. Where there are none, nothing else differs, now or later. -/
theorem append_as_if_thinned (capacity growStep shrinkFactor mostWords : Nat) (before : List Action) (s : Submission)
    (now : Instant) (sound : s.check = .ok ())
    (space : ((empty capacity growStep shrinkFactor mostWords).play before).isFull = false) :
    let w := (empty capacity growStep shrinkFactor mostWords).play before
    let thinned := s.thin w.lexicon
    ∃ after without, w.append s now = .ok (after, w.nextId) ∧ w.append thinned now = .ok (without, w.nextId) ∧
      after.views.map View.shown = without.views.map View.shown ∧
      after.lexicon.values = without.lexicon.values ∧
      (∀ name, name ∈ after.lexicon.names.words ↔
        name ∈ without.lexicon.names.words ∨ name ∈ s.strayed w.lexicon) ∧
      without.droppedTags = w.droppedTags ∧ after.droppedTags + tagsGiven thinned = w.droppedTags + tagsGiven s ∧
      (s.strayed w.lexicon = [] → ∀ later,
        after.play later = (without.play later).withDropped (tagsGiven s - tagsGiven thinned)) := by
  intro w thinned
  have agrees := Submission.check_eq_ok_iff.mp sound
  have thinnedSound := Submission.check_eq_ok_iff.mpr (agrees.thin w.lexicon)
  have models := (Queue.empty_models capacity growStep shrinkFactor mostWords).play before
  have sheds := keep_sheds agrees w now
  refine ⟨_, _, append_ok sound space now, append_ok thinnedSound space now, ?_, sheds.values.symm,
    sheds.names.known, keep_thin_droppedTags agrees w now, ?_, fun straight later => ?_⟩
  · obtain ⟨timers, tags⟩ := agrees.thin_thin w.lexicon
    have same : (thinned.thin w.lexicon).reading = thinned.reading := by
      rw [Submission.reading, Submission.readingWith, Submission.readingOf, Submission.keptTimers, timers, tags]
      rfl
    rw [models.sound.keep_shown agrees, models.sound.keep_shown (agrees.thin w.lexicon), same]
  · have fewer : tagsGiven thinned ≤ tagsGiven s := tagsGiven_thin_le agrees w.lexicon
    have dropped : (w.keep s now).droppedTags = w.droppedTags + (tagsGiven s - tagsGiven thinned) :=
      keep_droppedTags agrees w now
    show (w.keep s now).droppedTags + tagsGiven thinned = w.droppedTags + tagsGiven s
    omega
  · rw [keep_thin agrees w now straight, play_withDropped]

/-- Two tags that take up all room for values, and half of that for names. -/
def filling : Submission := .assemble "first" [.tag "a" "x", .tag "a" "y"]

/-- A timer and the request itself each have a tag that fits and one that does
not. -/
def partlyFitting : Submission :=
  .assemble "second" [.tag "b" "z", .tag "a" "y", .timer { value := .ofMillis 3, tags := [("a", "x"), ("a", "w")] }]

theorem append_partly_fitting :
    let w := (empty 4 2 1 2).play [.append filling ⟨5⟩]
    partlyFitting.check = .ok () ∧ w.isFull = false ∧ partlyFitting.strayed w.lexicon = ["b"] ∧
      ∃ after without, w.append partlyFitting ⟨7⟩ = .ok (after, 2) ∧
        w.append (partlyFitting.thin w.lexicon) ⟨7⟩ = .ok (without, 2) ∧
        after.views.map View.shown = without.views.map View.shown ∧ after.lexicon.names.words = ["a", "b"] ∧
        without.lexicon.names.words = ["a"] ∧ after.droppedTags = 2 := by
  intro w
  have sound : partlyFitting.check = .ok () := by decide
  have space : w.isFull = false := by decide
  obtain ⟨after, without, appended, thinned, shown, -, -, -, -, -⟩ :=
    append_as_if_thinned 4 2 1 2 [.append filling ⟨5⟩] partlyFitting ⟨7⟩ sound space
  cases append_eq_ok appended
  cases append_eq_ok thinned
  exact ⟨sound, space, by decide +kernel, _, _, appended, thinned, shown, by decide +kernel, by decide +kernel,
    by decide +kernel⟩

/-- A tag is dropped as there is no room for its value, and its name takes the
last room for names. A later tag, whose value is known, is dropped for want of
that room, though it is kept where the first had been taken out. -/
theorem dropped_tag_drops_another :
    let w := (empty 4 2 1 2).play [.append filling ⟨5⟩]
    let refused : Submission := .assemble "second" [.tag "b" "z"]
    let later := [Action.append (.assemble "third" [.tag "c" "x"]) ⟨9⟩]
    let after := w.keep refused ⟨7⟩
    let without := w.keep (refused.thin w.lexicon) ⟨7⟩
    w.append refused ⟨7⟩ = .ok (after, 2) ∧ w.append (refused.thin w.lexicon) ⟨7⟩ = .ok (without, 2) ∧
      (refused.thin w.lexicon).tags = [] ∧ after.lexicon.names.words = ["a", "b"] ∧
      without.lexicon.names.words = ["a"] ∧
      ((after.play later).view? 3).map View.requestTags = some [] ∧
      ((without.play later).view? 3).map View.requestTags = some [("c", "x")] := by
  decide +kernel

end Window

end Rollup
