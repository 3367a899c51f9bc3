import Rollup.Proofs.Parts

namespace Rollup

/-- The same request seen at two times: the words behind its tags are the
same, whatever else was learnt in between. -/
structure View.Twin (v w : View) : Prop where
  record : w.record = v.record
  timers : w.timers = v.timers
  requestTags : ∀ tag ∈ v.record.tags, w.lexicon.spell tag = v.lexicon.spell tag
  timerTags : ∀ timer ∈ v.timers, ∀ tag ∈ timer.tags, w.lexicon.spell tag = v.lexicon.spell tag

namespace View.Twin

theorem refl (v : View) : v.Twin v := ⟨rfl, rfl, fun _ _ => rfl, fun _ _ _ _ => rfl⟩

variable {v w : View}

theorem trans {u : View} (first : u.Twin v) (later : v.Twin w) : u.Twin w where
  record := later.record.trans first.record
  timers := later.timers.trans first.timers
  requestTags tag member :=
    (later.requestTags tag (first.record ▸ member)).trans (first.requestTags tag member)
  timerTags timer known tag member :=
    (later.timerTags timer (first.timers ▸ known) tag member).trans (first.timerTags timer known tag member)

theorem id_eq (twin : v.Twin w) : w.id = v.id := congrArg Record.id twin.record

theorem requestTags_eq (twin : v.Twin w) : w.requestTags = v.requestTags := by
  rw [View.requestTags, twin.record]
  exact List.map_congr_left twin.requestTags

theorem accepts_eq (twin : v.Twin w) (f : Filter) : f.accepts w = f.accepts v := by
  rw [Filter.accepts, Filter.accepts, twin.record, twin.requestTags_eq]

theorem tagValues?_eq {tags : List Tag} (spelled : ∀ tag ∈ tags, w.lexicon.spell tag = v.lexicon.spell tag)
    (names : List Nat) : Grouping.tagValues? w tags names = Grouping.tagValues? v tags names := by
  unfold Grouping.tagValues?
  refine congrArg (fun each => names.mapM each) (funext fun name => ?_)
  unfold Tag.lookup?
  cases found : tags.find? (·.name = name) with
  | none => rfl
  | some tag => exact congrArg some (congrArg Prod.snd (spelled tag (List.mem_of_find?_eq_some found)))

theorem units_eq (twin : v.Twin w) (g : Grouping) : Grouping.units w g = Grouping.units v g := by
  unfold Grouping.units
  rw [twin.record, twin.timers]

theorem contributions_eq (twin : v.Twin w) (g : Grouping) :
    Grouping.contributions w g = Grouping.contributions v g := by
  cases g with
  | totals => rfl
  | byAttributes attributes => rw [Grouping.contributions, twin.record]; rfl
  | byTags source names scope =>
    rw [Grouping.contributions_units, Grouping.contributions_units, twin.units_eq, twin.record]
    refine List.filterMap_congr fun unit inside => ?_
    rcases Grouping.mem_units inside with rfl | ⟨timer, known, rfl⟩
    · rw [tagValues?_eq twin.requestTags]
    · rw [tagValues?_eq (twin.timerTags timer known)]

theorem parts_eq (twin : v.Twin w) (g : Grouping) (f : Filter) : g.parts f w = g.parts f v := by
  unfold Grouping.parts
  simp only [twin.accepts_eq, twin.contributions_eq, twin.id_eq, twin.record]

end View.Twin

end Rollup
