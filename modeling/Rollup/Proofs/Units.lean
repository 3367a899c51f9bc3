import Mathlib.Data.List.Basic
import Rollup.Grouping

namespace Rollup

/-- The word of the first tag of a name. -/
def View.tagWord (v : View) (tags : List Tag) (name : Nat) : String :=
  (Tag.lookup? tags name).elim "" v.lexicon.values.wordD

namespace Grouping

theorem isSome_lookup? (tags : List Tag) (name : Nat) : (Tag.lookup? tags name).isSome = tags.any (·.name = name) := by
  rw [Tag.lookup?, Option.isSome_map, Bool.eq_iff_iff, List.find?_isSome, List.any_eq_true]

theorem tagValues?_tagWord (v : View) (tags : List Tag) (names : List Nat) : tagValues? v tags names =
    if names.all fun name => tags.any (·.name = name) then some (names.map (v.tagWord tags)) else none := by
  unfold tagValues?
  induction names with
  | nil => rfl
  | cons name rest ih =>
    have there := isSome_lookup? tags name
    rw [List.mapM_cons, ih, List.all_cons, List.map_cons, ← there, View.tagWord]
    cases Tag.lookup? tags name with
    | none => rfl
    | some value =>
      rw [Option.isSome_some, Bool.true_and]
      split <;> rfl

/-- What a grouping looks at in a request, by its tags: the timers one by one,
or the request itself. -/
def units (v : View) : Grouping → List (List Tag × Contribution)
  | .totals => []
  | .byAttributes _ => [(v.record.tags, .ofRequest v.record)]
  | .byTags .request _ _ => [(v.record.tags, .ofRequest v.record)]
  | .byTags .timers _ _ => v.timers.map fun timer => (timer.tags, .ofTimer timer)

theorem mem_units {v : View} {g : Grouping} {unit : List Tag × Contribution} (member : unit ∈ units v g) :
    unit = (v.record.tags, .ofRequest v.record) ∨ ∃ timer ∈ v.timers, unit = (timer.tags, .ofTimer timer) := by
  unfold units at member
  split at member
  · cases member
  · exact Or.inl (List.mem_singleton.mp member)
  · exact Or.inl (List.mem_singleton.mp member)
  · obtain ⟨timer, known, rfl⟩ := List.mem_map.mp member
    exact Or.inr ⟨timer, known, rfl⟩

/-- By tags, each unit that has them all adds one contribution. -/
theorem contributions_units (v : View) (source : TagSource) (names : List Nat) (scope : Scope) :
    contributions v (.byTags source names scope) = (units v (.byTags source names scope)).filterMap fun unit =>
      (tagValues? v unit.1 names).map fun values => (Scope.key scope v.record values, unit.2) := by
  cases source with
  | request =>
    rw [contributions, units, List.filterMap_cons, List.filterMap_nil]
    cases tagValues? v v.record.tags names <;> rfl
  | timers =>
    rw [contributions, units, List.filterMap_map]
    rfl

/-- By tags, a contribution is a unit that has them all, under the key of its
words. -/
theorem contributions_words (v : View) (source : TagSource) (ids : List Nat) (scope : Scope) :
    contributions v (.byTags source ids scope) =
      ((units v (.byTags source ids scope)).filter fun unit => ids.all fun id => unit.1.any (·.name = id)).map
        fun unit => (Scope.key scope v.record (ids.map (v.tagWord unit.1)), unit.2) := by
  rw [contributions_units, ← List.filterMap_eq_map, List.filterMap_filter]
  refine List.filterMap_congr fun unit _ => ?_
  rw [tagValues?_tagWord]
  split <;> rfl

end Grouping

end Rollup
