import Rollup.Proofs.Columns

namespace Rollup

namespace Grouping

/-- There is something to group by. -/
def Filled : Grouping → Prop
  | .totals => False
  | .byAttributes attributes => attributes ≠ []
  | .byTags _ names _ => names ≠ []

/-- The attributes that a grouping keeps apart, those of its scope included. -/
def attributes : Grouping → List Attribute
  | .totals => []
  | .byAttributes attributes => attributes
  | .byTags _ _ scope => scope.attributes

/-- The tags that it keeps apart. -/
def tagNames : Grouping → List Nat
  | .byTags _ names _ => names
  | _ => []

/-- The grouping values of a unit with these tags: first the attributes of the
request, then the tags. -/
def tuple (g : Grouping) (v : View) (tags : List Tag) : List String :=
  g.attributes.map v.record.attributeText ++ g.tagNames.map (v.tagWord tags)

/-- The units that have every tag, each with its grouping values. -/
def rows (g : Grouping) (v : View) : List (List String × Contribution) :=
  ((g.units v).filter fun unit => g.tagNames.all fun name => unit.1.any (·.name = name)).map fun unit =>
    (g.tuple v unit.1, unit.2)

theorem scope_key (source : TagSource) (names : List Nat) (scope : Scope) (r : Record) (values : List String) :
    Scope.key scope r values = .ofRow (nested (.byTags source names scope))
      (scope.attributes.map r.attributeText ++ values) := by
  cases scope <;> rfl

/-- A grouping that someone may make. -/
inductive Made : Grouping → Prop
  | byAttributes {attributes : List Attribute} {g : Grouping} : ofAttributes attributes = .ok g → Made g
  | byTags {source : TagSource} {names : List Nat} {scope : Scope} {g : Grouping} :
      ofTags source names scope = .ok g → Made g

theorem Made.filled {g : Grouping} (made : g.Made) : g.Filled := by
  cases made with
  | @byAttributes attributes _ made =>
    unfold ofAttributes at made
    split at made
    · cases made
    · rename_i filled
      cases made
      exact fun none => filled (List.isEmpty_iff.mpr none)
  | byTags made =>
    obtain ⟨filled, _, _, rfl⟩ := ofTags_eq_ok_iff.mp made
    exact filled

/-- What a grouping finds in a request are the units with every tag, under the
keys of their grouping values. -/
theorem contributions_eq_rows (g : Grouping) (v : View) :
    contributions v g = (g.rows v).map fun row => (.ofRow g.nested row.1, row.2) := by
  cases g with
  | totals => rfl
  | byAttributes attributes =>
    have whole : tuple (.byAttributes attributes) v v.record.tags = attributes.map v.record.attributeText :=
      List.append_nil _
    exact congrArg (fun row => [(BucketKey.ofRow false row, Contribution.ofRequest v.record)]) whole.symm
  | byTags source names scope =>
    rw [contributions_words, rows, List.map_map]
    simp only [scope_key source names]
    rfl

/-- The grouping values name a bucket. -/
theorem names_rows {g : Grouping} (filled : g.Filled) (v : View) :
    ∀ row ∈ g.rows v, BucketKey.Names g.nested row.1 := by
  intro row member
  obtain ⟨unit, _, rfl⟩ := List.mem_map.mp member
  have length : (g.tuple v unit.1).length = g.attributes.length + g.tagNames.length := by
    rw [tuple, List.length_append, List.length_map, List.length_map]
  unfold BucketKey.Names
  rw [length]
  cases g with
  | totals => exact False.elim filled
  | byAttributes attributes => exact List.length_pos_of_ne_nil filled
  | byTags source names scope =>
    have tagged : 0 < names.length := List.length_pos_of_ne_nil filled
    show (if decide (scope ≠ .everywhere) = true then 1 else 0) < scope.attributes.length + names.length
    split
    · rename_i grouped
      have kept := Scope.attributes_pos (of_decide_eq_true grouped)
      omega
    · exact Nat.add_pos_right _ tagged

theorem read_contributions {g : Grouping} {v : View} (read : BucketKey → List String)
    (reads : ∀ row ∈ g.rows v, read (.ofRow g.nested row.1) = row.1) :
    (contributions v g).map (fun e => (read e.1, e.2)) = g.rows v := by
  rw [contributions_eq_rows, List.map_map]
  refine (List.map_congr_left fun row member => ?_).trans (List.map_id _)
  exact Prod.ext (reads row member) rfl

theorem mem_zip_rows {g : Grouping} {v : View} {d : (BucketKey × Contribution) × List String × Contribution}
    (member : d ∈ (contributions v g).zip (g.rows v)) : d.2 ∈ g.rows v ∧ d.1.1 = .ofRow g.nested d.2.1 := by
  have pairs : ((g.rows v).map fun row => ((BucketKey.ofRow g.nested row.1, row.2), row)) =
      (contributions v g).zip (g.rows v) := by
    refine List.zip_of_prod ?_ ?_
    · rw [List.map_map, contributions_eq_rows]
      rfl
    · rw [List.map_map]
      exact List.map_id _
  rw [← pairs] at member
  obtain ⟨row, inside, rfl⟩ := List.mem_map.mp member
  exact ⟨inside, rfl⟩

/-- Whatever is in the texts of requests, the key of a bucket stands for one
tuple of grouping values. They are the values of the key and can be split off
its text, and other grouping values make another key. -/
theorem keys_stand_for_tuples {g : Grouping} (filled : g.Filled) :
    (∀ v, (contributions v g).map (fun e => (e.1.values, e.2)) = g.rows v ∧
      (contributions v g).map (fun e => (Key.components e.1.text, e.2)) = g.rows v) ∧
    ∀ v w, ∀ d ∈ (contributions v g).zip (g.rows v), ∀ e ∈ (contributions w g).zip (g.rows w),
      d.1.1 = e.1.1 ↔ d.2.1 = e.2.1 := by
  refine ⟨fun v => ⟨?_, ?_⟩, fun v w d left e right => ?_⟩
  · exact read_contributions BucketKey.values fun row member => BucketKey.values_ofRow (names_rows filled v row member)
  · exact read_contributions (Key.components ·.text) fun row member =>
      BucketKey.components_text_ofRow (names_rows filled v row member)
  · obtain ⟨here, key⟩ := mem_zip_rows left
    obtain ⟨there, key'⟩ := mem_zip_rows right
    rw [key, key']
    refine ⟨fun same => ?_, congrArg _⟩
    have values := congrArg BucketKey.values same
    rwa [BucketKey.values_ofRow (names_rows filled v _ here),
      BucketKey.values_ofRow (names_rows filled w _ there)] at values

/-- Values that look alike once they are joined make different keys. -/
theorem look_alikes_kept_apart : (byTags .timers [0] .perScript).Filled ∧
    ((contributions (View.tagged 1 "a|b\\" "") (byTags .timers [0] .perScript)).map fun e => Key.components e.1.text) =
      [["a|b\\", ""]] ∧
    ((contributions (View.tagged 1 "a" "b\\|") (byTags .timers [0] .perScript)).map fun e => e.1.values) =
      [["a", "b\\|"]] ∧
    ∀ d ∈ contributions (View.tagged 1 "a|b\\" "") (byTags .timers [0] .perScript),
      ∀ e ∈ contributions (View.tagged 1 "a" "b\\|") (byTags .timers [0] .perScript), d.1 ≠ e.1 := by
  have filled : (byTags .timers [0] .perScript).Filled := (Made.byTags
    (show ofTags .timers [0] .perScript = .ok _ from rfl)).filled
  obtain ⟨stand, apart⟩ := keys_stand_for_tuples filled
  have left := congrArg (List.map Prod.fst) (stand (View.tagged 1 "a|b\\" "")).2
  have right := congrArg (List.map Prod.fst) (stand (View.tagged 1 "a" "b\\|")).1
  rw [List.map_map] at left right
  refine ⟨filled, left, right, ?_⟩
  intro d first e second same
  have texts : ["a|b\\", ""] = ["a", "b\\|"] := (apart (View.tagged 1 "a|b\\" "") (View.tagged 1 "a" "b\\|")
    (d, (_, d.2)) ?_ (e, (_, e.2)) ?_).mp same
  · exact absurd texts (by decide)
  · obtain rfl := List.mem_singleton.mp first
    exact List.mem_singleton_self _
  · obtain rfl := List.mem_singleton.mp second
    exact List.mem_singleton_self _

end Grouping

end Rollup
