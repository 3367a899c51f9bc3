import Rollup.Key

namespace Rollup.Key

theorem splitChars_separator (rest : List Char) : splitChars (separator :: rest) = [] :: splitChars rest := by
  cases rest with
  | nil => rfl
  | cons d others => rw [splitChars, if_pos rfl]

theorem splitChars_escaped (c : Char) (rest : List Char) :
    splitChars (escapeMark :: c :: rest) = consHead c (splitChars rest) := by
  rw [splitChars, if_neg (by decide), if_pos rfl]

theorem splitChars_plain {c : Char} (plain : ¬(c = separator ∨ c = escapeMark)) (rest : List Char) :
    splitChars (c :: rest) = consHead c (splitChars rest) := by
  obtain ⟨notSeparator, notEscape⟩ := not_or.mp plain
  cases rest with
  | nil => simp [splitChars, notSeparator, notEscape, consHead]
  | cons d others => rw [splitChars, if_neg notSeparator, if_neg notEscape]

/-- An escaped component comes out as it was, in front of the first one of what
follows. -/
theorem splitChars_escape {rest head : List Char} {tail : List (List Char)} (split : splitChars rest = head :: tail)
    (component : List Char) : splitChars (escape component ++ rest) = (component ++ head) :: tail := by
  induction component with
  | nil => exact split
  | cons c others ih =>
    unfold escape
    split
    · rw [List.cons_append, List.cons_append, splitChars_escaped, ih]
      rfl
    · rename_i plain
      rw [List.cons_append, splitChars_plain plain, ih]
      rfl

/-- What stands behind the first component in a key. -/
def restChars (components : List String) : List Char := components.flatMap fun c => separator :: escape c.toList

theorem splitChars_join (first : String) (others : List String) :
    splitChars (escape first.toList ++ restChars others) = (first :: others).map String.toList := by
  induction others generalizing first with
  | nil =>
    have nothing : splitChars (restChars []) = [] :: [] := rfl
    rw [splitChars_escape nothing, List.append_nil]
    rfl
  | cons second others ih =>
    have next : splitChars (restChars (second :: others)) = [] :: (second :: others).map String.toList := by
      rw [restChars, List.flatMap_cons, List.cons_append, splitChars_separator]
      exact congrArg _ (ih second)
    rw [splitChars_escape next, List.append_nil]
    rfl

theorem foldl_push {draft : Draft} (begun : draft.count ≠ 0) (others : List String) :
    (others.foldl Draft.push draft).text.toList = draft.text.toList ++ restChars others := by
  induction others generalizing draft with
  | nil => exact (List.append_nil _).symm
  | cons c rest ih =>
    have text : (draft.push c).text.toList = draft.text.toList ++ separator :: escape c.toList := by
      unfold Draft.push
      simp [begun, String.toList_append]
    rw [List.foldl_cons, ih (Nat.succ_ne_zero _), text, List.append_assoc]
    rfl

theorem toList_ofComponents (first : String) (others : List String) :
    (ofComponents (first :: others)).toList = escape first.toList ++ restChars others := by
  have begun : (Draft.empty.push first).count ≠ 0 := Nat.succ_ne_zero _
  have text : (Draft.empty.push first).text.toList = escape first.toList := by
    unfold Draft.push Draft.empty
    simp
  rw [ofComponents, List.foldl_cons, foldl_push begun, text]

/-- A key stands for the components it was made of, if there was one. -/
theorem components_ofComponents {l : List String} (some : l ≠ []) : components (ofComponents l) = l := by
  obtain ⟨first, others, rfl⟩ := List.exists_cons_of_ne_nil some
  rw [components, toList_ofComponents, splitChars_join, List.map_map]
  have back : String.ofList ∘ String.toList = id := funext fun _ => String.ofList_toList
  rw [back, List.map_id]

namespace Draft

/-- What can be done to a key in the making. -/
inductive Edit
  | push (component : String)
  | clear
deriving DecidableEq

def edit (draft : Draft) : Edit → Draft
  | .push component => draft.push component
  | .clear => draft.clear

def edits (draft : Draft) (es : List Edit) : Draft := es.foldl edit draft

/-- What an edit makes of the components that a draft holds. -/
def Edit.keep (components : List String) : Edit → List String
  | .push component => components ++ [component]
  | .clear => []

/-- The components pushed since the draft was last cleared. -/
def Edit.kept (es : List Edit) : List String := es.foldl keep []

/-- Nothing but the components that a draft holds shows in it, so one that was
cleared is as good as a new one. -/
theorem edit_pushed (components : List String) (e : Edit) :
    (components.foldl push empty).edit e = (Edit.keep components e).foldl push empty := by
  cases e with
  | push component =>
    rw [Edit.keep, List.foldl_append]
    rfl
  | clear => rfl

theorem edits_pushed (components : List String) (es : List Edit) :
    (components.foldl push empty).edits es = (es.foldl Edit.keep components).foldl push empty := by
  induction es generalizing components with
  | nil => rfl
  | cons e rest ih =>
    rw [edits, List.foldl_cons, List.foldl_cons, edit_pushed]
    exact ih (Edit.keep components e)

theorem count_pushed (draft : Draft) (components : List String) :
    (components.foldl push draft).count = draft.count + components.length := by
  induction components generalizing draft with
  | nil => rfl
  | cons component rest ih =>
    have pushed : (draft.push component).count = draft.count + 1 := rfl
    rw [List.foldl_cons, ih, pushed, List.length_cons]
    omega

theorem edits_empty (es : List Edit) : empty.edits es = (Edit.kept es).foldl push empty := edits_pushed [] es

/-- Whatever was pushed and cleared before, a finished key with a component
reads back as the components pushed since it was last cleared, the draft
counted them, and no other components make the same key. -/
theorem finished_key_reads_back (es : List Edit) :
    (empty.edits es).count = (Edit.kept es).length ∧
      (Edit.kept es ≠ [] → components (empty.edits es).text = Edit.kept es) ∧
      ∀ others, Edit.kept es ≠ [] → Edit.kept others ≠ [] → (empty.edits es).text = (empty.edits others).text →
        Edit.kept es = Edit.kept others := by
  have back (es : List Edit) (some : Edit.kept es ≠ []) : components (empty.edits es).text = Edit.kept es := by
    rw [edits_empty]
    exact components_ofComponents some
  refine ⟨?_, back es, fun others some some' same => ?_⟩
  · rw [edits_empty, count_pushed]
    exact Nat.zero_add _
  · rw [← back es some, same, back others some']

/-- A draft used again, for components that are empty or nothing but separators
and escape marks. -/
def reused : List Edit := [.push "x|", .clear, .push "a|b", .push "", .push "\\|\\"]

theorem reused_key_reads_back : Edit.kept reused ≠ [] ∧ (empty.edits reused).text = "a\\|b||\\\\\\|\\\\" ∧
    components (empty.edits reused).text = ["a|b", "", "\\|\\"] := by
  have some : Edit.kept reused ≠ [] := by decide
  exact ⟨some, by decide, (finished_key_reads_back reused).2.1 some⟩

end Draft

end Rollup.Key

namespace Rollup.BucketKey

/-- The key of a row of values. Where there are groups the first value names
the group. -/
def ofRow (grouped : Bool) (values : List String) : BucketKey :=
  if grouped then .nested (Key.ofComponents (values.take 1)) (Key.ofComponents (values.drop 1))
  else .flat (Key.ofComponents values)

/-- There is a value for the bucket, and one for its group if there are groups. -/
def Names (grouped : Bool) (values : List String) : Prop := (if grouped then 1 else 0) < values.length

theorem text_nested (group : String) {values : List String} (some : values ≠ []) :
    (nested (Key.ofComponents [group]) (Key.ofComponents values)).text = Key.ofComponents (group :: values) := by
  obtain ⟨first, others, rfl⟩ := List.exists_cons_of_ne_nil some
  have joined : (nested (Key.ofComponents [group]) (Key.ofComponents (first :: others))).text =
      Key.ofComponents [group] ++ String.singleton Key.separator ++ Key.ofComponents (first :: others) := rfl
  rw [joined, ← String.toList_inj, String.toList_append, String.toList_append, Key.toList_ofComponents,
    Key.toList_ofComponents, Key.toList_ofComponents]
  simp [Key.restChars]

variable {grouped : Bool} {values : List String}

theorem Names.cases (names : Names grouped values) :
    (grouped = false ∧ values ≠ []) ∨ ∃ group rest, grouped = true ∧ values = group :: rest ∧ rest ≠ [] := by
  unfold Names at names
  cases grouped with
  | false => exact Or.inl ⟨rfl, List.ne_nil_of_length_pos names⟩
  | true =>
    obtain ⟨group, rest, rfl⟩ := List.exists_cons_of_ne_nil (List.ne_nil_of_length_pos (Nat.zero_lt_of_lt names))
    exact Or.inr ⟨group, rest, rfl, rfl, List.ne_nil_of_length_pos (Nat.lt_of_succ_lt_succ names)⟩

/-- The values can be read off the key. -/
theorem values_ofRow (names : Names grouped values) : (ofRow grouped values).values = values := by
  rcases names.cases with ⟨rfl, some⟩ | ⟨group, rest, rfl, rfl, some⟩
  · exact Key.components_ofComponents some
  · show Key.components (Key.ofComponents [group]) ++ Key.components (Key.ofComponents rest) = group :: rest
    rw [Key.components_ofComponents (List.cons_ne_nil _ _), Key.components_ofComponents some]
    rfl

/-- They can be read off its text as well, where nothing tells the group from
the rest. -/
theorem components_text_ofRow (names : Names grouped values) : Key.components (ofRow grouped values).text = values := by
  rcases names.cases with ⟨rfl, some⟩ | ⟨group, rest, rfl, rfl, some⟩
  · exact Key.components_ofComponents some
  · show Key.components (nested (Key.ofComponents [group]) (Key.ofComponents rest)).text = group :: rest
    rw [text_nested group some, Key.components_ofComponents (List.cons_ne_nil _ _)]

end Rollup.BucketKey
