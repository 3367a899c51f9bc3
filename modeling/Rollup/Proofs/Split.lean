import Rollup.Text.Decimal
import Rollup.Text.Split

namespace Rollup.Text

theorem cutChars?_eq_some_iff {sep : Char} {cs l r : List Char} :
    cutChars? sep cs = some (l, r) ↔ sep ∉ l ∧ cs = l ++ sep :: r := by
  induction cs generalizing l with
  | nil => simp [cutChars?]
  | cons c rest ih =>
    unfold cutChars?
    split
    · rename_i here
      subst here
      rw [Option.some.injEq, Prod.mk.injEq]
      constructor
      · rintro ⟨rfl, rfl⟩
        exact ⟨List.not_mem_nil, rfl⟩
      · rintro ⟨absent, split⟩
        cases l with
        | nil => exact ⟨rfl, (List.cons.inj split).2⟩
        | cons d front => exact absurd (List.mem_cons.mpr (Or.inl (List.cons.inj split).1)) absent
    · rename_i other
      rw [Option.map_eq_some_iff]
      constructor
      · rintro ⟨⟨front, back⟩, later, same⟩
        cases same
        obtain ⟨absent, split⟩ := ih.mp later
        exact ⟨List.not_mem_cons_of_ne_of_not_mem (Ne.symm other) absent, congrArg (c :: ·) split⟩
      · rintro ⟨absent, split⟩
        cases l with
        | nil => exact absurd (List.cons.inj split).1 other
        | cons d front =>
          obtain ⟨rfl, later⟩ := List.cons.inj split
          exact ⟨(front, r), ih.mpr ⟨fun member => absent (List.mem_cons_of_mem c member), later⟩, rfl⟩

/-- The first separator is the one with none before it. -/
theorem cut?_eq_some_iff {sep : Char} {s l r : String} :
    cut? sep s = some (l, r) ↔ sep ∉ l.toList ∧ s.toList = l.toList ++ sep :: r.toList := by
  rw [← cutChars?_eq_some_iff, cut?, Option.map_eq_some_iff]
  constructor
  · rintro ⟨⟨front, back⟩, found, same⟩
    cases same
    rwa [String.toList_ofList, String.toList_ofList]
  · intro found
    exact ⟨_, found, Prod.ext String.ofList_toList String.ofList_toList⟩

theorem cut?_eq_none_iff {sep : Char} {s : String} : cut? sep s = none ↔ sep ∉ s.toList := by
  constructor
  · intro none member
    obtain ⟨front, back, split, absent⟩ := List.eq_append_cons_of_mem member
    have found : cut? sep s = some (String.ofList front, String.ofList back) :=
      cut?_eq_some_iff.mpr (by simpa using ⟨absent, split⟩)
    rw [found] at none
    cases none
  · intro absent
    cases found : cut? sep s with
    | none => rfl
    | some both =>
      obtain ⟨_, split⟩ := cut?_eq_some_iff.mp found
      exact absurd (split ▸ List.mem_append_right _ List.mem_cons_self) absent

theorem fieldChars_eq_splitOn (sep : Char) (cs : List Char) : fieldChars sep cs = cs.splitOn sep := by
  induction cs with
  | nil => rfl
  | cons c rest ih =>
    rw [List.splitOn, List.splitOnP_cons_eq_if_modifyHead, fieldChars, ih, List.splitOn]
    by_cases here : c = sep
    · simp [here]
    · cases fields : rest.splitOnP (· == sep) with
      | nil => exact absurd fields (List.splitOnP_ne_nil _ _)
      | cons field fields => simp [here]

theorem not_mem_of_mem_fieldChars {sep : Char} {cs field : List Char} (member : field ∈ fieldChars sep cs) :
    sep ∉ field := by
  induction cs generalizing field with
  | nil =>
    cases List.mem_singleton.mp member
    exact List.not_mem_nil
  | cons c rest ih =>
    unfold fieldChars at member
    split at member
    · rcases List.mem_cons.mp member with rfl | later
      · exact List.not_mem_nil
      · exact ih later
    · rename_i other
      split at member
      · cases List.mem_singleton.mp member
        exact List.not_mem_cons_of_ne_of_not_mem (Ne.symm other) List.not_mem_nil
      · rename_i front fields split
        rcases List.mem_cons.mp member with rfl | later
        · exact List.not_mem_cons_of_ne_of_not_mem (Ne.symm other) (ih (split ▸ List.mem_cons_self))
        · exact ih (split ▸ List.mem_cons_of_mem front later)

/-- The fields of a text are the one list of texts without separators that
gives the text when they are joined. -/
theorem fields_eq_iff {sep : Char} {s : String} {l : List String} :
    fields sep s = l ↔ l ≠ [] ∧ (∀ field ∈ l, sep ∉ field.toList) ∧ s = (String.singleton sep).intercalate l := by
  have joined (l : List String) :
      ((String.singleton sep).intercalate l).toList = [sep].intercalate (l.map String.toList) := by
    rw [String.toList_intercalate, String.toList_singleton]
  unfold fields
  constructor
  · rintro rfl
    refine ⟨fun none => ?_, fun field member => ?_, ?_⟩
    · rw [fieldChars_eq_splitOn] at none
      exact List.splitOn_ne_nil _ _ (List.map_eq_nil_iff.mp none)
    · obtain ⟨chars, inside, rfl⟩ := List.mem_map.mp member
      rw [String.toList_ofList]
      exact not_mem_of_mem_fieldChars inside
    · rw [fieldChars_eq_splitOn, ← String.toList_inj, joined, List.map_map]
      have back : String.toList ∘ String.ofList = id := funext fun _ => String.toList_ofList
      rw [back, List.map_id, List.intercalate_splitOn]
  · rintro ⟨some, free, rfl⟩
    rw [fieldChars_eq_splitOn, joined, List.splitOn_intercalate, List.map_map]
    · have back : String.ofList ∘ String.toList = id := funext fun _ => String.ofList_toList
      rw [back, List.map_id]
    · intro chars member
      obtain ⟨field, inside, rfl⟩ := List.mem_map.mp member
      exact free field inside
    · simpa using some

theorem mem_intercalate {c : Char} {sep : String} {l : List String} (member : c ∈ (sep.intercalate l).toList) :
    c ∈ sep.toList ∨ ∃ field ∈ l, c ∈ field.toList := by
  induction l with
  | nil => cases member
  | cons field rest ih =>
    cases rest with
    | nil =>
      rw [String.intercalate_singleton] at member
      exact Or.inr ⟨field, List.mem_cons_self, member⟩
    | cons next others =>
      rw [String.intercalate_cons_cons, String.toList_append, String.toList_append] at member
      rcases List.mem_append.mp member with front | later
      · rcases List.mem_append.mp front with inField | inSep
        · exact Or.inr ⟨field, List.mem_cons_self, inField⟩
        · exact Or.inl inSep
      · exact (ih later).imp_right fun ⟨other, known, inside⟩ => ⟨other, List.mem_cons_of_mem field known, inside⟩

/-- Joined fields are no text at all only if there is no field, or one empty
field. -/
theorem intercalate_ne_empty {sep : Char} {l : List String} (some : l ≠ []) (filled : ∀ field ∈ l, field ≠ "")
    (free : ∀ field ∈ l, sep ∉ field.toList) : (String.singleton sep).intercalate l ≠ "" := by
  intro empty
  have fields : fields sep "" = l := fields_eq_iff.mpr ⟨some, free, empty.symm⟩
  exact filled "" (fields ▸ List.mem_singleton.mpr rfl) rfl

theorem dropStart?_eq_some_iff {start s rest : String} : dropStart? start s = some rest ↔ s = start ++ rest := by
  unfold dropStart?
  rw [← String.toList_inj, String.toList_append]
  split
  · rename_i begins
    obtain ⟨back, split⟩ := List.isPrefixOf_iff_prefix.mp begins
    rw [← split, ← String.length_toList, List.drop_left, Option.some.injEq, List.append_cancel_left_eq,
      ← String.toList_inj, String.toList_ofList]
  · rename_i begins
    refine ⟨fun found => (nomatch found), fun split => absurd ?_ begins⟩
    exact List.isPrefixOf_iff_prefix.mpr ⟨_, split.symm⟩

theorem digitsValue?_eq_some_iff {acc n : Nat} {cs : List Char} :
    digitsValue? acc cs = some n ↔ (∀ c ∈ cs, c.isDigit) ∧ n = Nat.ofDigitChars 10 cs acc := by
  induction cs generalizing acc with
  | nil =>
    rw [digitsValue?, Nat.ofDigitChars_nil, Option.some.injEq]
    exact ⟨fun same => ⟨fun _ member => (nomatch member), same.symm⟩, fun both => both.2.symm⟩
  | cons c rest ih =>
    rw [digitsValue?, Nat.ofDigitChars_cons, Nat.mul_comm 10, List.forall_mem_cons]
    split
    · rename_i digit
      rw [ih, and_iff_right digit]
    · rename_i other
      exact ⟨fun found => (nomatch found), fun both => absurd both.1.1 other⟩

end Rollup.Text
