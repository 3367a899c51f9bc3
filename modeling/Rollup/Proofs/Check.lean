import Rollup.Submission

namespace Rollup.Submission

/-- The arrays of a submission agree with one another and with the dictionary. -/
structure Agrees (s : Submission) : Prop where
  hitCounts : s.timerHits.length = s.timerCount
  tagCounts : s.timerTagCounts.length = s.timerCount
  userTimes : usageFits s.timerCount s.timerUserTimes
  systemTimes : usageFits s.timerCount s.timerSystemTimes
  hit : ∀ hits ∈ s.timerHits, 0 < hits
  timerNames : s.declaredTags = s.timerTagNames.length
  timerWords : s.declaredTags = s.timerTagValues.length
  paired : s.tagNames.length = s.tagValues.length
  known : ∀ index ∈ s.indices, index < s.dictionary.length

variable {s : Submission}

theorem findIdx?_zero_eq_none_iff : s.timerHits.findIdx? (· = 0) = none ↔ ∀ hits ∈ s.timerHits, 0 < hits := by
  simp only [List.findIdx?_eq_none_iff, decide_eq_false_iff_not, Nat.pos_iff_ne_zero, ne_eq]

theorem find?_unknown_eq_none_iff :
    s.indices.find? (s.dictionary.length ≤ ·) = none ↔ ∀ index ∈ s.indices, index < s.dictionary.length := by
  simp only [List.find?_eq_none, decide_eq_true_eq, Nat.not_le]

/-- The dictionary has the words of the timers and those of the request. -/
theorem Agrees.indices_lt (agrees : s.Agrees) :
    (((∀ index ∈ s.timerTagNames, index < s.dictionary.length) ∧ ∀ index ∈ s.timerTagValues, index < s.dictionary.length) ∧
      ∀ index ∈ s.tagNames, index < s.dictionary.length) ∧ ∀ index ∈ s.tagValues, index < s.dictionary.length := by
  have known := agrees.known
  rw [indices, List.forall_mem_append, List.forall_mem_append, List.forall_mem_append] at known
  exact known

/-- The six rules of the check, passed one after the other, are that the arrays
agree. -/
theorem check_eq_ok_iff : s.check = .ok () ↔ s.Agrees := by
  unfold check
  constructor
  · intro passed
    split at passed
    · cases passed
    rename_i counts
    split at passed
    · cases passed
    rename_i times
    split at passed
    · cases passed
    rename_i noZero
    split at passed
    · cases passed
    rename_i declared
    split at passed
    · cases passed
    rename_i paired
    split at passed
    · cases passed
    rename_i within
    have counted := Decidable.not_not.mp counts
    have timed := Decidable.not_not.mp times
    have carried := Decidable.not_not.mp declared
    exact ⟨counted.1, counted.2, timed.1, timed.2, findIdx?_zero_eq_none_iff.mp noZero, carried.1, carried.2,
      Decidable.not_not.mp paired, find?_unknown_eq_none_iff.mp within⟩
  · intro agrees
    rw [if_neg (not_not_intro ⟨agrees.hitCounts, agrees.tagCounts⟩),
      if_neg (not_not_intro ⟨agrees.userTimes, agrees.systemTimes⟩), findIdx?_zero_eq_none_iff.mpr agrees.hit]
    dsimp only
    rw [if_neg (not_not_intro ⟨agrees.timerNames, agrees.timerWords⟩), if_neg (not_not_intro agrees.paired),
      find?_unknown_eq_none_iff.mpr agrees.known]

end Rollup.Submission
