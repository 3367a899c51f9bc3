import Rollup.Proofs.Slide

namespace Rollup

theorem flatMap_sublist {α β : Type} {f g : α → List β} (each : ∀ a, (f a).Sublist (g a)) {left right : List α}
    (sub : left.Sublist right) : (left.flatMap f).Sublist (right.flatMap g) := by
  induction sub with
  | slnil => exact .slnil
  | cons a _ ih =>
    rw [List.flatMap_cons]
    exact ih.trans (List.sublist_append_right _ _)
  | cons_cons a _ ih =>
    rw [List.flatMap_cons, List.flatMap_cons]
    exact (each a).append ih

/-- The sums of some contributions, as they are before anything stops. -/
def Contribution.sum (cs : List Contribution) (f : Sums.Field) : Nat := (cs.map (·.sums.amount f)).sum

theorem Contribution.sum_sublist {left right : List Contribution} (sub : left.Sublist right) (f : Sums.Field) :
    sum left f ≤ sum right f := total_sublist sub .standard (.sum f)

namespace Submission

/-- All requests together, and all their timers together, stay where no sum
stops. -/
def Moderate (submissions : List Submission) : Prop :=
  ∀ f : Sums.Field, ∀ cap ∈ f.cap?,
    Contribution.sum (submissions.map Submission.whole) f ≤ cap ∧
      Contribution.sum (submissions.flatMap Submission.pieces) f ≤ cap

theorem Moderate.sublist {left right : List Submission} (moderate : Moderate right) (sub : left.Sublist right) :
    Moderate left := by
  intro f cap stops
  obtain ⟨wholes, pieces⟩ := moderate f cap stops
  refine ⟨Nat.le_trans (Contribution.sum_sublist (sub.map _) f) wholes, Nat.le_trans ?_ pieces⟩
  exact Contribution.sum_sublist (flatMap_sublist (fun s => .refl s.pieces) sub) f

end Submission

namespace Grouping

/-- A grouping finds the whole in each request, or it finds timers in each. -/
theorem contributions_sublist (g : Grouping) :
    (∀ v, ((contributions v g).map (·.2)).Sublist [v.whole]) ∨ ∀ v, ((contributions v g).map (·.2)).Sublist v.pieces := by
  cases g with
  | totals => exact Or.inl fun v => List.nil_sublist _
  | byAttributes attributes => exact Or.inl fun v => .refl [v.whole]
  | byTags source names scope =>
    have inside (v : View) : ((contributions v (.byTags source names scope)).map (·.2)).Sublist
        ((units v (.byTags source names scope)).map (·.2)) := by
      rw [contributions_words, List.map_map]
      exact List.filter_sublist.map _
    cases source with
    | request => exact Or.inl inside
    | timers =>
      refine Or.inr fun v => ?_
      have pieces : (units v (.byTags .timers names scope)).map (·.2) = v.pieces := by
        rw [units, List.map_map]
        rfl
      exact pieces ▸ inside v

theorem shares_sublist (g : Grouping) (f : Filter) :
    (∀ v, (g.shares f v).Sublist [v.whole]) ∨ ∀ v, (g.shares f v).Sublist v.pieces := by
  have filtered {each : View → List Contribution} {all : View → List Contribution}
      (sub : ∀ v, (each v).Sublist (all v)) (v : View) : (if f.accepts v then each v else []).Sublist (all v) := by
    split
    · exact sub v
    · exact List.nil_sublist _
  cases g with
  | totals => exact Or.inl (filtered fun v => .refl [v.whole])
  | byAttributes attributes => exact (contributions_sublist (.byAttributes attributes)).imp filtered filtered
  | byTags source names scope => exact (contributions_sublist (.byTags source names scope)).imp filtered filtered

/-- Requests that come from moderate submissions add up to no more than sums
can hold, in every report. -/
theorem exact_fits (g : Grouping) (f : Filter) (scale : Scale) {views : List View} {submissions : List Submission}
    (loads : submissions.map Submission.load = views.map View.load) (moderate : Submission.Moderate submissions) :
    Quantity.Fits (g.exact f scale views) := by
  have wholes : views.flatMap (fun v => [v.whole]) = submissions.map Submission.whole := by
    have fronts := congrArg (List.map Prod.fst) loads
    rw [List.map_map, List.map_map] at fronts
    rw [← List.map_eq_flatMap]
    exact fronts.symm
  have pieces : views.flatMap View.pieces = submissions.flatMap Submission.pieces := by
    have backs := congrArg (List.map Prod.snd) loads
    rw [List.map_map, List.map_map] at backs
    rw [List.flatMap_def, List.flatMap_def]
    exact congrArg List.flatten backs.symm
  intro field cap stops
  obtain ⟨wholesFit, piecesFit⟩ := moderate field cap stops
  -- One report never mixes requests and timers, so either bound is enough by itself.
  rcases g.shares_sublist f with fromWhole | fromPieces
  · have bound := Contribution.sum_sublist (flatMap_sublist fromWhole (.refl views)) field
    rw [wholes] at bound
    exact Nat.le_trans bound wholesFit
  · have bound := Contribution.sum_sublist (flatMap_sublist fromPieces (.refl views)) field
    rw [pieces] at bound
    exact Nat.le_trans bound piecesFit

end Grouping

end Rollup
