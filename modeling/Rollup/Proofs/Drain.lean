import Rollup.Proofs.Reports

namespace Rollup

namespace Breakdown

/-- A breakdown that amounts to nothing has no bucket, and its totals are
empty. -/
theorem Holds.drained {b : Breakdown} (holds : b.Holds []) : b.entries = [] ∧ b.totals.isEmpty = true := by
  constructor
  · refine List.eq_nil_iff_forall_not_mem.mpr fun e member => ?_
    have found : b.buckets.find? e.1 = some e.2 := SortedMap.find?_eq_some_iff.mpr member
    rw [(holds.missing e.1).mpr rfl] at found
    cases found
  · exact Summary.isEmpty_iff.mpr holds.totals

theorem Holds.fits {b : Breakdown} {ps : List Part} (holds : b.Holds ps) : Quantity.Fits (Part.total b.scale ps) :=
  b.totals.fits.mono fun q => Nat.le_of_eq (holds.totals q).symm

/-- Totals stay as they are, or they hold every sum and lose just that much. -/
theorem lessTotals_cases (totals : Summary) (sums : Sums) (samples : List Sample) :
    lessTotals totals sums samples = totals ∨ ∀ f, sums.amount f ≤ totals.amount (.sum f) ∧
      (lessTotals totals sums samples).amount (.sum f) = totals.amount (.sum f) - sums.amount f := by
  unfold lessTotals
  cases subtracted : totals.sub? sums samples with
  | none => exact Or.inl rfl
  | some left => exact Or.inr fun f => (Summary.sub?_eq_some_iff.mp subtracted).2 (.sum f)

theorem lessTotals_amount_le (totals : Summary) (sums : Sums) (samples : List Sample) (f : Sums.Field) :
    (lessTotals totals sums samples).amount (.sum f) ≤ totals.amount (.sum f) := by
  rcases lessTotals_cases totals sums samples with same | less
  · exact Nat.le_of_eq (congrArg (Summary.amount · (.sum f)) same)
  · rw [(less f).2]
    exact Nat.sub_le _ _

/-- What an emptied bucket still holds counts no request. -/
theorem lessResidue_amounts (totals : Summary) {residue : Summary} (zero : residue.sums.count = 0) :
    (lessResidue totals residue).amount (.sum .count) = totals.amount (.sum .count) ∧
      ∀ f, (lessResidue totals residue).amount (.sum f) ≤ totals.amount (.sum f) := by
  unfold lessResidue
  split
  · exact ⟨rfl, fun _ => Nat.le_refl _⟩
  · refine ⟨?_, lessTotals_amount_le totals residue.sums residue.cellSamples⟩
    show (lessTotals totals residue.sums residue.cellSamples).amount _ = _
    rcases lessTotals_cases totals residue.sums residue.cellSamples with same | less
    · rw [same]
    · have none : residue.sums.amount .count = 0 := zero
      rw [(less .count).2, none, Nat.sub_zero]

/-- A removal leaves the totals alone, or it takes the part off them and perhaps
the rest of an emptied bucket, which counts no request. -/
theorem RemovesFresh.removePart_totals {b : Breakdown} {p : Part} (fresh : b.RemovesFresh p) (formed : b.Formed)
    (placed : b.grouping.Placed p.id p) :
    (b.removePart p).totals = b.totals ∨
      (b.removePart p).totals.amount (.sum .count) =
          (lessTotals b.totals p.contribution.sums p.contribution.samples).amount (.sum .count) ∧
        ∀ f, (b.removePart p).totals.amount (.sum f) ≤
          (lessTotals b.totals p.contribution.sums p.contribution.samples).amount (.sum f) := by
  obtain ⟨id, key, c⟩ := p
  cases key with
  | none => exact Or.inr ⟨rfl, fun _ => Nat.le_refl _⟩
  | some key =>
    rcases formed.removeFrom_cases (placed.accepted key rfl) id c with
      ⟨same, _⟩ | ⟨bucket, left, taken, found, removed, done⟩
    · exact Or.inl (congrArg totals same)
    · obtain ⟨sums, _⟩ := Bucket.remove?_eq_some removed
      rw [Contribution.once_of_ne (fresh key rfl bucket found)] at sums
      subst sums
      rcases done with ⟨_, _, _, totals⟩ | ⟨zero, _, _, totals⟩
      · rw [show (b.removePart ⟨id, some key, c⟩).totals = _ from totals]
        exact Or.inr ⟨rfl, fun _ => Nat.le_refl _⟩
      · rw [show (b.removePart ⟨id, some key, c⟩).totals = _ from totals]
        exact Or.inr (lessResidue_amounts _ zero)

/-- A removal leaves the count of the totals alone, or it takes one request
off it and at least the part off every sum. -/
theorem RemovesFresh.totals_cases {b : Breakdown} {p : Part} (fresh : b.RemovesFresh p) (formed : b.Formed)
    (placed : b.grouping.Placed p.id p) :
    (b.removePart p).totals.sums.count = b.totals.sums.count ∨
      (b.removePart p).totals.sums.count + 1 = b.totals.sums.count ∧
        ∀ f, (b.removePart p).totals.amount (.sum f) + p.contribution.sums.amount f ≤ b.totals.amount (.sum f) := by
  rcases fresh.removePart_totals formed placed with same | ⟨counted, below⟩
  · exact Or.inl (congrArg (·.sums.count) same)
  · rcases lessTotals_cases b.totals p.contribution.sums p.contribution.samples with same | less
    · rw [same] at counted
      exact Or.inl counted
    · have one : p.contribution.sums.amount .count = 1 := placed.single.count
      obtain ⟨there, gone⟩ := less .count
      rw [one] at there gone
      refine Or.inr ⟨?_, fun f => ?_⟩
      · have before : (b.removePart p).totals.sums.count = b.totals.sums.count - 1 := counted.trans gone
        have some_there : 1 ≤ b.totals.sums.count := there
        omega
      · have step := below f
        obtain ⟨enough, rest⟩ := less f
        omega

/-- A breakdown counts at least its parts. If a sum was ever `cut`, it counts
more, or still holds less than the parts have together. -/
structure Accounts (b : Breakdown) (ps : List Part) (cut : Prop) : Prop where
  counts : ps.length ≤ b.totals.sums.count
  short : cut → ps.length < b.totals.sums.count ∨
    ∃ f, b.totals.amount (.sum f) < Part.total b.scale ps (.sum f)

theorem empty_accounts (g : Grouping) (f : Filter) (scale : Scale) : (empty g f scale).Accounts [] False :=
  ⟨Nat.le_refl _, False.elim⟩

theorem Holds.accounts {b : Breakdown} {ps : List Part} (holds : b.Holds ps) : b.Accounts ps False where
  counts := by
    have counted := holds.totals (.sum .count)
    rw [Part.total_count b.scale fun p member => (holds.placed p member).single] at counted
    exact Nat.le_of_eq counted.symm
  short := False.elim

/-- What can't be held has been cut. -/
theorem Accounts.weaken {b : Breakdown} {ps : List Part} {cut later : Prop} (accounts : b.Accounts ps cut)
    (reason : later → cut ∨ ¬ Quantity.Fits (Part.total b.scale ps)) : b.Accounts ps later where
  counts := accounts.counts
  short now := by
    rcases reason now with before | unfit
    · exact accounts.short before
    · refine Classical.byContradiction fun neither => unfit fun f cap stops => ?_
      have enough : Part.total b.scale ps (.sum f) ≤ b.totals.amount (.sum f) :=
        Nat.not_lt.mp fun less => neither (Or.inr ⟨f, less⟩)
      exact Nat.le_trans enough (b.totals.fits f cap stops)

theorem Accounts.addPart {b : Breakdown} {ps : List Part} {p : Part} {cut : Prop} (accounts : b.Accounts ps cut)
    (formed : b.Formed) (placed : b.grouping.Placed p.id p) (fresh : b.AddsFresh p) :
    (b.addPart p).Accounts (ps ++ [p]) cut := by
  have one : p.contribution.amount b.scale (.sum .count) = 1 := placed.single.count
  have counted : (b.addPart p).totals.sums.count = b.totals.sums.count + 1 := by
    have amount := fresh.totals_amount formed placed (.sum .count)
    rw [one] at amount
    exact amount
  have length : (ps ++ [p]).length = ps.length + 1 := List.length_append
  refine ⟨?_, fun before => ?_⟩
  · have counts := accounts.counts
    omega
  · rcases accounts.short before with more | ⟨f, less⟩
    · exact Or.inl (by omega)
    · refine Or.inr ⟨f, ?_⟩
      have limited := Quantity.limit_le (.sum f) (b.totals.amount (.sum f) + p.contribution.amount b.scale (.sum f))
      rw [← fresh.totals_amount formed placed] at limited
      rw [(b.addPart_alike p).scale, Part.total_append, Part.total_cons, Part.total_nil]
      omega

theorem Accounts.removePart {b : Breakdown} {p : Part} {rest : List Part} {cut : Prop}
    (accounts : b.Accounts (p :: rest) cut) (formed : b.Formed) (placed : b.grouping.Placed p.id p)
    (fresh : b.RemovesFresh p) : (b.removePart p).Accounts rest cut := by
  have counts := accounts.counts
  rw [List.length_cons] at counts
  rcases fresh.totals_cases formed placed with same | ⟨one, less⟩
  · -- A removal that is refused leaves its request counted.
    exact ⟨by omega, fun _ => Or.inl (by omega)⟩
  · refine ⟨by omega, fun before => ?_⟩
    rcases accounts.short before with more | ⟨f, short⟩
    · rw [List.length_cons] at more
      exact Or.inl (by omega)
    · refine Or.inr ⟨f, ?_⟩
      have lost := less f
      have front : p.contribution.amount b.scale (.sum f) = p.contribution.sums.amount f := rfl
      rw [Part.total_cons] at short
      rw [(b.removePart_alike p).scale]
      omega

/-- A breakdown that follows a window goes on to follow it, and so does what
each part keeps up as it comes and goes. -/
theorem Follows.slide {P : Breakdown → List Part → Prop} {b : Breakdown} {w w' : Window} {left arrived : List View}
    (adds : ∀ (c : Breakdown) (p : Part) (ps : List Part), c.Formed → c.grouping.Placed p.id p → c.AddsFresh p →
      P c ps → P (c.addPart p) (ps ++ [p]))
    (removes : ∀ (c : Breakdown) (p : Part) (ps : List Part), c.Formed → c.grouping.Placed p.id p →
      c.RemovesFresh p → P c (p :: ps) → P (c.removePart p) ps)
    (follows : b.Follows w.views w.nextId) (sound : w.Sound) (slides : w.Slides w' left arrived)
    (start : P b (b.partsOf w.views)) :
    ((b.removeAll left).addAll arrived).Follows w'.views w'.nextId ∧
      P ((b.removeAll left).addAll arrived) (b.partsOf w'.views) := by
  obtain ⟨rest, kept, before, twins, after, split, increase, below⟩ := slides.numbered sound
  rw [before] at follows start
  rw [after]
  have between := follows.removeAll_keeps removes split start
  have onward := (follows.removeAll split).twins twins
  have parts : b.partsOf rest = (b.removeAll left).partsOf kept := by
    rw [(Alike.removeAll b left).partsOf_eq]
    exact (twins.parts_eq b.grouping b.filter).symm
  refine ⟨onward.addAll increase slides.newer slides.nextId below, ?_⟩
  rw [← (Alike.removeAll b left).partsOf_eq]
  exact onward.addAll_keeps adds increase slides.newer (parts ▸ between)

theorem Accounts.slide {b : Breakdown} {w w' : Window} {left arrived : List View} {cut : Prop}
    (accounts : b.Accounts (b.partsOf w.views) cut) (follows : b.Follows w.views w.nextId) (sound : w.Sound)
    (slides : w.Slides w' left arrived) :
    ((b.removeAll left).addAll arrived).Follows w'.views w'.nextId ∧
      ((b.removeAll left).addAll arrived).Accounts (b.partsOf w'.views) cut :=
  follows.slide (P := fun c ps => c.Accounts ps cut)
    (fun _ _ _ formed placed fresh held => held.addPart formed placed fresh)
    (fun _ _ _ formed placed fresh held => held.removePart formed placed fresh) sound slides accounts

theorem accounts_views {w : Window} (sound : w.Sound) (g : Grouping) (f : Filter) (scale : Scale) :
    ((empty g f scale).addAll w.views).Follows w.views w.nextId ∧
      ((empty g f scale).addAll w.views).Accounts ((empty g f scale).partsOf w.views) False := by
  have start := empty_follows g f scale [] 0
  have increase := sound.numbered.increase
  refine ⟨start.addAll increase (fun _ _ => Nat.zero_le _) (Nat.zero_le _) sound.numbered.below, ?_⟩
  exact start.addAll_keeps (P := fun c ps => c.Accounts ps False)
    (fun _ _ _ formed placed fresh held => held.addPart formed placed fresh) increase (fun _ _ => Nat.zero_le _)
    (empty_accounts g f scale)

end Breakdown

namespace Monitor

/-- A serial number that is not given out yet belongs to no report so far. -/
theorem holdableThroughout_of_le {m : Monitor} (sound : m.Sound) {history : List Event} {serial : Nat}
    (later : (m.run history).roster.nextSerial ≤ serial) : m.HoldableThroughout history serial := by
  intro before after split report member same
  have given := (run_sound sound before).roster.given report member
  have grown := run_nextSerial_le (run_sound sound before) after
  rw [← run_append, ← split] at grown
  omega

theorem HoldableThroughout.snoc {m : Monitor} {history : List Event} {event : Event} {serial : Nat}
    (holdable : m.HoldableThroughout history serial)
    (last : ∀ report ∈ (m.run (history ++ [event])).roster.live, report.serial = serial →
      (m.run (history ++ [event])).Holdable report) : m.HoldableThroughout (history ++ [event]) serial := by
  intro before after split
  rcases List.eq_nil_or_concat after with rfl | ⟨others, final, rfl⟩
  · rw [List.append_nil] at split
    exact split ▸ last
  · rw [List.concat_eq_append, ← List.append_assoc] at split
    exact holdable before others (List.append_inj' split rfl).1

/-- A report that was not holdable all along was not so before the last step,
or is not so after it. -/
theorem not_holdableThroughout_snoc {m : Monitor} (sound : m.Sound) {history : List Event} {event : Event}
    {report : Report} (member : report ∈ (m.run (history ++ [event])).roster.live)
    (lost : ¬ m.HoldableThroughout (history ++ [event]) report.serial) :
    ¬ m.HoldableThroughout history report.serial ∨ ¬ (m.run (history ++ [event])).Holdable report := by
  refine Classical.or_iff_not_imp_left.mpr fun before now => lost ((Classical.not_not.mp before).snoc ?_)
  intro other known serial
  rw [(run_sound sound _).roster.same known member serial]
  exact now

/-- The counts of a report give away whether it was ever more than it can
hold. -/
theorem run_accounts {m : Monitor} (sound : m.Sound)
    (start : ∀ report ∈ m.roster.live, report.breakdown.Mirrors m.window.views m.window.nextId)
    (history : List Event) : ∀ report ∈ (m.run history).roster.live,
      report.breakdown.Follows (m.run history).window.views (m.run history).window.nextId ∧
        report.breakdown.Accounts (report.breakdown.partsOf (m.run history).window.views)
          (¬ m.HoldableThroughout history report.serial) := by
  refine run_induction (P := fun history report =>
    report.breakdown.Follows (m.run history).window.views (m.run history).window.nextId ∧
      report.breakdown.Accounts (report.breakdown.partsOf (m.run history).window.views)
        (¬ m.HoldableThroughout history report.serial)) sound ?_ ?_ ?_ history
  · intro report member
    have mirrors := start report member
    refine ⟨mirrors.follows, mirrors.holds.accounts.weaken fun lost => absurd ?_ lost⟩
    intro before after split other known _
    cases (List.append_eq_nil_iff.mp split.symm).1
    exact (start other known).holds.fits
  · intro history event given left arrived report old known slides member serial numbers ⟨follows, accounts⟩
    have alike : old.breakdown.Alike report.breakdown := by
      rw [numbers]
      exact (Breakdown.Alike.removeAll _ left).trans (.addAll _ arrived)
    have moved := accounts.slide follows (run_sound sound history).window slides.window
    rw [← numbers, ← alike.partsOf_eq] at moved
    refine ⟨moved.1, moved.2.weaken fun lost => ?_⟩
    rw [← serial]
    exact not_holdableThroughout_snoc sound member lost
  · rintro history event report member later ⟨g, f, numbers⟩
    obtain ⟨follows, accounts⟩ := Breakdown.accounts_views (run_sound sound (history ++ [event])).window g f
      (m.run history).scale
    have alike := Breakdown.Alike.addAll (.empty g f (m.run history).scale) (m.run (history ++ [event])).window.views
    rw [← alike.partsOf_eq, ← numbers] at accounts
    rw [← numbers] at follows
    refine ⟨follows, accounts.weaken fun lost => ?_⟩
    rcases not_holdableThroughout_snoc sound member lost with before | now
    · exact absurd (holdableThroughout_of_le sound later) before
    · exact Or.inr now

/-- Once the window is empty, a live report is empty just when its exact sums
stayed where no sum stops for as long as the report was there. A sum that
stopped is short when requests are taken back, and then a request stays
counted for ever. -/
theorem drained_iff_holdable {settings : Settings} (fit : settings.check = .ok ()) (now : Instant) :
    ∃ m, create settings now = .ok m ∧ ∀ history, (m.run history).window.requests = [] →
      ∀ report ∈ (m.run history).roster.live,
        report.breakdown.entries = [] ∧ report.breakdown.totals.isEmpty = true ↔
          m.HoldableThroughout history report.serial := by
  obtain ⟨m, created⟩ := create_of_check fit now
  obtain ⟨sound, _, start⟩ := create_start created
  refine ⟨m, created, fun history gone report member => ?_⟩
  have views : (m.run history).window.views = [] := by rw [Window.views, gone, List.map_nil]
  constructor
  · rintro ⟨_, empty⟩
    have accounts := (run_accounts sound start history report member).2
    rw [views, Breakdown.partsOf_nil] at accounts
    refine Classical.byContradiction fun lost => ?_
    have zero : report.breakdown.totals.sums.count = 0 := Summary.isEmpty_iff.mp empty (.sum .count)
    rcases accounts.short lost with more | ⟨f, less⟩
    · rw [zero] at more
      exact Nat.lt_irrefl 0 more
    · exact Nat.not_lt_zero _ less
  · intro holdable
    have holds := (run_mirrors sound start history report member holdable).holds
    rw [views] at holds
    exact holds.drained

theorem turnover_drained : ∃ m, create .standard .epoch = .ok m ∧
    ∃ report ∈ (m.run (turnover ++ [.merge ⟨903000000000⟩])).roster.live,
      report.query.id = "by_script" ∧ report.breakdown.entries = [] ∧ report.breakdown.totals.isEmpty = true := by
  obtain ⟨m, created, drains⟩ := drained_iff_holdable (show Settings.standard.check = .ok () from rfl) .epoch
  have moderate : Submission.Moderate (submitted (turnover ++ [.merge ⟨903000000000⟩])) := by
    intro f cap stops
    cases f <;> cases stops <;> decide
  have allGone := passes_of_create created (fun m =>
    let last := m.run (turnover ++ [.merge ⟨903000000000⟩])
    last.window.requests = [] && last.roster.live.any (·.query.id = "by_script")) (by decide +kernel)
  obtain ⟨empty, there⟩ := Bool.and_eq_true_iff.mp allGone
  obtain ⟨report, member, id⟩ := List.any_eq_true.mp there
  obtain ⟨sound, draws, _⟩ := create_start created
  have holdable := holdableThroughout sound draws moderate report.serial
  exact ⟨m, created, report, member, of_decide_eq_true id,
    (drains _ (of_decide_eq_true empty) report member).mpr holdable⟩

/-- Two sound requests, each as long as a duration can be, come and go. -/
def longest : List Event := [
  .submit { script := "page", time := Duration.ofNanos Duration.cap },
  .submit { script := "page", time := Duration.ofNanos Duration.cap },
  .merge ⟨1000000000⟩,
  .merge ⟨1000000000000⟩]

/-- A bucket and the totals still count one of them when both are gone. -/
theorem longest_not_drained : ∃ m, create .standard .epoch = .ok m ∧ (∀ s ∈ submitted longest, s.check = .ok ()) ∧
    (m.run longest).window.requests = [] ∧ ∃ report ∈ (m.run longest).roster.live,
      report.query.id = "by_script" ∧ report.breakdown.entries.length = 1 ∧
        report.breakdown.totals.sums.count = 1 := by
  obtain ⟨m, created⟩ := create_of_check (show Settings.standard.check = .ok () from rfl) .epoch
  have left := passes_of_create created (fun m =>
    let last := m.run longest
    last.window.requests = [] && last.roster.live.any fun report =>
      report.query.id = "by_script" ∧ report.breakdown.entries.length = 1 ∧ report.breakdown.totals.sums.count = 1)
    (by decide +kernel)
  obtain ⟨empty, there⟩ := Bool.and_eq_true_iff.mp left
  obtain ⟨report, member, counted⟩ := List.any_eq_true.mp there
  refine ⟨m, created, fun s member => ?_, of_decide_eq_true empty, report, member, of_decide_eq_true counted⟩
  rcases List.mem_cons.mp member with rfl | other
  · rfl
  · cases List.mem_singleton.mp other
    rfl

end Monitor

end Rollup
