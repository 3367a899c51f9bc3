import Rollup.Proofs.Breakdown

namespace Rollup

/-- A request with nothing but a number and a time. -/
def View.plain (id : Nat) (time : Duration) : View where
  record := {
    id, timestamp := .epoch, host := "", server := "", script := "", schema := "", status := 0
    requestCount := 0, documentSize := 0, memoryPeak := 0, memoryFootprint := 0
    time, userTime := 0, systemTime := 0, tags := [], timers := ⟨0, 0⟩ }
  timers := []
  lexicon := .empty 0

/-- A request for a script with one timer, which has one tag. -/
def View.tagged (id : Nat) (script value : String) : View :=
  { View.plain id 0 with
    record := { (View.plain id 0).record with script }
    timers := [⟨.ofMillis 5, 1, 0, 0, [⟨0, 0⟩]⟩]
    lexicon := ⟨⟨1, ["t"]⟩, ⟨1, [value]⟩⟩ }

/-- What a holder of a breakdown can do to it. -/
inductive Move
  | add (v : View)
  | remove (v : View)
deriving DecidableEq

def Move.added (moves : List Move) : List View :=
  moves.filterMap fun
    | .add v => some v
    | .remove _ => none

def Move.removed (moves : List Move) : List View :=
  moves.filterMap fun
    | .add _ => none
    | .remove v => some v

namespace Move

@[simp] theorem added_nil : added [] = [] := rfl

@[simp] theorem added_cons_add (v : View) (rest : List Move) : added (.add v :: rest) = v :: added rest := rfl

@[simp] theorem added_cons_remove (v : View) (rest : List Move) : added (.remove v :: rest) = added rest := rfl

@[simp] theorem added_append (left right : List Move) : added (left ++ right) = added left ++ added right :=
  List.filterMap_append

@[simp] theorem removed_nil : removed [] = [] := rfl

@[simp] theorem removed_cons_add (v : View) (rest : List Move) : removed (.add v :: rest) = removed rest := rfl

@[simp] theorem removed_cons_remove (v : View) (rest : List Move) :
    removed (.remove v :: rest) = v :: removed rest := rfl

@[simp] theorem removed_append (left right : List Move) : removed (left ++ right) = removed left ++ removed right :=
  List.filterMap_append

theorem mem_removed {moves : List Move} {w : View} (member : w ∈ removed moves) :
    ∃ before after, moves = before ++ .remove w :: after := by
  obtain ⟨m, inside, found⟩ := List.mem_filterMap.mp member
  cases m with
  | add v => cases found
  | remove v =>
    cases found
    exact List.append_of_mem inside

end Move

namespace Grouping

/-- The exact amounts that requests add to a breakdown when nothing is
merged, counted once or stopped. -/
def exact (g : Grouping) (f : Filter) (scale : Scale) (views : List View) : Quantity → Nat :=
  Contribution.total scale (views.flatMap (g.shares f))

@[simp] theorem exact_cons (g : Grouping) (f : Filter) (scale : Scale) (v : View) (views : List View) (q : Quantity) :
    g.exact f scale (v :: views) q = Contribution.total scale (g.shares f v) q + g.exact f scale views q := by
  simp [exact]

@[simp] theorem exact_append (g : Grouping) (f : Filter) (scale : Scale) (left right : List View) (q : Quantity) :
    g.exact f scale (left ++ right) q = g.exact f scale left q + g.exact f scale right q := by
  simp [exact]

theorem exact_sublist {left right : List View} (sub : left.Sublist right) (g : Grouping) (f : Filter) (scale : Scale)
    (q : Quantity) : g.exact f scale left q ≤ g.exact f scale right q := by
  induction sub with
  | slnil => exact Nat.le_refl _
  | cons v _ ih => rw [exact_cons]; omega
  | cons_cons v _ ih => rw [exact_cons, exact_cons]; omega

theorem exact_perm {left right : List View} (perm : left.Perm right) (g : Grouping) (f : Filter) (scale : Scale)
    (q : Quantity) : g.exact f scale left q = g.exact f scale right q :=
  Contribution.total_perm (perm.flatMap_right _) scale q

/-- What is merged adds no more than what is not. -/
theorem parts_exact_le (g : Grouping) (f : Filter) (scale : Scale) (views : List View) (q : Quantity) :
    Part.total scale (views.flatMap (g.parts f)) q ≤ g.exact f scale views q := by
  induction views with
  | nil => exact Nat.le_refl _
  | cons v rest ih =>
    have front := g.parts_total_le f v scale q
    rw [List.flatMap_cons, Part.total_append, exact_cons]
    omega

end Grouping

namespace Breakdown

def move (b : Breakdown) : Move → Breakdown
  | .add v => b.add v
  | .remove v => b.remove v

def play (b : Breakdown) (moves : List Move) : Breakdown := moves.foldl move b

end Breakdown

end Rollup
