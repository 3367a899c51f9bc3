import Rollup.Histogram.Scale

namespace Rollup

namespace Scale

/-- A scale that can be used has cells, none of them thinner than a
nanosecond. -/
theorem create_eq_ok_iff {top : Duration} {cells : Nat} {s : Scale} :
    create top cells = .ok s ↔ s = ⟨top, cells⟩ ∧ 0 < cells ∧ cells ≤ top.val := by
  unfold create
  split
  · rename_i unusable
    constructor
    · intro made
      cases made
    · rintro ⟨_, some_cell, fine⟩
      omega
  · rename_i usable
    rw [Except.ok.injEq]
    constructor
    · rintro rfl
      exact ⟨rfl, by omega, by omega⟩
    · rintro ⟨same, _, _⟩
      exact same.symm

theorem width_pos {s : Scale} (some_cell : 0 < s.cells) (fine : s.cells ≤ s.top.val) : 0 < s.width.val :=
  Nat.div_pos fine some_cell

theorem width_mul_le (s : Scale) {n : Nat} (within : n ≤ s.cells) : s.width.val * n ≤ s.top.val :=
  Nat.le_trans (Nat.mul_le_mul_left _ within) (Nat.div_mul_le_self s.top.val s.cells)

theorem times?_of_le {d : Duration} {n : Nat} (fits : d.val * n ≤ Duration.cap) : d.times? n = some ⟨d.val * n, fits⟩ :=
  dif_pos fits

/-- Where one cell stops and the next one starts. The first edge and the last
are the ends of the scale. -/
def edge (s : Scale) (i : Nat) : Duration := if i < s.cells then Duration.ofNanos (s.width.val * i) else s.top

theorem edge_val {s : Scale} {i : Nat} (within : i < s.cells) : (s.edge i).val = s.width.val * i := by
  have fits : s.width.val * i ≤ Duration.cap :=
    Nat.le_trans (s.width_mul_le (Nat.le_of_lt within)) s.top.le_cap
  rw [edge, if_pos within]
  exact Nat.min_eq_left fits

theorem edge_of_cells_le {s : Scale} {i : Nat} (beyond : s.cells ≤ i) : s.edge i = s.top :=
  if_neg (Nat.not_lt.mpr beyond)

theorem edge_zero {s : Scale} (some_cell : 0 < s.cells) : s.edge 0 = 0 := by
  apply Capped.ext
  simp [edge_val some_cell]

theorem edge_le_top (s : Scale) (i : Nat) : s.edge i ≤ s.top := by
  by_cases within : i < s.cells
  · rw [Capped.le_iff, edge_val within]
    exact s.width_mul_le (Nat.le_of_lt within)
  · rw [edge_of_cells_le (Nat.not_lt.mp within)]
    exact Nat.le_refl _

theorem edge_mono (s : Scale) {i j : Nat} (order : i ≤ j) : s.edge i ≤ s.edge j := by
  by_cases within : j < s.cells
  · rw [Capped.le_iff, edge_val within, edge_val (by omega : i < s.cells)]
    exact Nat.mul_le_mul_left _ order
  · rw [edge_of_cells_le (Nat.not_lt.mp within)]
    exact s.edge_le_top i

/-- The width may fall short of an equal share, but the last cell takes what
is left over, so none is empty. -/
theorem edge_lt_edge {s : Scale} (fine : s.cells ≤ s.top.val) {cell : Nat} (within : cell < s.cells) :
    s.edge cell < s.edge (cell + 1) := by
  have wide := width_pos (by omega) fine
  have step : s.width.val * (cell + 1) = s.width.val * cell + s.width.val := Nat.mul_succ _ _
  rw [Capped.lt_iff, edge_val within]
  by_cases next : cell + 1 < s.cells
  · rw [edge_val next]
    omega
  · rw [edge_of_cells_le (Nat.not_lt.mp next)]
    have whole : s.width.val * (cell + 1) ≤ s.top.val := s.width_mul_le within
    omega

/-- No edge of a cell is too large to be worked out. -/
theorem range?_eq {s : Scale} (numbered : s.cells < cellNumbers) {cell : Nat} (within : cell < s.cells) :
    s.range? cell = some (s.edge cell, s.edge (cell + 1)) := by
  have fits {n : Nat} (inside : n ≤ s.cells) : s.width.val * n ≤ Duration.cap :=
    Nat.le_trans (s.width_mul_le inside) s.top.le_cap
  have start : s.startOf? cell = some (s.edge cell) := by
    rw [startOf?, Nat.mod_eq_of_lt (by omega : cell < cellNumbers), times?_of_le (fits (Nat.le_of_lt within))]
    exact congrArg some (Capped.ext (edge_val within).symm)
  have stop : s.stopOf? cell = some (s.edge (cell + 1)) := by
    unfold stopOf?
    by_cases last : s.cells ≤ cell + 1
    · rw [if_pos last, edge_of_cells_le last]
    · rw [if_neg last, times?_of_le (fits within)]
      exact congrArg some (Capped.ext (edge_val (by omega)).symm)
  rw [range?, start, stop]
  rfl

theorem range_eq {s : Scale} (numbered : s.cells < cellNumbers) {cell : Nat} (within : cell < s.cells) :
    s.range cell = (s.edge cell, s.edge (cell + 1)) := by
  rw [range, range?_eq numbered within, Option.getD_some]

theorem cellOf_lt {s : Scale} (some_cell : 0 < s.cells) (d : Duration) : s.cellOf d < s.cells := by
  unfold cellOf
  omega

theorem cellOf_mono (s : Scale) {d e : Duration} (order : d ≤ e) : s.cellOf d ≤ s.cellOf e := by
  have quotients : d.val / max s.width.val 1 ≤ e.val / max s.width.val 1 := Nat.div_le_div_right order
  unfold cellOf
  omega

theorem cellOf_of_top_le {s : Scale} (some_cell : 0 < s.cells) (fine : s.cells ≤ s.top.val) {d : Duration}
    (long : s.top ≤ d) : s.cellOf d = s.cells - 1 := by
  have wide := width_pos some_cell fine
  have whole : s.cells ≤ d.val / s.width.val := by
    rw [Nat.le_div_iff_mul_le wide, Nat.mul_comm]
    exact Nat.le_trans (s.width_mul_le (Nat.le_refl _)) long
  rw [cellOf, Nat.max_eq_left wide]
  omega

/-- Below the top a duration falls into a cell exactly when it lies between
the edges of it. -/
theorem cellOf_eq_iff {s : Scale} (fine : s.cells ≤ s.top.val) {cell : Nat} (within : cell < s.cells) {d : Duration}
    (below : d < s.top) : s.cellOf d = cell ↔ s.edge cell ≤ d ∧ d < s.edge (cell + 1) := by
  have wide := width_pos (by omega) fine
  have reaches (n : Nat) : n ≤ d.val / s.width.val ↔ s.width.val * n ≤ d.val := by
    rw [Nat.le_div_iff_mul_le wide, Nat.mul_comm]
  have start := reaches cell
  have stop := reaches (cell + 1)
  rw [cellOf, Nat.max_eq_left wide, Capped.le_iff, Capped.lt_iff, edge_val within]
  by_cases next : cell + 1 < s.cells
  · rw [edge_val next]
    omega
  · rw [edge_of_cells_le (Nat.not_lt.mp next)]
    have short : d.val < s.top.val := below
    omega

theorem cellOf_edge {s : Scale} (fine : s.cells ≤ s.top.val) {cell : Nat} (within : cell < s.cells) :
    s.cellOf (s.edge cell) = cell := by
  have order := edge_lt_edge fine within
  have below : s.edge cell < s.top := Nat.lt_of_lt_of_le order (s.edge_le_top _)
  exact (cellOf_eq_iff fine within below).mpr ⟨Nat.le_refl _, order⟩

theorem cellOf_range_start {s : Scale} {cell : Nat} (fine : s.cells ≤ s.top.val)
    (numbered : s.cells < cellNumbers) (within : cell < s.cells) : s.cellOf (s.range cell).1 = cell := by
  rw [range_eq numbered within]
  exact cellOf_edge fine within

/-- The cells of a scale that can be used share out the time from zero to its
top. The range of each can be worked out, is not empty, and starts where the
one before stops; the first starts at zero and the last stops at the top. A
duration below the top lies in the range of just the cell that it falls into,
a longer one falls into the last cell, and the start of a range falls into the
cell itself. -/
theorem cells_share_out_time {top : Duration} {cells : Nat} {s : Scale} (made : create top cells = .ok s)
    (numbered : cells < cellNumbers) :
    (∀ cell < cells, ∃ start stop, s.range? cell = some (start, stop) ∧ start < stop ∧
      (cell = 0 → start = 0) ∧ (cell + 1 = cells → stop = top) ∧
      (cell + 1 < cells → ∃ beyond, s.range? (cell + 1) = some (stop, beyond)) ∧
      s.cellOf start = cell ∧ ∀ d < top, s.cellOf d = cell ↔ start ≤ d ∧ d < stop) ∧
    (∀ d, s.cellOf d < cells) ∧ (∀ d, top ≤ d → s.cellOf d = cells - 1) ∧
    ∀ d e, d ≤ e → s.cellOf d ≤ s.cellOf e := by
  obtain ⟨rfl, some_cell, fine⟩ := create_eq_ok_iff.mp made
  refine ⟨fun cell within => ?_, cellOf_lt some_cell, fun _ long => cellOf_of_top_le some_cell fine long,
    fun _ _ order => cellOf_mono _ order⟩
  refine ⟨_, _, range?_eq numbered within, edge_lt_edge fine within, ?_, ?_, fun next => ⟨_, range?_eq numbered next⟩,
    cellOf_edge fine within, fun d below => cellOf_eq_iff fine within below⟩
  · rintro rfl
    exact edge_zero some_cell
  · intro last
    exact edge_of_cells_le (Nat.le_of_eq last.symm)

/-- Eleven nanoseconds in four cells: three of them two wide, and five for the
last one. -/
theorem uneven_cells_share_out_time :
    let s : Scale := ⟨.ofNanos 11, 4⟩
    create (.ofNanos 11) 4 = .ok s ∧ 4 < cellNumbers ∧
      s.range? 2 = some (.ofNanos 4, .ofNanos 6) ∧ s.range? 3 = some (.ofNanos 6, .ofNanos 11) ∧
      (s.cellOf (.ofNanos 10) = 3 ↔ Duration.ofNanos 6 ≤ .ofNanos 10 ∧ Duration.ofNanos 10 < .ofNanos 11) ∧
      s.cellOf (.ofNanos 11) = 3 := by
  have made : create (.ofNanos 11) 4 = .ok ⟨.ofNanos 11, 4⟩ := create_eq_ok_iff.mpr ⟨rfl, by decide, by decide⟩
  have numbered : 4 < cellNumbers := by decide
  have range : (⟨.ofNanos 11, 4⟩ : Scale).range? 3 = some (.ofNanos 6, .ofNanos 11) := by decide
  obtain ⟨ranges, _, longer, _⟩ := cells_share_out_time made numbered
  obtain ⟨start, stop, found, _, _, _, _, _, inside⟩ := ranges 3 (by decide)
  cases Option.some.inj (found.symm.trans range)
  exact ⟨made, numbered, by decide, range, inside _ (by decide), longer _ (by decide)⟩

end Scale

end Rollup
