namespace Rollup

namespace Lanes

/-- How many parts of `size` things hold `n` of them. -/
def parts (n size : Nat) : Nat := (n + size - 1) / size

/-- Splits work into runs of equal length, the last one shorter if need be.
There are at most `count` of them, and no more than there is work. -/
def split {α : Type} (count : Nat) (work : List α) : List (List α) :=
  let count := min count work.length
  if count ≤ 1 then [work]
  else
    let size := parts work.length count
    (List.range (parts work.length size)).map fun i => (work.drop (i * size)).take size

end Lanes

end Rollup
