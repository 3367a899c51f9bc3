namespace Rollup.Text

/-- The value of a run of decimal digits read after `acc`; nothing if some
character is not one of the ten ASCII digits. -/
def digitsValue? (acc : Nat) : List Char → Option Nat
  | [] => some acc
  | c :: rest => if c.isDigit then digitsValue? (acc * 10 + (c.toNat - '0'.toNat)) rest else none

/-- Reads a whole number up to `limit`: one plus sign at most, then one or
more decimal digits and nothing else. Leading zeros are allowed. -/
def wholeNumber? (limit : Nat) (s : String) : Option Nat := do
  let digits := match s.toList with
    | '+' :: digits => digits
    | digits => digits
  if digits.isEmpty then none
  let n ← digitsValue? 0 digits
  if n ≤ limit then some n else none

end Rollup.Text
