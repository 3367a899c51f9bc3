namespace Rollup

namespace Word

/-- The least number that a machine word of 64 bits has no room for. -/
def limit : Nat := 18446744073709551616

/-- Half as many numbers as there are words. -/
def half : Nat := 9223372036854775808

/-- The least number that a machine word of 32 bits has no room for. -/
def shortLimit : Nat := 4294967296

/-- What a word of 64 bits keeps of a number. -/
def wrap (n : Nat) : Nat := n % limit

/-- What a word of 32 bits keeps of a number. -/
def cut (n : Nat) : Nat := n % shortLimit

theorem limit_eq : limit = 2 * half := rfl

theorem wrap_eq {n : Nat} (fits : n < limit) : wrap n = n := Nat.mod_eq_of_lt fits

/-- A sum that is told as one of its parts or more stays so when that part gets
smaller. -/
theorem wrap_add_of_le {part less rest : Nat} (fewer : less ≤ part) (told : part ≤ wrap (part + rest)) :
    wrap (less + rest) = less + (wrap (part + rest) - part) := by
  unfold wrap limit at *
  omega

theorem cut_eq {n : Nat} (short : n < shortLimit) : cut n = n := Nat.mod_eq_of_lt short

theorem cut_le (n : Nat) : cut n ≤ n := Nat.mod_le n shortLimit

end Word

end Rollup
