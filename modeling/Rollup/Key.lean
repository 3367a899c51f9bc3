namespace Rollup

namespace Key

/-- Stands between the components of a key. -/
def separator : Char := '|'

/-- Makes the character after it an ordinary one. -/
def escapeMark : Char := '\\'

/-- A component as a key holds it: every separator and every escape mark
has an escape mark in front. -/
def escape : List Char → List Char
  | [] => []
  | c :: rest => if c = separator ∨ c = escapeMark then escapeMark :: c :: escape rest else c :: escape rest

/-- Adds a character in front of the first component. -/
def consHead (c : Char) : List (List Char) → List (List Char)
  | [] => [[c]]
  | component :: rest => (c :: component) :: rest

/-- The components of a key with their escape marks taken out. Any character
may follow an escape mark, and a lone one at the end stands for nothing. -/
def splitChars : List Char → List (List Char)
  | [] => [[]]
  | [c] => if c = separator then [[], []] else if c = escapeMark then [[]] else [[c]]
  | c :: d :: rest =>
    if c = separator then [] :: splitChars (d :: rest)
    else if c = escapeMark then consHead d (splitChars rest)
    else consHead c (splitChars (d :: rest))

/-- The components that a key stands for, of keys of any origin. A key
always has one, so the empty key has one empty component. -/
def components (key : String) : List String := (splitChars key.toList).map String.ofList

/-- A key in the making: its text so far and how many components are in it. -/
structure Draft where
  text : String
  count : Nat
deriving DecidableEq

namespace Draft

def empty : Draft := ⟨"", 0⟩

/-- Adds a component, escaped, behind a separator unless it is the first. -/
def push (draft : Draft) (component : String) : Draft where
  text := draft.text ++ (if draft.count = 0 then "" else String.singleton separator)
    ++ String.ofList (escape component.toList)
  count := draft.count + 1

/-- Forgets all components, so that another key can be made. -/
def clear (_ : Draft) : Draft := empty

end Draft

/-- The key that stands for a list of components. -/
def ofComponents (components : List String) : String := (components.foldl Draft.push Draft.empty).text

end Key

/-- Names a bucket of a report: the key within its group, and the key of the
group where the report has groups. -/
structure BucketKey where
  outer : Option String
  inner : String
deriving DecidableEq

namespace BucketKey

def flat (inner : String) : BucketKey := ⟨none, inner⟩

def nested (outer inner : String) : BucketKey := ⟨some outer, inner⟩

/-- Keys without a group come first, then groups in order; within a group
the inner keys decide. -/
instance : Ord BucketKey := ⟨compareLex (compareOn outer) (compareOn inner)⟩

instance : Std.TransOrd BucketKey :=
  inferInstanceAs (Std.TransCmp (compareLex (compareOn outer) (compareOn inner)))

instance : Std.LawfulEqOrd BucketKey where
  eq_of_compare {a b} same := by
    obtain ⟨sameOuter, sameInner⟩ := Ordering.then_eq_eq.mp same
    have outer : a.outer = b.outer := Std.LawfulEqOrd.eq_of_compare sameOuter
    have inner : a.inner = b.inner := Std.LawfulEqOrd.eq_of_compare sameInner
    cases a
    cases b
    cases outer
    cases inner
    rfl

instance : LT BucketKey := ltOfOrd

instance (a b : BucketKey) : Decidable (a < b) := inferInstanceAs (Decidable (compare a b = .lt))

/-- One text for the whole key. -/
def text (key : BucketKey) : String :=
  match key.outer with
  | none => key.inner
  | some outer => outer ++ String.singleton Key.separator ++ key.inner

/-- The grouping values that the key stands for, those of the group first. -/
def values (key : BucketKey) : List String :=
  (key.outer.elim [] Key.components) ++ Key.components key.inner

end BucketKey

end Rollup
