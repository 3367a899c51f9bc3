import Rollup.Submission

namespace Rollup

/-- The submissions that wait to be merged, oldest first, with room for
`capacity` of them. It stands for a queue that comes with a library, of which no
more is assumed than this: what is put in first comes out first, and one that is
full gives up its oldest for what is put in. -/
structure Inbox where
  capacity : Nat
  waiting : List Submission
deriving DecidableEq

namespace Inbox

def empty (capacity : Nat) : Inbox := ⟨capacity, []⟩

def size (inbox : Inbox) : Nat := inbox.waiting.length

def isFull (inbox : Inbox) : Bool := inbox.capacity ≤ inbox.size

/-- Puts a submission behind the others. A full inbox gives up its oldest
submission for it. -/
def push (inbox : Inbox) (s : Submission) : Inbox :=
  { inbox with waiting := (if inbox.isFull then inbox.waiting.tail else inbox.waiting) ++ [s] }

/-- Takes the oldest submission out. -/
def pop? (inbox : Inbox) : Option (Submission × Inbox) :=
  match inbox.waiting with
  | [] => none
  | s :: rest => some (s, { inbox with waiting := rest })

/-- Takes out one submission after the other, `most` of them at most. -/
def popMany (inbox : Inbox) : Nat → List Submission × Inbox
  | 0 => ([], inbox)
  | most + 1 =>
    match inbox.pop? with
    | none => ([], inbox)
    | some (s, inbox) =>
      let (rest, inbox) := inbox.popMany most
      (s :: rest, inbox)

end Inbox

end Rollup
