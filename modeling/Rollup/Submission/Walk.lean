import Rollup.Submission

namespace Rollup.Submission

/-- One timer taken out of the arrays of a submission, its tags spelled out. -/
structure Timer where
  value : Duration
  hits : Nat
  userTime : Duration
  systemTime : Duration
  tags : List (String × String)
deriving DecidableEq

/-- Pairs up names and values. A pair is left out when the dictionary lacks
one of its words. -/
def tagPairs (dictionary : List String) (names values : List Nat) : List (String × String) :=
  (names.zip values).filterMap fun (name, value) => do
    let name ← dictionary[name]?
    let value ← dictionary[value]?
    return (name, value)

/-- Takes timers off the front of the arrays for as long as each array still
holds what the next timer needs. A missing CPU time reads as zero. -/
def walk (dictionary : List String) :
    List Duration → List Nat → List Nat → List Duration → List Duration → List Nat → List Nat → List Timer
  | value :: values, hits :: hitCounts, tags :: tagCounts, userTimes, systemTimes, names, words =>
    if tags ≤ names.length ∧ tags ≤ words.length then
      { value, hits
        userTime := userTimes.headD 0
        systemTime := systemTimes.headD 0
        tags := tagPairs dictionary (names.take tags) (words.take tags) } ::
      walk dictionary values hitCounts tagCounts userTimes.tail systemTimes.tail
        (names.drop tags) (words.drop tags)
    else []
  | _, _, _, _, _, _, _ => []

/-- The timers of a submission in order, up to the first that lacks a part. -/
def timers (s : Submission) : List Timer :=
  walk s.dictionary s.timerValues s.timerHits s.timerTagCounts s.timerUserTimes s.timerSystemTimes
    s.timerTagNames s.timerTagValues

/-- The tags of the request itself, in order. -/
def tags (s : Submission) : List (String × String) := tagPairs s.dictionary s.tagNames s.tagValues

/-- An access behind the end of an array. -/
structure OutOfRange where
  position : Nat
  size : Nat
deriving DecidableEq

/-- The entry of an array at a position that must not be behind its end. -/
def entryAt {α : Type} (entries : List α) (position : Nat) : Except OutOfRange α :=
  match entries[position]? with
  | some entry => .ok entry
  | none => .error ⟨position, entries.length⟩

/-- The `count` entries of an array from a position on, if it has them. -/
def slice? {α : Type} (entries : List α) (position count : Nat) : Option (List α) :=
  if position + count ≤ entries.length then some ((entries.drop position).take count) else none

/-- Reads `left` pairs of a name and a value from a position on. A pair is left
out when the dictionary lacks one of its words. -/
def visitPairs (dictionary : List String) (names values : List Nat) :
    Nat → Nat → Except OutOfRange (List (String × String))
  | 0, _ => .ok []
  | left + 1, position => do
    let name ← entryAt names position
    let value ← entryAt values position
    let later ← visitPairs dictionary names values left (position + 1)
    let tag : Option (String × String) := do
      let name ← dictionary[name]?
      let value ← dictionary[value]?
      return (name, value)
    return tag.toList ++ later

/-- Reads pairs up to the end of the shorter array. -/
def visitTags (dictionary : List String) (names values : List Nat) : Except OutOfRange (List (String × String)) :=
  visitPairs dictionary names values (min names.length values.length) 0

/-- Reads `left` timers from a position on, with `offset` tags before them. The
arrays stay whole: an entry is taken by its position, and only the value of a
timer is taken without looking whether it is there. -/
def visitTimers (s : Submission) : Nat → Nat → Nat → Except OutOfRange (List Timer)
  | 0, _, _ => .ok []
  | left + 1, position, offset =>
    match s.timerTagCounts[position]? with
    | none => .ok []
    | some count =>
      match slice? s.timerTagNames offset count, slice? s.timerTagValues offset count with
      | some names, some words => do
        let value ← entryAt s.timerValues position
        match s.timerHits[position]? with
        | none => return []
        | some hits =>
          let tags ← visitTags s.dictionary names words
          let later ← visitTimers s left (position + 1) (offset + count)
          return {
            value, hits, tags
            userTime := s.timerUserTimes[position]?.getD 0
            systemTime := s.timerSystemTimes[position]?.getD 0 } :: later
      | _, _ => .ok []

end Rollup.Submission
