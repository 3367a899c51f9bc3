import Rollup.Text.Clip
import Rollup.Vocabulary

namespace Rollup

/-- A tag as records hold it: the numbers of its name and of its value. -/
structure Tag where
  name : Nat
  value : Nat
deriving DecidableEq

/-- The value of the first tag of that name. -/
def Tag.lookup? (tags : List Tag) (name : Nat) : Option Nat := (tags.find? (·.name = name)).map (·.value)

/-- The names and the values of tags, numbered apart. -/
structure Lexicon where
  names : Vocabulary
  values : Vocabulary
deriving DecidableEq

namespace Lexicon

def empty (limit : Nat) : Lexicon := ⟨.empty limit, .empty limit⟩

/-- The longest value of a tag that is kept whole, in bytes. -/
def valueRoom : Nat := 64

/-- A tag with its name and value spelled out. -/
def spell (lex : Lexicon) (tag : Tag) : String × String := (lex.names.wordD tag.name, lex.values.wordD tag.value)

/-- Numbers a tag, its value clipped. A tag that finds no room is dropped;
the name is taken in before the value, and stays when only the value finds
no room. -/
def learnTag (lex : Lexicon) (tag : String × String) : Lexicon × Option Tag :=
  match lex.names.learn tag.1 with
  | .error _ => (lex, none)
  | .ok (names, name) =>
    match lex.values.learn (Text.clip valueRoom tag.2) with
    | .error _ => ({ lex with names }, none)
    | .ok (values, value) => (⟨names, values⟩, some ⟨name, value⟩)

/-- Numbers tags in order and leaves out those that are dropped. -/
def learnTags (lex : Lexicon) : List (String × String) → Lexicon × List Tag
  | [] => (lex, [])
  | tag :: rest =>
    let (lex, learned) := lex.learnTag tag
    let (lex, tags) := lex.learnTags rest
    (lex, learned.toList ++ tags)

end Lexicon

end Rollup
