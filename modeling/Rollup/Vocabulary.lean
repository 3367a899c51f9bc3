namespace Rollup

/-- The words met so far, numbered from zero in the order they came. At most
`limit` words are ever taken in, and none is ever forgotten. -/
structure Vocabulary where
  limit : Nat
  words : List String
deriving DecidableEq

namespace Vocabulary

/-- No room for one more word. -/
structure Full where
  limit : Nat
deriving DecidableEq

def Full.message (e : Full) : String := "interner is full (" ++ Nat.repr e.limit ++ " entries)"

/-- The largest number of words that any vocabulary holds. -/
def widest : Nat := 4294967295

def empty (limit : Nat) : Vocabulary := ⟨limit, []⟩

def size (v : Vocabulary) : Nat := v.words.length

def isEmpty (v : Vocabulary) : Bool := v.words.isEmpty

/-- The number of a word already taken in. -/
def find? (v : Vocabulary) (word : String) : Option Nat := v.words.idxOf? word

def word? (v : Vocabulary) (id : Nat) : Option String := v.words[id]?

/-- The word of that number, or the empty text for a number never given out. -/
def wordD (v : Vocabulary) (id : Nat) : String := (v.word? id).getD ""

/-- The number of a word, which is taken in first if it is new. A known word
always has its number, even when nothing new fits. -/
def learn (v : Vocabulary) (word : String) : Except Full (Vocabulary × Nat) :=
  match v.find? word with
  | some id => .ok (v, id)
  | none =>
    if v.words.length < v.limit then .ok ({ v with words := v.words ++ [word] }, v.words.length)
    else .error ⟨v.limit⟩

/-- Every word with its number. -/
def entries (v : Vocabulary) : List (Nat × String) := v.words.zipIdx.map fun (word, id) => (id, word)

end Vocabulary

end Rollup
