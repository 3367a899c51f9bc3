namespace Rollup.Text

/-- The characters on either side of the first `sep`, if there is one. -/
def cutChars? (sep : Char) : List Char → Option (List Char × List Char)
  | [] => none
  | c :: rest => if c = sep then some ([], rest) else (cutChars? sep rest).map fun (l, r) => (c :: l, r)

/-- The text on either side of the first `sep`, if there is one. -/
def cut? (sep : Char) (s : String) : Option (String × String) :=
  (cutChars? sep s.toList).map fun (l, r) => (String.ofList l, String.ofList r)

/-- The runs of characters between separators: one more than there are
separators, so the empty text has one empty run. -/
def fieldChars (sep : Char) : List Char → List (List Char)
  | [] => [[]]
  | c :: rest =>
    if c = sep then [] :: fieldChars sep rest
    else match fieldChars sep rest with
      | [] => [[c]]
      | field :: fields => (c :: field) :: fields

def fields (sep : Char) (s : String) : List String := (fieldChars sep s.toList).map String.ofList

/-- What follows `start` in `s`, if `s` begins with it. -/
def dropStart? (start s : String) : Option String :=
  if start.toList.isPrefixOf s.toList then some (String.ofList (s.toList.drop start.length)) else none

end Rollup.Text
