namespace Rollup.Text

/-- The characters in front that fit into `room` bytes of UTF-8. -/
def clipChars : Nat → List Char → List Char
  | _, [] => []
  | room, c :: rest => if c.utf8Size ≤ room then c :: clipChars (room - c.utf8Size) rest else []

/-- The longest beginning of `s` that is made of whole characters and takes
at most `room` bytes in UTF-8; all of `s` when that fits. -/
def clip (room : Nat) (s : String) : String :=
  if s.utf8ByteSize ≤ room then s else String.ofList (clipChars room s.toList)

theorem clip_of_fits {room : Nat} {s : String} (fits : s.utf8ByteSize ≤ room) : clip room s = s := if_pos fits

end Rollup.Text
