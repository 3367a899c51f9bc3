import Rollup.Text.Clip

namespace Rollup.Text

/-- The bytes that stand for characters in UTF-8. -/
def encode (cs : List Char) : List UInt8 := cs.flatMap String.utf8EncodeChar

/-- The bytes of a text. -/
def bytes (s : String) : List UInt8 := s.toByteArray.data.toList

/-- A byte that a character can start with. The others go on with one. -/
def StartsCharacter (b : UInt8) : Prop := b < 128 ∨ 192 ≤ b

instance (b : UInt8) : Decidable (StartsCharacter b) := inferInstanceAs (Decidable (b < 128 ∨ 192 ≤ b))

/-- A place where bytes can be parted: one of the ends, or in front of a byte
that a character can start with. -/
def Boundary (bytes : List UInt8) (i : Nat) : Prop :=
  i = 0 ∨ i = bytes.length ∨ (bytes[i]?).any (StartsCharacter ·)

instance (bytes : List UInt8) (i : Nat) : Decidable (Boundary bytes i) :=
  inferInstanceAs (Decidable (i = 0 ∨ i = bytes.length ∨ (bytes[i]?).any (StartsCharacter ·)))

/-- Steps back from a place to the first boundary. No step leads back from the
start. -/
def boundaryFrom? (bytes : List UInt8) : Nat → Option Nat
  | 0 => if Boundary bytes 0 then some 0 else none
  | i + 1 => if Boundary bytes (i + 1) then some (i + 1) else boundaryFrom? bytes i

/-- `clip` on bytes. -/
def clipBytes? (room : Nat) (bytes : List UInt8) : Option (List UInt8) :=
  if bytes.length ≤ room then some bytes else (boundaryFrom? bytes room).map bytes.take

theorem encode_cons (c : Char) (cs : List Char) : encode (c :: cs) = String.utf8EncodeChar c ++ encode cs :=
  List.flatMap_cons

theorem length_encode_cons (c : Char) (cs : List Char) :
    (encode (c :: cs)).length = c.utf8Size + (encode cs).length := by
  rw [encode_cons, List.length_append, String.length_utf8EncodeChar]

theorem encode_append (cs ds : List Char) : encode (cs ++ ds) = encode cs ++ encode ds := List.flatMap_append

theorem encode_isPrefix {front cs : List Char} (before : front <+: cs) : encode front <+: encode cs := by
  obtain ⟨behind, rfl⟩ := before
  rw [encode_append]
  exact List.prefix_append _ _

theorem bytes_eq (s : String) : bytes s = encode s.toList := by
  rw [bytes, ← String.utf8Encode_toList]
  simp [List.utf8Encode, encode]

theorem length_encode_toList (s : String) : (encode s.toList).length = s.utf8ByteSize := by
  rw [← bytes_eq]
  rfl

theorem startsCharacter_ofNat_iff {n : Nat} (byte : n < 256) :
    StartsCharacter (UInt8.ofNat n) ↔ n < 128 ∨ 192 ≤ n := by
  have value : (UInt8.ofNat n).toNat = n := UInt8.toNat_ofNat_of_lt' byte
  rw [StartsCharacter, UInt8.lt_iff_toNat_lt, UInt8.le_iff_toNat_le, value]
  rfl

theorem not_startsCharacter_later (n : Nat) : ¬StartsCharacter (UInt8.ofNat (n % 0x40 + 0x80)) := by
  rw [startsCharacter_ofNat_iff (by omega)]
  omega

/-- Of the bytes of a character the first is the only one that a character can
start with. -/
theorem utf8EncodeChar_eq (c : Char) : ∃ first others, String.utf8EncodeChar c = first :: others ∧
    StartsCharacter first ∧ ∀ b ∈ others, ¬StartsCharacter b := by
  have one (n : Nat) : ∀ b ∈ [UInt8.ofNat (n % 0x40 + 0x80)], ¬StartsCharacter b :=
    List.forall_mem_singleton.mpr (not_startsCharacter_later n)
  have more (n : Nat) {others : List UInt8} (later : ∀ b ∈ others, ¬StartsCharacter b) :
      ∀ b ∈ UInt8.ofNat (n % 0x40 + 0x80) :: others, ¬StartsCharacter b :=
    List.forall_mem_cons.mpr ⟨not_startsCharacter_later n, later⟩
  unfold String.utf8EncodeChar
  dsimp only
  -- As many cases as a character can have bytes.
  split
  · exact ⟨_, _, rfl, (startsCharacter_ofNat_iff (by omega)).mpr (by omega), List.forall_mem_nil _⟩
  · split
    · exact ⟨_, _, rfl, (startsCharacter_ofNat_iff (by omega)).mpr (by omega), one _⟩
    · split
      · exact ⟨_, _, rfl, (startsCharacter_ofNat_iff (by omega)).mpr (by omega), more _ (one _)⟩
      · exact ⟨_, _, rfl, (startsCharacter_ofNat_iff (by omega)).mpr (by omega), more _ (more _ (one _))⟩

theorem boundary_zero (l : List UInt8) : Boundary l 0 := Or.inl rfl

/-- Inside a character there is no boundary. -/
theorem not_boundary_inside {c : Char} {cs : List Char} {i : Nat} (positive : 0 < i) (inside : i < c.utf8Size) :
    ¬Boundary (encode (c :: cs)) i := by
  obtain ⟨first, others, coded, _, later⟩ := utf8EncodeChar_eq c
  have size : others.length + 1 = c.utf8Size := by
    rw [← String.length_utf8EncodeChar, coded, List.length_cons]
  obtain ⟨j, rfl⟩ := Nat.exists_eq_add_of_lt positive
  have found : (encode (c :: cs))[0 + j + 1]? = others[j]? := by
    rw [encode_cons, coded, List.cons_append, List.getElem?_cons_succ, List.getElem?_append_left (by omega),
      Nat.zero_add]
  rintro (start | stop | starts)
  · omega
  · rw [length_encode_cons] at stop
    omega
  · rw [found, List.getElem?_eq_getElem (by omega)] at starts
    exact later _ (List.getElem_mem _) (of_decide_eq_true starts)

/-- Behind a character the boundaries are those of what follows it. -/
theorem boundary_behind (c : Char) (cs : List Char) (j : Nat) :
    Boundary (encode (c :: cs)) (c.utf8Size + j) ↔ Boundary (encode cs) j := by
  have found : (encode (c :: cs))[c.utf8Size + j]? = (encode cs)[j]? := by
    rw [encode_cons, ← String.length_utf8EncodeChar, List.getElem?_append_right (Nat.le_add_right _ _),
      Nat.add_sub_cancel_left]
  rcases Nat.eq_zero_or_pos j with rfl | positive
  · refine iff_of_true ?_ (boundary_zero _)
    cases cs with
    | nil => exact Or.inr (Or.inl (length_encode_cons c []).symm)
    | cons d ds =>
      obtain ⟨first, others, coded, starts, _⟩ := utf8EncodeChar_eq d
      rw [encode_cons d, coded] at found
      exact Or.inr (Or.inr (found ▸ decide_eq_true starts))
  · have behind : c.utf8Size + j ≠ 0 := by omega
    have away : j ≠ 0 := by omega
    rw [Boundary, Boundary, found, length_encode_cons, Nat.add_left_cancel_iff, or_iff_right behind, or_iff_right away]

/-- The boundaries of a text lie where some of its characters in front end. -/
theorem boundary_encode_iff {cs : List Char} {i : Nat} :
    Boundary (encode cs) i ↔ ∃ front, front <+: cs ∧ (encode front).length = i := by
  induction cs generalizing i with
  | nil =>
    constructor
    · rintro (start | stop | starts)
      · exact ⟨[], List.prefix_rfl, start.symm⟩
      · exact ⟨[], List.prefix_rfl, stop.symm⟩
      · cases starts
    · rintro ⟨front, before, rfl⟩
      rw [List.prefix_nil.mp before]
      exact boundary_zero _
  | cons c cs ih =>
    constructor
    · intro boundary
      rcases Nat.eq_zero_or_pos i with start | positive
      · exact ⟨[], List.nil_prefix, start.symm⟩
      · have behind : c.utf8Size ≤ i := Nat.not_lt.mp fun inside => not_boundary_inside positive inside boundary
        obtain ⟨j, rfl⟩ := Nat.exists_eq_add_of_le behind
        obtain ⟨front, before, length⟩ := ih.mp ((boundary_behind c cs j).mp boundary)
        exact ⟨c :: front, List.cons_prefix_cons.mpr ⟨rfl, before⟩, by rw [length_encode_cons, length]⟩
    · rintro ⟨front, before, rfl⟩
      cases front with
      | nil => exact boundary_zero _
      | cons d front =>
        obtain ⟨rfl, inside⟩ := List.cons_prefix_cons.mp before
        rw [length_encode_cons, boundary_behind]
        exact ih.mpr ⟨front, inside, rfl⟩

/-- Stepping back ends at the last boundary that is not behind the place where
it began. -/
theorem boundaryFrom?_eq {l : List UInt8} {i stop : Nat} (boundary : Boundary l stop) (within : stop ≤ i)
    (last : ∀ j ≤ i, Boundary l j → j ≤ stop) : boundaryFrom? l i = some stop := by
  induction i with
  | zero =>
    rw [boundaryFrom?, if_pos (boundary_zero l)]
    exact congrArg some (Nat.le_zero.mp within).symm
  | succ i ih =>
    rw [boundaryFrom?]
    by_cases here : Boundary l (i + 1)
    · rw [if_pos here, Nat.le_antisymm within (last (i + 1) (Nat.le_refl _) here)]
    · rw [if_neg here]
      have before : stop ≠ i + 1 := fun same => here (same ▸ boundary)
      exact ih (by omega) fun j less => last j (Nat.le_succ_of_le less)

theorem clipChars_isPrefix (room : Nat) (cs : List Char) : clipChars room cs <+: cs := by
  induction cs generalizing room with
  | nil => exact List.prefix_rfl
  | cons c cs ih =>
    rw [clipChars]
    split
    · exact List.cons_prefix_cons.mpr ⟨rfl, ih _⟩
    · exact List.nil_prefix

theorem length_encode_clipChars_le (room : Nat) (cs : List Char) : (encode (clipChars room cs)).length ≤ room := by
  induction cs generalizing room with
  | nil => exact Nat.zero_le _
  | cons c cs ih =>
    rw [clipChars]
    split
    · have less := ih (room - c.utf8Size)
      rw [length_encode_cons]
      omega
    · exact Nat.zero_le _

/-- No characters in front that fit are missing. -/
theorem prefix_clipChars {room : Nat} {front cs : List Char} (before : front <+: cs)
    (fits : (encode front).length ≤ room) : front <+: clipChars room cs := by
  induction cs generalizing room front with
  | nil => exact before
  | cons c cs ih =>
    cases front with
    | nil => exact List.nil_prefix
    | cons d front =>
      obtain ⟨rfl, inside⟩ := List.cons_prefix_cons.mp before
      rw [length_encode_cons] at fits
      rw [clipChars, if_pos (by omega)]
      exact List.cons_prefix_cons.mpr ⟨rfl, ih inside (by omega)⟩

theorem clipChars_of_fits {room : Nat} {cs : List Char} (fits : (encode cs).length ≤ room) : clipChars room cs = cs :=
  (clipChars_isPrefix room cs).eq_of_length_le (prefix_clipChars List.prefix_rfl fits).length_le

theorem toList_clip (room : Nat) (s : String) : (clip room s).toList = clipChars room s.toList := by
  unfold clip
  split
  · rename_i fits
    rw [clipChars_of_fits]
    rwa [length_encode_toList]
  · exact String.toList_ofList

/-- What does not fit stops fitting at some character, of four bytes at most. -/
theorem length_encode_clipChars_ge {room : Nat} {cs : List Char} (long : room < (encode cs).length) :
    room ≤ (encode (clipChars room cs)).length + 3 := by
  obtain ⟨behind, split⟩ := clipChars_isPrefix room cs
  have short := length_encode_clipChars_le room cs
  cases behind with
  | nil =>
    rw [List.append_nil] at split
    rw [split] at short
    omega
  | cons c rest =>
    have small := c.utf8Size_le_four
    have size : (encode (clipChars room cs ++ [c])).length = (encode (clipChars room cs)).length + c.utf8Size := by
      rw [encode_append, List.length_append, length_encode_cons]
      rfl
    have next : clipChars room cs ++ [c] <+: cs := ⟨rest, by rw [List.append_assoc]; exact split⟩
    refine Nat.not_lt.mp fun fits => ?_
    have longer := (prefix_clipChars next (by omega : _ ≤ room)).length_le
    rw [List.length_append] at longer
    exact Nat.not_succ_le_self _ longer

theorem clipBytes?_encode (room : Nat) (cs : List Char) :
    clipBytes? room (encode cs) = some (encode (clipChars room cs)) := by
  have before := clipChars_isPrefix room cs
  unfold clipBytes?
  split
  · rename_i fits
    rw [clipChars_of_fits fits]
  · have stop : boundaryFrom? (encode cs) room = some (encode (clipChars room cs)).length := by
      refine boundaryFrom?_eq (boundary_encode_iff.mpr ⟨_, before, rfl⟩) (length_encode_clipChars_le room cs) ?_
      intro j within boundary
      obtain ⟨front, first, rfl⟩ := boundary_encode_iff.mp boundary
      exact (encode_isPrefix (prefix_clipChars first within)).length_le
    rw [stop, Option.map_some, ← List.prefix_iff_eq_take.mp (encode_isPrefix before)]

/-- A clipped text begins the text, fits, and begins with all whole characters
in front that fit; a text that fits stays whole, and of another one no more
than three bytes of room are left. Clipping it again to the same room changes
nothing. Stepping back from where the room ends to the first place that is not
inside a character cuts the bytes of the text at the same place. -/
theorem clip_keeps_longest (room : Nat) (s : String) :
    clipBytes? room (bytes s) = some (bytes (clip room s)) ∧
      (clip room s).toList <+: s.toList ∧ (clip room s).utf8ByteSize ≤ room ∧
      (∀ t : String, t.toList <+: s.toList → t.utf8ByteSize ≤ room → t.toList <+: (clip room s).toList) ∧
      (s.utf8ByteSize ≤ room → clip room s = s) ∧
      (room < s.utf8ByteSize → room ≤ (clip room s).utf8ByteSize + 3) ∧
      clip room (clip room s) = clip room s := by
  have size := length_encode_toList (clip room s)
  rw [toList_clip] at size
  have fits : (clip room s).utf8ByteSize ≤ room := size ▸ length_encode_clipChars_le room s.toList
  refine ⟨?_, ?_, fits, fun t before short => ?_, clip_of_fits, fun long => ?_, clip_of_fits fits⟩
  · rw [bytes_eq, bytes_eq, toList_clip]
    exact clipBytes?_encode room s.toList
  · rw [toList_clip]
    exact clipChars_isPrefix room s.toList
  · rw [toList_clip]
    exact prefix_clipChars before ((length_encode_toList t).symm ▸ short)
  · rw [← size]
    exact length_encode_clipChars_ge ((length_encode_toList s).symm ▸ long)

/-- The fourth byte is in the middle of the second character. -/
example : clip 4 "€äb" = "€" ∧ clipBytes? 4 (encode ['€', 'ä', 'b']) = some (encode ['€']) := by decide

end Rollup.Text
