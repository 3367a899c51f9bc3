import Mathlib.Data.List.Basic
import Mathlib.Data.List.Induction
import Rollup.Proofs.Key

namespace Rollup.Key

/-- Texts are read in steps of one character, or of an escape mark together with
the character that it makes an ordinary one. -/
@[elab_as_elim]
theorem reading_induction {motive : List Char → Prop} (nil : motive []) (lone : motive [escapeMark])
    (single : ∀ c rest, c ≠ escapeMark → motive rest → motive (c :: rest))
    (pair : ∀ c rest, motive rest → motive (escapeMark :: c :: rest)) : ∀ text, motive text
  | [] => nil
  | [c] => by
    by_cases mark : c = escapeMark
    · exact mark ▸ lone
    · exact single c [] mark nil
  | c :: d :: rest => by
    by_cases mark : c = escapeMark
    · exact mark ▸ pair d rest (reading_induction nil lone single pair rest)
    · exact single c (d :: rest) mark (reading_induction nil lone single pair (d :: rest))

/-- How many escape marks stand right before a position. -/
def marksBefore (text : List Char) (i : Nat) : Nat := ((text.take i).reverse.takeWhile (· = escapeMark)).length

/-- An odd number of escape marks stands right before a position. Of an even
number each second one makes the one after it ordinary. -/
def Escaped (text : List Char) (i : Nat) : Prop := marksBefore text i % 2 = 1

instance (text : List Char) (i : Nat) : Decidable (Escaped text i) :=
  inferInstanceAs (Decidable (marksBefore text i % 2 = 1))

/-- How many separators there are that no escape mark makes ordinary. -/
def separators (text : List Char) : Nat :=
  (List.range text.length).countP fun i => text[i]? = some separator ∧ ¬Escaped text i

/-- Every escape mark that is not ordinary itself stands before a separator or
another escape mark. -/
def Canonical (text : List Char) : Prop :=
  ∀ i, text[i]? = some escapeMark → ¬Escaped text i →
    text[i + 1]? = some separator ∨ text[i + 1]? = some escapeMark

/-- Whether the character behind a text would be an ordinary one, told by
reading the text from its start. -/
def escapes (text : List Char) : Bool := text.foldl (fun escaped c => !escaped && c = escapeMark) false

theorem escapes_concat (text : List Char) (c : Char) :
    escapes (text ++ [c]) = (!escapes text && c = escapeMark) := by
  rw [escapes, List.foldl_append]
  rfl

theorem escapes_iff (text : List Char) :
    escapes text = true ↔ (text.reverse.takeWhile (· = escapeMark)).length % 2 = 1 := by
  induction text using List.reverseRecOn with
  | nil => decide
  | append_singleton text c ih =>
    rw [escapes_concat, List.reverse_append, List.reverse_singleton, List.singleton_append, List.takeWhile_cons]
    by_cases mark : c = escapeMark
    · have before : escapes text = false ↔ (text.reverse.takeWhile (· = escapeMark)).length % 2 ≠ 1 := by
        rw [← Bool.not_eq_true, ih]
      simp only [mark, decide_true, Bool.and_true, Bool.not_eq_true', if_true, List.length_cons, before]
      omega
    · simp [mark]

theorem escaped_iff {text : List Char} {i : Nat} : Escaped text i ↔ escapes (text.take i) = true :=
  (escapes_iff _).symm

theorem not_escaped_zero (text : List Char) : ¬Escaped text 0 := by
  rw [escaped_iff]
  exact Bool.false_ne_true

theorem escaped_of_ne_mark {c : Char} (notMark : c ≠ escapeMark) (rest : List Char) (i : Nat) :
    Escaped (c :: rest) (i + 1) ↔ Escaped rest i := by
  rw [escaped_iff, escaped_iff, List.take_succ_cons, escapes, List.foldl_cons]
  simp [notMark, escapes]

theorem escaped_pair (c : Char) (rest : List Char) (i : Nat) :
    Escaped (escapeMark :: c :: rest) (i + 2) ↔ Escaped rest i := by
  rw [escaped_iff, escaped_iff, List.take_succ_cons, List.take_succ_cons, escapes, List.foldl_cons, List.foldl_cons]
  simp [escapes]

theorem escaped_one (rest : List Char) : Escaped (escapeMark :: rest) 1 := by
  rw [escaped_iff, List.take_succ_cons]
  rfl

theorem countP_range_succ (p : Nat → Bool) (n : Nat) :
    (List.range (n + 1)).countP p = (if p 0 then 1 else 0) + (List.range n).countP fun i => p (i + 1) := by
  rw [List.range_succ_eq_map, List.countP_cons, List.countP_map, Nat.add_comm]
  rfl

theorem separators_of_ne_mark {c : Char} (notMark : c ≠ escapeMark) (rest : List Char) :
    separators (c :: rest) = (if c = separator then 1 else 0) + separators rest := by
  rw [separators, List.length_cons, countP_range_succ]
  congr 1
  · simp [not_escaped_zero]
  · refine List.countP_congr fun i _ => ?_
    simp [escaped_of_ne_mark notMark]

/-- Neither an escape mark nor the character behind it is a separator that
counts. -/
theorem separators_pair (c : Char) (rest : List Char) : separators (escapeMark :: c :: rest) = separators rest := by
  have mark : escapeMark ≠ separator := by decide
  have same : ((List.range rest.length).countP fun i => (escapeMark :: c :: rest)[i + 2]? = some separator ∧
      ¬Escaped (escapeMark :: c :: rest) (i + 2)) = separators rest := by
    refine List.countP_congr fun i _ => ?_
    simp [escaped_pair]
  rw [separators, List.length_cons, List.length_cons, countP_range_succ, countP_range_succ, same]
  simp [mark, escaped_one]

theorem canonical_of_ne_mark {c : Char} (notMark : c ≠ escapeMark) (rest : List Char) :
    Canonical (c :: rest) ↔ Canonical rest := by
  constructor
  · intro canonical i mark active
    exact canonical (i + 1) mark (mt (escaped_of_ne_mark notMark rest i).mp active)
  · rintro canonical (_ | i) mark active
    · exact absurd (Option.some.inj mark) notMark
    · exact canonical i mark (mt (escaped_of_ne_mark notMark rest i).mpr active)

theorem canonical_pair (c : Char) (rest : List Char) :
    Canonical (escapeMark :: c :: rest) ↔ (c = separator ∨ c = escapeMark) ∧ Canonical rest := by
  constructor
  · refine fun canonical => ⟨?_, fun i mark active => ?_⟩
    · exact (canonical 0 rfl (not_escaped_zero _)).imp Option.some.inj Option.some.inj
    · exact canonical (i + 2) mark (mt (escaped_pair c rest i).mp active)
  · rintro ⟨special, canonical⟩ (_ | _ | i) mark active
    · exact special.imp (congrArg some) (congrArg some)
    · exact absurd (escaped_one _) active
    · exact canonical i mark (mt (escaped_pair c rest i).mpr active)

theorem not_canonical_lone : ¬Canonical [escapeMark] := by
  intro canonical
  rcases canonical 0 rfl (not_escaped_zero _) with other | other <;> cases other

/-- A character that is no escape mark ends a component or is the next one of it. -/
theorem splitChars_of_ne_mark {c : Char} (notMark : c ≠ escapeMark) (rest : List Char) :
    splitChars (c :: rest) = if c = separator then [] :: splitChars rest else consHead c (splitChars rest) := by
  split
  · rename_i same
    rw [same, splitChars_separator]
  · rename_i inside
    exact splitChars_plain (not_or.mpr ⟨inside, notMark⟩) rest

theorem exists_consHead (c : Char) (l : List (List Char)) : ∃ head tail, consHead c l = head :: tail := by
  cases l with
  | nil => exact ⟨[c], [], rfl⟩
  | cons head tail => exact ⟨c :: head, tail, rfl⟩

theorem exists_splitChars (text : List Char) : ∃ head tail, splitChars text = head :: tail := by
  induction text using reading_induction with
  | nil => exact ⟨[], [], rfl⟩
  | lone => exact ⟨[], [], rfl⟩
  | single c rest notMark _ =>
    rw [splitChars_of_ne_mark notMark]
    split
    · exact ⟨[], splitChars rest, rfl⟩
    · exact exists_consHead c _
  | pair c rest _ =>
    rw [splitChars_escaped]
    exact exists_consHead c _

/-- There is one more component than there are separators that count. -/
theorem length_splitChars (text : List Char) : (splitChars text).length = separators text + 1 := by
  induction text using reading_induction with
  | nil => rfl
  | lone => decide
  | single c rest notMark ih =>
    rw [splitChars_of_ne_mark notMark, separators_of_ne_mark notMark]
    obtain ⟨head, tail, split⟩ := exists_splitChars rest
    rw [split] at ih ⊢
    split
    · rw [List.length_cons, ih, Nat.add_comm 1]
    · rw [Nat.zero_add]
      exact ih
  | pair c rest ih =>
    rw [splitChars_escaped, separators_pair]
    obtain ⟨head, tail, split⟩ := exists_splitChars rest
    rw [split] at ih ⊢
    exact ih

/-- The key of some components, as characters. -/
def join : List (List Char) → List Char
  | [] => []
  | first :: others => escape first ++ others.flatMap fun component => separator :: escape component

theorem toList_ofComponents_map (l : List (List Char)) : (ofComponents (l.map String.ofList)).toList = join l := by
  cases l with
  | nil => rfl
  | cons first others =>
    rw [List.map_cons, toList_ofComponents, restChars, List.flatMap_map, String.toList_ofList]
    simp only [String.toList_ofList]
    rfl

theorem join_consHead (c : Char) (head : List Char) (tail : List (List Char)) :
    join (consHead c (head :: tail)) = escape [c] ++ join (head :: tail) := by
  show escape (c :: head) ++ _ = escape [c] ++ (escape head ++ _)
  rw [escape, escape]
  split <;> rfl

/-- A text once it was read and written again. -/
def respell (text : List Char) : List Char := join (splitChars text)

theorem respell_of_ne_mark {c : Char} (notMark : c ≠ escapeMark) (rest : List Char) :
    respell (c :: rest) = c :: respell rest := by
  obtain ⟨head, tail, split⟩ := exists_splitChars rest
  rw [respell, respell, splitChars_of_ne_mark notMark, split]
  split
  · rename_i same
    rw [same]
    rfl
  · rename_i inside
    rw [join_consHead, escape, if_neg (not_or.mpr ⟨inside, notMark⟩)]
    rfl

theorem respell_escaped (c : Char) (rest : List Char) :
    respell (escapeMark :: c :: rest) = escape [c] ++ respell rest := by
  obtain ⟨head, tail, split⟩ := exists_splitChars rest
  rw [respell, respell, splitChars_escaped, split, join_consHead]

/-- Only a text that escapes nothing but separators and escape marks is written
again as it was. -/
theorem respell_eq_iff (text : List Char) : respell text = text ↔ Canonical text := by
  induction text using reading_induction with
  | nil => exact ⟨fun _ i mark => (by cases mark), fun _ => rfl⟩
  | lone => exact ⟨fun same => (by cases same), fun canonical => absurd canonical not_canonical_lone⟩
  | single c rest notMark ih => rw [respell_of_ne_mark notMark, canonical_of_ne_mark notMark, ← ih, List.cons_inj_right]
  | pair c rest ih =>
    rw [respell_escaped, canonical_pair, ← ih]
    by_cases special : c = separator ∨ c = escapeMark
    · rw [escape, if_pos special, and_iff_right special]
      show escapeMark :: c :: respell rest = escapeMark :: c :: rest ↔ _
      rw [List.cons_inj_right, List.cons_inj_right]
    · rw [escape, if_neg special]
      refine ⟨fun same => ?_, fun both => absurd both.1 special⟩
      exact absurd (Or.inr (List.cons.inj same).1) special

/-- What is left of a key, split at the first separator that is not escaped, with
a note whether there is an escape mark in front. -/
structure Piece where
  raw : List Char
  marked : Bool
  next : Option (List Char)

def Piece.grow (p : Piece) (c : Char) : Piece := { p with raw := c :: p.raw }

/-- Looks for the end of the next component. Whether the character before was an
escape mark is all that is remembered. -/
def scan : Bool → List Char → Piece
  | _, [] => ⟨[], false, none⟩
  | true, c :: rest => (scan false rest).grow c
  | false, c :: rest =>
    if c = escapeMark then { (scan true rest).grow c with marked := true }
    else if c = separator then ⟨[], false, some rest⟩
    else (scan false rest).grow c

/-- Takes the escape marks out of a component. -/
def unescape : List Char → List Char
  | [] => []
  | [c] => if c = escapeMark then [] else [c]
  | c :: d :: rest => if c = escapeMark then d :: unescape rest else c :: unescape (d :: rest)

/-- The next component of what is left of a key, and what is left then. -/
def next? (left : Option (List Char)) : Option (List Char × Option (List Char)) :=
  left.map fun text =>
    let piece := scan false text
    (if piece.marked then unescape piece.raw else piece.raw, piece.next)

/-- These components come one after the other, and then none any more. -/
inductive Yields : Option (List Char) → List (List Char) → Prop
  | done {left : Option (List Char)} : next? left = none → Yields left []
  | more {left next : Option (List Char)} {component : List Char} {others : List (List Char)} :
    next? left = some (component, next) → Yields next others → Yields left (component :: others)

theorem unescape_of_ne_mark {c : Char} (notMark : c ≠ escapeMark) (rest : List Char) :
    unescape (c :: rest) = c :: unescape rest := by
  cases rest with
  | nil => simp [unescape, notMark]
  | cons d others => rw [unescape, if_neg notMark]

theorem unescape_escaped (c : Char) (rest : List Char) : unescape (escapeMark :: c :: rest) = c :: unescape rest := by
  rw [unescape, if_pos rfl]

theorem scan_separator (rest : List Char) : scan false (separator :: rest) = ⟨[], false, some rest⟩ := by
  rw [scan, if_neg (by decide), if_pos rfl]

theorem scan_plain {c : Char} (plain : ¬(c = separator ∨ c = escapeMark)) (rest : List Char) :
    scan false (c :: rest) = (scan false rest).grow c := by
  rw [scan, if_neg (plain ∘ Or.inr), if_neg (plain ∘ Or.inl)]

theorem scan_escaped (c : Char) (rest : List Char) :
    scan false (escapeMark :: c :: rest) = { ((scan false rest).grow c).grow escapeMark with marked := true } := by
  rw [scan, if_pos rfl, scan]

/-- What the scan takes for a component is one, and without an escape mark it
needs no second pass. -/
theorem scan_splits (text : List Char) :
    splitChars text = unescape (scan false text).raw :: (scan false text).next.elim [] splitChars ∧
      ((scan false text).marked = false → unescape (scan false text).raw = (scan false text).raw) := by
  induction text using reading_induction with
  | nil => exact ⟨rfl, fun _ => rfl⟩
  | lone => exact ⟨by decide, fun unmarked => absurd unmarked (by decide)⟩
  | single c rest notMark ih =>
    by_cases same : c = separator
    · rw [same, scan_separator, splitChars_separator]
      exact ⟨rfl, fun _ => rfl⟩
    · have plain : ¬(c = separator ∨ c = escapeMark) := not_or.mpr ⟨same, notMark⟩
      rw [scan_plain plain, splitChars_plain plain, ih.1, Piece.grow, unescape_of_ne_mark notMark]
      exact ⟨rfl, fun unmarked => congrArg (c :: ·) (ih.2 unmarked)⟩
  | pair c rest ih =>
    rw [scan_escaped, splitChars_escaped, ih.1]
    refine ⟨?_, fun unmarked => (by cases unmarked)⟩
    show consHead c _ = unescape (escapeMark :: c :: _) :: _
    rw [unescape_escaped]
    rfl

theorem next?_some (text : List Char) : ∃ component next,
    next? (some text) = some (component, next) ∧ splitChars text = component :: next.elim [] splitChars := by
  obtain ⟨split, unmarked⟩ := scan_splits text
  refine ⟨unescape (scan false text).raw, (scan false text).next, ?_, split⟩
  rw [next?, Option.map_some]
  dsimp only
  split
  · rfl
  · rename_i plain
    rw [unmarked (Bool.eq_false_iff.mpr plain)]

theorem Yields.eq_splitChars {left : Option (List Char)} {l : List (List Char)} (yields : Yields left l) :
    l = left.elim [] splitChars := by
  induction yields with
  | @done left ended =>
    cases left with
    | none => rfl
    | some text =>
      obtain ⟨_, _, told, _⟩ := next?_some text
      rw [told] at ended
      cases ended
  | @more left next component others told _ ih =>
    cases left with
    | none => cases told
    | some text =>
      obtain ⟨_, _, told', split⟩ := next?_some text
      rw [told'] at told
      cases told
      rw [ih]
      exact split.symm

/-- By induction on the components: with each call one of them goes. -/
theorem yields_splitChars {left : Option (List Char)} {l : List (List Char)} (same : l = left.elim [] splitChars) :
    Yields left l := by
  induction l generalizing left with
  | nil =>
    cases left with
    | none => exact .done rfl
    | some text =>
      obtain ⟨_, _, split⟩ := exists_splitChars text
      rw [Option.elim_some, split] at same
      cases same
  | cons component others ih =>
    cases left with
    | none => cases same
    | some text =>
      obtain ⟨_, _, told, split⟩ := next?_some text
      obtain ⟨rfl, rest⟩ := List.cons.inj (same.trans split)
      exact .more told (ih rest)

/-- Whatever a key is, its components come one after the other and then end;
there is one more of them than separators that are not escaped. Written again
they make the same key just when every escape mark that counts stands before a
separator or an escape mark, and in any case a key with the same components. -/
theorem components_of_any_key (key : String) :
    (∀ l, Yields (some key.toList) l ↔ l.map String.ofList = components key) ∧
      (components key).length = separators key.toList + 1 ∧
      (ofComponents (components key) = key ↔ Canonical key.toList) ∧
      components (ofComponents (components key)) = components key := by
  have apart : Function.Injective (List.map String.ofList) :=
    List.map_injective_iff.mpr (Function.LeftInverse.injective fun _ => String.toList_ofList)
  have some : components key ≠ [] := by
    obtain ⟨_, _, split⟩ := exists_splitChars key.toList
    rw [components, split]
    exact List.cons_ne_nil _ _
  refine ⟨fun l => ?_, ?_, ?_, components_ofComponents some⟩
  · rw [components, apart.eq_iff]
    exact ⟨Yields.eq_splitChars, fun same => (by exact yields_splitChars same)⟩
  · rw [components, List.length_map, length_splitChars]
  · rw [← respell_eq_iff, ← String.toList_inj, components, toList_ofComponents_map]
    rfl

/-- An escape mark that is not needed and one with nothing behind it go. -/
example : components "a\\b\\\\|c\\" = ["ab\\", "c"] ∧ ofComponents ["ab\\", "c"] = "ab\\\\|c" := by
  decide +kernel

end Rollup.Key
