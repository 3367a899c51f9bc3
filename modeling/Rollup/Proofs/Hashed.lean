import Mathlib.Data.List.Induction
import Rollup.Proofs.Lookup
import Rollup.Proofs.Numbering

namespace Rollup

namespace Vocabulary

variable {v w : Vocabulary} {word : String} {id : Nat}

/-- The vocabulary once the number of a word was asked for, which takes the word
in if it is new and there is room. -/
def offer (v : Vocabulary) (word : String) : Vocabulary :=
  match v.learn word with
  | .ok (w, _) => w
  | .error _ => v

def offerAll (v : Vocabulary) (words : List String) : Vocabulary := words.foldl offer v

theorem learn_of_mem (known : word ∈ v.words) : ∃ id, v.find? word = some id ∧ v.learn word = .ok (v, id) := by
  obtain ⟨id, found⟩ := exists_find?_iff.mpr known
  exact ⟨id, found, by rw [learn, found]⟩

theorem learn_of_new (new : word ∉ v.words) : v.learn word =
    if v.size < v.limit then .ok ({ v with words := v.words ++ [word] }, v.size) else .error ⟨v.limit⟩ := by
  have missing : v.find? word = none := List.idxOf?_eq_none_iff.mpr new
  rw [learn, missing]
  rfl

theorem offer_of_mem (known : word ∈ v.words) : v.offer word = v := by
  obtain ⟨id, _, learnt⟩ := learn_of_mem known
  rw [offer, learnt]

theorem offer_of_room (new : word ∉ v.words) (room : v.size < v.limit) :
    v.offer word = { v with words := v.words ++ [word] } := by
  rw [offer, learn_of_new new, if_pos room]

theorem offer_of_full (new : word ∉ v.words) (full : ¬v.size < v.limit) : v.offer word = v := by
  rw [offer, learn_of_new new, if_neg full]

theorem offer_extends (v : Vocabulary) (word : String) : v.Extends (v.offer word) := by
  unfold offer
  split
  · exact (learn_extends ‹_›).1
  · exact .refl v

theorem offerAll_extends (v : Vocabulary) (words : List String) : v.Extends (v.offerAll words) := by
  induction words generalizing v with
  | nil => exact .refl v
  | cons word rest ih => exact (v.offer_extends word).trans (ih (v.offer word))

theorem offerAll_concat (v : Vocabulary) (words : List String) (word : String) :
    v.offerAll (words ++ [word]) = (v.offerAll words).offer word := by
  rw [offerAll, List.foldl_append]
  rfl

/-- What is taken in are the first different words that were asked for, as many
as there is room for. -/
theorem offerAll_words (limit : Nat) (words : List String) :
    ((empty limit).offerAll words).words = words.eraseDups.take limit := by
  induction words using List.reverseRecOn with
  | nil => exact List.take_nil.symm
  | append_singleton words word ih =>
    have limited := ((empty limit).offerAll_extends words).limit
    rw [offerAll_concat, List.eraseDups_append]
    generalize (empty limit).offerAll words = v at ih limited ⊢
    have room : v.size < v.limit ↔ words.eraseDups.length < limit := by
      have size : v.size = min limit words.eraseDups.length := by rw [size, ih, List.length_take]
      have limit : v.limit = limit := limited
      omega
    by_cases again : word ∈ words
    · have nothing : [word].removeAll words = [] := by simp [List.removeAll, again]
      rw [nothing, List.eraseDups_nil, List.append_nil, ← ih]
      by_cases known : word ∈ v.words
      · rw [offer_of_mem known]
      · -- It was refused before, so there was no room then.
        have full : ¬v.size < v.limit := by
          intro free
          rw [ih, List.take_of_length_le (Nat.le_of_lt (room.mp free))] at known
          exact known (List.mem_eraseDups.mpr again)
        rw [offer_of_full known full]
    · have one : [word].removeAll words = [word] := by simp [List.removeAll, again]
      have new : word ∉ v.words := by
        rw [ih]
        exact fun member => again (List.mem_eraseDups.mp (List.mem_of_mem_take member))
      rw [one, List.eraseDups_cons, List.filter_nil, List.eraseDups_nil]
      by_cases free : v.size < v.limit
      · have short := room.mp free
        rw [offer_of_room new free, ih, List.take_of_length_le (Nat.le_of_lt short), List.take_of_length_le]
        rw [List.length_append]
        exact short
      · have long := Nat.le_of_not_lt (mt room.mpr free)
        rw [offer_of_full new free, ih, List.take_append_of_le_length long]

theorem offerAll_distinct (limit : Nat) (words : List String) : ((empty limit).offerAll words).Distinct := by
  induction words using List.reverseRecOn with
  | nil => exact List.nodup_nil
  | append_singleton words word ih =>
    rw [offerAll_concat]
    unfold offer
    split
    · exact ih.learn ‹_›
    · exact ih

/-- The words are listed in their order, numbered from zero. -/
theorem entries_eq_zip (v : Vocabulary) : v.entries = (List.range v.size).zip v.words := by
  refine List.ext_getElem (by simp [entries, size]) fun id _ _ => ?_
  simp [entries, size]

/-- Of distinct words each is found under the one number that it has. -/
theorem Distinct.word?_eq_some_iff (distinct : v.Distinct) : v.word? id = some word ↔ v.find? word = some id := by
  rw [word?, find?, List.getElem?_eq_some_iff, List.idxOf?_eq_some_iff]
  refine exists_congr fun within => (and_iff_left_of_imp fun same j before again => ?_).symm
  have equal := distinct.getElem_inj_iff.mp (again.trans same.symm)
  exact absurd equal (Nat.ne_of_lt before)

end Vocabulary

/-- What a hash table of numbers can do, in a type of tables. -/
structure HashTable (T : Type) where
  empty : T
  /-- A number that was put in under a hash and passes the test. -/
  find? : T → UInt64 → (UInt32 → Bool) → Option UInt32
  /-- Puts a number in under a hash. A table that has to grow asks for the hash
  of each number again. -/
  insert : T → UInt64 → UInt32 → (UInt32 → UInt64) → T

/-- A hash table keeps what was put in, while every number has the same hash when
the table asks again, and finds it. Nothing is said of what hashes collide. -/
structure HashTable.Lawful {T : Type} (table : HashTable T) (Holds : T → UInt64 → UInt32 → Prop) : Prop where
  holds_empty : ∀ hash slot, ¬Holds table.empty hash slot
  holds_insert : ∀ t hash slot rehash, rehash slot = hash → (∀ h s, Holds t h s → rehash s = h) →
    ∀ h s, Holds (table.insert t hash slot rehash) h s ↔ (h = hash ∧ s = slot) ∨ Holds t h s
  found : ∀ t hash test slot, table.find? t hash test = some slot → (∃ h, Holds t h slot) ∧ test slot
  missing : ∀ t hash test, table.find? t hash test = none → ∀ slot, Holds t hash slot → ¬test slot

/-- A vocabulary that keeps the numbers of its words in a hash table. -/
structure Hashed (T : Type) where
  limit : UInt32
  words : List String
  table : T

namespace Hashed

section Operations

variable {T : Type} (table : HashTable T) (hash : String → UInt64)

def empty (limit : UInt32) : Hashed T := ⟨limit, [], table.empty⟩

def find? (v : Hashed T) (word : String) : Option UInt32 :=
  table.find? v.table (hash word) fun slot => v.words[slot.toNat]? = some word

/-- The number of a word, which is taken in first if it is new. -/
def learn (v : Hashed T) (word : String) : Hashed T × Except Vocabulary.Full UInt32 :=
  match v.find? table hash word with
  | some slot => (v, .ok slot)
  | none =>
    if v.limit.toNat ≤ v.words.length then (v, .error ⟨v.limit.toNat⟩)
    else
      let slot := UInt32.ofNat v.words.length
      let words := v.words ++ [word]
      let rehash (slot : UInt32) := hash (words[slot.toNat]?.getD "")
      ({ v with words, table := table.insert v.table (hash word) slot rehash }, .ok slot)

def learnAll (v : Hashed T) (words : List String) : Hashed T := words.foldl (fun v word => (v.learn table hash word).1) v

end Operations

/-- The words alone, without the table. -/
def plain {T : Type} (v : Hashed T) : Vocabulary := ⟨v.limit.toNat, v.words⟩

variable {T : Type} {table : HashTable T} {hash : String → UInt64} {Holds : T → UInt64 → UInt32 → Prop}

/-- The table holds the number of each word under the hash of that word, and
nothing else; no number is cut off. -/
structure InStep (hash : String → UInt64) (Holds : T → UInt64 → UInt32 → Prop) (v : Hashed T) : Prop where
  held : ∀ h slot, Holds v.table h slot ↔ ∃ word, v.words[slot.toNat]? = some word ∧ hash word = h
  within : v.words.length ≤ v.limit.toNat

theorem empty_inStep (lawful : table.Lawful Holds) (limit : UInt32) : (empty table limit).InStep hash Holds where
  held h slot := by
    have nothing := lawful.holds_empty h slot
    simpa [empty] using nothing
  within := Nat.zero_le _

section InStep

variable {v : Hashed T}

theorem toNat_ofNat_of_le {n : Nat} {limit : UInt32} (within : n ≤ limit.toNat) : (UInt32.ofNat n).toNat = n :=
  UInt32.toNat_ofNat_of_lt' (Nat.lt_of_le_of_lt within limit.toNat_lt)

theorem InStep.slot_lt (inStep : v.InStep hash Holds) {h : UInt64} {slot : UInt32} (held : Holds v.table h slot) :
    slot.toNat < v.words.length := by
  obtain ⟨word, known, _⟩ := (inStep.held h slot).mp held
  exact (List.getElem?_eq_some_iff.mp known).1

/-- What is found in the table is the number of the word, whatever other words
have the same hash. -/
theorem InStep.find?_eq (inStep : v.InStep hash Holds) (lawful : table.Lawful Holds) (distinct : v.plain.Distinct)
    (word : String) : (v.find? table hash word).map UInt32.toNat = v.plain.find? word := by
  cases found : v.find? table hash word with
  | some slot =>
    have known : v.plain.word? slot.toNat = some word := of_decide_eq_true (lawful.found _ _ _ _ found).2
    exact (distinct.word?_eq_some_iff.mp known).symm
  | none =>
    refine (List.idxOf?_eq_none_iff.mpr fun member => ?_).symm
    obtain ⟨id, inside, same⟩ := List.mem_iff_getElem.mp member
    have short : id ≤ v.limit.toNat := Nat.le_of_lt (Nat.lt_of_lt_of_le inside inStep.within)
    have number : (UInt32.ofNat id).toNat = id := toNat_ofNat_of_le short
    have known : v.words[(UInt32.ofNat id).toNat]? = some word := by
      rw [number]
      exact List.getElem?_eq_some_iff.mpr ⟨inside, same⟩
    have held := (inStep.held (hash word) (UInt32.ofNat id)).mpr ⟨word, known, rfl⟩
    exact lawful.missing _ _ _ found _ held (decide_eq_true known)

/-- A new word goes into both the list and the table. -/
theorem InStep.append (inStep : v.InStep hash Holds) (lawful : table.Lawful Holds) (word : String)
    (room : v.words.length < v.limit.toNat) :
    let rehash (slot : UInt32) := hash ((v.words ++ [word])[slot.toNat]?.getD "")
    let t := table.insert v.table (hash word) (UInt32.ofNat v.words.length) rehash
    InStep hash Holds { v with words := v.words ++ [word], table := t } := by
  intro rehash t
  have number : (UInt32.ofNat v.words.length).toNat = v.words.length := toNat_ofNat_of_le (Nat.le_of_lt room)
  have last : (v.words ++ [word])[(UInt32.ofNat v.words.length).toNat]? = some word := by
    rw [number]
    exact List.getElem?_concat_length
  have old {slot : UInt32} (inside : slot.toNat < v.words.length) :
      (v.words ++ [word])[slot.toNat]? = v.words[slot.toNat]? := List.getElem?_append_left inside
  -- The table may ask for the hash of every number that it holds. It is that of
  -- the word, which is where it was.
  have asked : ∀ h s, Holds v.table h s → rehash s = h := by
    intro h s held
    obtain ⟨other, known, same⟩ := (inStep.held h s).mp held
    show hash ((v.words ++ [word])[s.toNat]?.getD "") = h
    rw [old (inStep.slot_lt held), known]
    exact same
  have askedLast : rehash (UInt32.ofNat v.words.length) = hash word := by
    show hash ((v.words ++ [word])[(UInt32.ofNat v.words.length).toNat]?.getD "") = hash word
    rw [last]
    rfl
  refine ⟨fun h s => ?_, ?_⟩
  · show Holds t h s ↔ _
    rw [lawful.holds_insert _ _ _ _ askedLast asked, inStep.held]
    constructor
    · rintro (⟨rfl, rfl⟩ | ⟨other, known, same⟩)
      · exact ⟨word, last, rfl⟩
      · exact ⟨other, (old (List.getElem?_eq_some_iff.mp known).1).trans known, same⟩
    · rintro ⟨other, known, same⟩
      by_cases inside : s.toNat < v.words.length
      · exact Or.inr ⟨other, (old inside).symm.trans known, same⟩
      · have within : s.toNat < (v.words ++ [word]).length := (List.getElem?_eq_some_iff.mp known).1
        have length : (v.words ++ [word]).length = v.words.length + 1 := List.length_append
        have slot : s = UInt32.ofNat v.words.length := UInt32.toNat_inj.mp (by omega)
        rw [slot, last] at known
        cases known
        exact Or.inl ⟨same.symm, slot⟩
  · show (v.words ++ [word]).length ≤ v.limit.toNat
    rw [List.length_append]
    exact room

/-- The table makes no difference to what a word comes to, and a word that is
refused leaves the table as it is. -/
theorem InStep.learn_eq (inStep : v.InStep hash Holds) (lawful : table.Lawful Holds) (distinct : v.plain.Distinct)
    (word : String) : (v.learn table hash word).1.plain = v.plain.offer word ∧
      (v.learn table hash word).2.map UInt32.toNat = (v.plain.learn word).map Prod.snd ∧
      ((v.learn table hash word).2.toBool = false → (v.learn table hash word).1 = v) ∧
      (v.learn table hash word).1.InStep hash Holds := by
  have same := inStep.find?_eq lawful distinct word
  unfold learn
  cases found : v.find? table hash word with
  | some slot =>
    rw [found] at same
    have known : v.plain.learn word = .ok (v.plain, slot.toNat) := by
      rw [Vocabulary.learn, ← same]
      rfl
    dsimp only
    rw [Vocabulary.offer, known]
    exact ⟨rfl, rfl, fun _ => rfl, inStep⟩
  | none =>
    rw [found] at same
    have new : word ∉ v.plain.words := List.idxOf?_eq_none_iff.mp same.symm
    have size : v.plain.size = v.words.length := rfl
    have limit : v.plain.limit = v.limit.toNat := rfl
    dsimp only
    split
    · rename_i full
      have noRoom : ¬v.plain.size < v.plain.limit := by omega
      rw [Vocabulary.offer_of_full new noRoom, Vocabulary.learn_of_new new, if_neg noRoom]
      exact ⟨rfl, rfl, fun _ => rfl, inStep⟩
    · rename_i free
      have room : v.plain.size < v.plain.limit := by omega
      rw [Vocabulary.offer_of_room new room, Vocabulary.learn_of_new new, if_pos room]
      refine ⟨rfl, ?_, fun refused => (by cases refused), inStep.append lawful word (by omega)⟩
      show Except.ok (UInt32.ofNat v.words.length).toNat = Except.ok v.words.length
      have short : v.words.length ≤ v.limit.toNat := by omega
      rw [toNat_ofNat_of_le short]

/-- While words are learnt, the table stays in step with the list, and the list
is that of the vocabulary without a table. -/
theorem learnAll_inStep (lawful : table.Lawful Holds) (hash : String → UInt64) (limit : UInt32) (words : List String) :
    ((empty table limit).learnAll table hash words).InStep hash Holds ∧
      ((empty table limit).learnAll table hash words).plain = (Vocabulary.empty limit.toNat).offerAll words := by
  induction words using List.reverseRecOn with
  | nil => exact ⟨empty_inStep lawful limit, rfl⟩
  | append_singleton words word ih =>
    obtain ⟨inStep, same⟩ := ih
    have distinct := Vocabulary.offerAll_distinct limit.toNat words
    rw [← same] at distinct
    obtain ⟨plain, _, _, stays⟩ := inStep.learn_eq lawful distinct word
    rw [Vocabulary.offerAll_concat, learnAll, List.foldl_append, ← same]
    exact ⟨stays, plain⟩

end InStep

/-- A vocabulary with a hash table does what the one without it does. It looks
at no position behind the last word, and what it refuses leaves it as it is. -/
structure Serves (table : HashTable T) (hash : String → UInt64) (Holds : T → UInt64 → UInt32 → Prop) (h : Hashed T)
    (v : Vocabulary) : Prop where
  words : h.plain = v
  inside : ∀ under slot, Holds h.table under slot → slot.toNat < h.words.length
  finds : ∀ word, (h.find? table hash word).map UInt32.toNat = v.find? word
  learns : ∀ word, (h.learn table hash word).1.plain = v.offer word ∧
    (h.learn table hash word).2.map UInt32.toNat = (v.learn word).map Prod.snd
  refuses : ∀ word, (h.learn table hash word).2.toBool = false → (h.learn table hash word).1 = h

theorem learnAll_serves (lawful : table.Lawful Holds) (hash : String → UInt64) (limit : UInt32) (words : List String) :
    Serves table hash Holds ((empty table limit).learnAll table hash words)
      ((Vocabulary.empty limit.toNat).offerAll words) := by
  obtain ⟨inStep, same⟩ := learnAll_inStep lawful hash limit words
  have distinct := Vocabulary.offerAll_distinct limit.toNat words
  rw [← same] at distinct ⊢
  refine ⟨rfl, fun _ _ held => inStep.slot_lt held, inStep.find?_eq lawful distinct, fun word => ?_, fun word => ?_⟩
  · obtain ⟨plain, told, _, _⟩ := inStep.learn_eq lawful distinct word
    exact ⟨plain, told⟩
  · exact (inStep.learn_eq lawful distinct word).2.2.1

/-- However words are asked for, with any hashes: the words taken in are the
first different ones, as many as there is room for, numbered from zero in that
order. Words and numbers belong to each other one to one. A known word always
has its number, a new one is refused just when there is no room, and what a
number stands for never changes. A hash table makes no difference to any of
that. -/
theorem words_keep_their_numbers (lawful : table.Lawful Holds) (hash : String → UInt64) (limit : UInt32)
    (words : List String) :
    let v := (Vocabulary.empty limit.toNat).offerAll words
    Serves table hash Holds ((empty table limit).learnAll table hash words) v ∧
      v.words = words.eraseDups.take limit.toNat ∧ v.words.Nodup ∧
      v.entries = (List.range v.size).zip v.words ∧
      (∀ id word, v.word? id = some word ↔ v.find? word = some id) ∧
      (∀ word ∈ v.words, ∃ id, v.word? id = some word ∧ v.learn word = .ok (v, id)) ∧
      (∀ word, word ∉ v.words → (v.learn word = .error ⟨limit.toNat⟩ ↔ v.size = limit.toNat) ∧
        (v.size ≠ limit.toNat → v.learn word = .ok ({ v with words := v.words ++ [word] }, v.size))) ∧
      ∀ later id word, v.word? id = some word → (v.offerAll later).word? id = some word := by
  intro v
  have serves := learnAll_serves lawful hash limit words
  have listed := Vocabulary.offerAll_words limit.toNat words
  have distinct := Vocabulary.offerAll_distinct limit.toNat words
  have limited : v.limit = limit.toNat := ((Vocabulary.empty limit.toNat).offerAll_extends words).limit
  have most : v.size ≤ limit.toNat := by
    rw [Vocabulary.size, listed]
    exact List.length_take_le _ _
  refine ⟨serves, listed, distinct, v.entries_eq_zip, fun id word => distinct.word?_eq_some_iff, fun word known => ?_,
    fun word new => ?_, fun later id word there => ?_⟩
  · obtain ⟨id, found, learnt⟩ := Vocabulary.learn_of_mem known
    exact ⟨id, distinct.word?_eq_some_iff.mpr found, learnt⟩
  · rw [Vocabulary.learn_of_new new, limited]
    split
    · rename_i room
      exact ⟨⟨fun refused => (by cases refused), fun full => (by omega)⟩, fun _ => rfl⟩
    · rename_i full
      have all : v.size = limit.toNat := by omega
      exact ⟨⟨fun _ => all, fun _ => rfl⟩, fun short => absurd all short⟩
  · obtain ⟨within, same⟩ := List.getElem?_eq_some_iff.mp there
    rw [Vocabulary.word?, List.prefix_iff_getElem?.mp (v.offerAll_extends later).grows id within, same]

end Hashed

namespace HashTable

/-- A table that looks through all that it holds, and puts everything under the
hash it has now whenever a number comes in. -/
def scanned : HashTable (List (UInt64 × UInt32)) where
  empty := []
  find? t hash test := (t.find? fun held => held.1 == hash && test held.2).map Prod.snd
  insert t hash slot rehash := (hash, slot) :: t.map fun held => (rehash held.2, held.2)

theorem scanned_lawful : scanned.Lawful fun t hash slot => (hash, slot) ∈ t where
  holds_empty _ _ := List.not_mem_nil
  holds_insert t hash slot rehash _ asked h s := by
    have stays : t.map (fun held => (rehash held.2, held.2)) = t := by
      refine (List.map_congr_left fun held member => ?_).trans t.map_id
      rw [asked held.1 held.2 member]
      rfl
    show (h, s) ∈ (hash, slot) :: t.map (fun held => (rehash held.2, held.2)) ↔ _
    rw [stays, List.mem_cons, Prod.mk.injEq]
  found t hash test slot found := by
    obtain ⟨held, first, rfl⟩ := Option.map_eq_some_iff.mp found
    have fits := List.find?_some first
    exact ⟨⟨held.1, List.mem_of_find?_eq_some first⟩, (Bool.and_eq_true_iff.mp fits).2⟩
  missing t hash test none slot held fits := by
    have unfit := List.find?_eq_none.mp (Option.map_eq_none_iff.mp none) (hash, slot) held
    simp [fits] at unfit

end HashTable

/-- Words of one length, which all have the same hash, and room for two. -/
theorem Hashed.colliding_words_keep_their_numbers :
    let hash (word : String) := UInt64.ofNat word.length
    let words := ["tea", "rum", "tea", "gin", "rum"]
    let v := (Vocabulary.empty 2).offerAll words
    HashTable.scanned.Lawful (fun t hash slot => (hash, slot) ∈ t) ∧
      Serves .scanned hash (fun t hash slot => (hash, slot) ∈ t) ((empty .scanned 2).learnAll .scanned hash words) v ∧
      v.words = ["tea", "rum"] ∧ v.find? "rum" = some 1 ∧ v.learn "gin" = .error ⟨2⟩ := by
  intro hash words v
  obtain ⟨serves, listed, _, _, numbered, _, refused, _⟩ :=
    words_keep_their_numbers HashTable.scanned_lawful hash 2 words
  have all : v.words = ["tea", "rum"] := listed.trans (by decide)
  have new : "gin" ∉ v.words := by
    rw [all]
    decide
  have full : v.size = 2 := congrArg List.length all
  have second : v.word? 1 = some "rum" := congrArg (·[1]?) all
  exact ⟨HashTable.scanned_lawful, serves, all, (numbered 1 "rum").mp second, (refused "gin" new).1.mpr full⟩

end Rollup
