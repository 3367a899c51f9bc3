import Rollup.Proofs.Parameters

namespace Rollup.Query

/-- The ids of a query: the path of its subject, and behind a question mark
any parameters that ask for its filter. -/
inductive Spells : String → Query → Prop
  | plain {path : String} {subject : Subject} : Names path subject → Spells path ⟨subject, .any⟩
  | filtered {path : String} {subject : Subject} {texts : List String} {ps : List Parameter} {f : Filter} :
      Names path subject → List.Forall₂ Parameter.Writes ps texts → Conditions ps f → f.Ordered →
      Spells (path ++ "?" ++ "&".intercalate texts) ⟨subject, f⟩

theorem written_of_forall₂ {ps : List Parameter} {texts : List String}
    (written : List.Forall₂ Parameter.Writes ps texts) :
    (∀ p ∈ ps, ∃ text, p.Writes text) ∧ ∀ text ∈ texts, ∃ p : Parameter, p.Writes text := by
  induction written with
  | nil => exact ⟨fun _ member => (nomatch member), fun _ member => (nomatch member)⟩
  | cons writes _ ih =>
    exact ⟨List.forall_mem_cons.mpr ⟨⟨_, writes⟩, ih.1⟩, List.forall_mem_cons.mpr ⟨⟨_, writes⟩, ih.2⟩⟩

theorem cut?_path {path parameters : String} (free : '?' ∉ path.toList) :
    Text.cut? '?' (path ++ "?" ++ parameters) = some (path, parameters) :=
  Text.cut?_eq_some_iff.mpr ⟨free, by simp⟩

theorem any_ordered : Filter.any.Ordered := fun _ member => (nomatch member)

/-- Without parameters the filter stays as it was; else there has to be a
filter that meets them. -/
theorem parseParameters_eq_ok_iff {id parameters : String} {q r : Query} (any : q.filter = .any) :
    parseParameters id parameters q = .ok r ↔ ∃ ps texts, parameters = "&".intercalate texts ∧
      List.Forall₂ Parameter.Writes ps texts ∧ Conditions ps r.filter ∧ r.filter.Ordered ∧ r.subject = q.subject := by
  unfold parseParameters
  constructor
  · intro done
    split at done
    · rename_i empty
      cases done
      refine ⟨[], [], String.isEmpty_iff.mp empty, .nil, ?_, ?_, rfl⟩
      · rw [any]
        exact conditions_foldl []
      · rw [any]
        exact any_ordered
    · obtain ⟨f, folded, filtered⟩ := bind_eq_ok_iff.mp done
      obtain ⟨ps, written, same⟩ := foldlM_parseParameter_eq_ok_iff.mp folded
      obtain ⟨ordered, _, _, rfl⟩ := withFilter_eq_ok_iff.mp filtered
      have conditions : Conditions ps f := conditions_iff.mpr same
      have carried := conditions.carried (written_of_forall₂ written).1
      refine ⟨ps, Text.fields '&' parameters, (Text.fields_eq_iff.mp rfl).2.2, written, ?_, ?_, rfl⟩
      · rwa [carried.normalized]
      · rwa [carried.normalized]
  · rintro ⟨ps, texts, rfl, written, conditions, ordered, sameSubject⟩
    obtain ⟨subject, f⟩ := r
    cases sameSubject
    have carried := conditions.carried (written_of_forall₂ written).1
    have readable := (written_of_forall₂ written).2
    cases written with
    | nil =>
      have same : f = .any := conditions_iff.mp conditions
      rw [same, ← any]
      rfl
    | @cons p text ps texts writes written =>
      have some : text :: texts ≠ [] := List.cons_ne_nil text texts
      have free (field : String) (member : field ∈ text :: texts) : '&' ∉ field.toList :=
        (readable field member).elim fun _ writes => writes.free
      have filled (field : String) (member : field ∈ text :: texts) : field ≠ "" :=
        (readable field member).elim fun _ writes => writes.ne_empty
      have joined : ¬ ("&".intercalate (text :: texts)).isEmpty :=
        fun empty => Text.intercalate_ne_empty some filled free (String.isEmpty_iff.mp empty)
      have split : Text.fields '&' ("&".intercalate (text :: texts)) = text :: texts :=
        Text.fields_eq_iff.mpr ⟨some, free, rfl⟩
      rw [if_neg joined, split,
        foldlM_parseParameter_eq_ok_iff.mpr ⟨p :: ps, .cons writes written, conditions_iff.mp conditions⟩]
      refine withFilter_eq_ok_iff.mpr ⟨ordered, carried.tags, ?_, ?_⟩
      · rwa [carried.normalized]
      · rw [carried.normalized]

theorem parse_eq_ok_iff {id : String} {q : Query} : parse id = .ok q ↔ Spells id q := by
  unfold parse
  constructor
  · intro done
    split at done
    · obtain ⟨names, any⟩ := parsePath_eq_ok_iff.mp done
      obtain ⟨subject, f⟩ := q
      cases any
      exact .plain names
    · rename_i path parameters cut
      obtain ⟨_, split⟩ := Text.cut?_eq_some_iff.mp cut
      have whole : id = path ++ "?" ++ parameters := by
        rw [← String.toList_inj, split]
        simp
      split at done
      · cases done
      · rename_i bare named
        obtain ⟨names, any⟩ := parsePath_eq_ok_iff.mp named
        obtain ⟨ps, texts, rfl, written, conditions, ordered, sameSubject⟩ := (parseParameters_eq_ok_iff any).mp done
        obtain ⟨subject, f⟩ := q
        cases sameSubject
        rw [whole]
        exact .filtered names written conditions ordered
  · intro spells
    cases spells with
    | plain names =>
      rw [Text.cut?_eq_none_iff.mpr names.free]
      exact parsePath_eq_ok_iff.mpr ⟨names, rfl⟩
    | @filtered path subject texts ps f names written conditions ordered =>
      have named (id : String) : parsePath id path = .ok ⟨subject, .any⟩ := parsePath_eq_ok_iff.mpr ⟨names, rfl⟩
      rw [cut?_path names.free]
      dsimp only
      rw [named]
      exact (parseParameters_eq_ok_iff rfl).mpr ⟨ps, texts, rfl, written, conditions, ordered, rfl⟩

def keyOf (parameter : String) : Option String := (Text.cut? '=' parameter).map (·.1)

/-- The same parameters in an order in which those of one key still come as
they came before. -/
inductive Reordered : List String → List String → Prop
  | nil : Reordered [] []
  | cons (parameter : String) {l l' : List String} : Reordered l l' → Reordered (parameter :: l) (parameter :: l')
  | swap {a b : String} {l : List String} : keyOf a ≠ keyOf b → Reordered (a :: b :: l) (b :: a :: l)
  | trans {l l' l'' : List String} : Reordered l l' → Reordered l' l'' → Reordered l l''

namespace Reordered

theorem perm {l l' : List String} (reordered : Reordered l l') : l.Perm l' := by
  induction reordered with
  | nil => exact .nil
  | cons parameter _ ih => exact ih.cons parameter
  | swap _ => exact .swap _ _ _
  | trans _ _ first second => exact first.trans second

theorem symm {l l' : List String} (reordered : Reordered l l') : Reordered l' l := by
  induction reordered with
  | nil => exact .nil
  | cons parameter _ ih => exact ih.cons parameter
  | swap apart => exact .swap apart.symm
  | trans _ _ first second => exact second.trans first

/-- Parameters with one key each may come in any order. -/
theorem of_perm {l l' : List String} (perm : l.Perm l') (distinct : (l.map keyOf).Nodup) : Reordered l l' := by
  induction perm with
  | nil => exact .nil
  | cons parameter _ ih => exact (ih (List.nodup_cons.mp distinct).2).cons parameter
  | swap a b l =>
    have apart := (List.nodup_cons.mp distinct).1
    exact .swap fun same => apart (List.mem_cons.mpr (Or.inl same))
  | trans first _ ih ih' => exact (ih distinct).trans (ih' ((first.map keyOf).nodup_iff.mp distinct))

end Reordered

theorem Parameter.keyOf_writes {p : Parameter} {text : String} (writes : p.Writes text) : keyOf text = some p.key := by
  obtain ⟨value, _, cut⟩ := Parameter.writes_iff.mp writes
  rw [keyOf, cut]
  rfl

/-- Conditions on different things can be added in either order. -/
theorem Parameter.apply_comm {p q : Parameter} (apart : p.key ≠ q.key) (f : Filter) :
    q.apply (p.apply f) = p.apply (q.apply f) := by
  cases p with
  | min _ =>
    cases q with
    | min _ => exact absurd rfl apart
    | max _ => exact Filter.withMin_withMax f _ _
    | tag _ _ => exact Filter.withMin_requireTag f _ _ _
  | max _ =>
    cases q with
    | min _ => exact (Filter.withMin_withMax f _ _).symm
    | max _ => exact absurd rfl apart
    | tag _ _ => exact Filter.withMax_requireTag f _ _ _
  | tag name value =>
    cases q with
    | min _ => exact (Filter.withMin_requireTag f _ _ _).symm
    | max _ => exact (Filter.withMax_requireTag f _ _ _).symm
    | tag other second => exact Filter.requireTag_comm f (fun same => apart (congrArg ("tag." ++ ·) same)) _ _

theorem Reordered.written {l l' : List String} (reordered : Reordered l l') {ps : List Parameter}
    (written : List.Forall₂ Parameter.Writes ps l) :
    ∃ ps', List.Forall₂ Parameter.Writes ps' l' ∧ ∀ f, ps'.foldl Parameter.apply f = ps.foldl Parameter.apply f := by
  induction reordered generalizing ps with
  | nil => exact ⟨ps, written, fun _ => rfl⟩
  | cons parameter _ ih =>
    cases written with
    | cons writes written =>
      obtain ⟨ps', written', same⟩ := ih written
      exact ⟨_ :: ps', .cons writes written', fun f => same _⟩
  | swap apart =>
    obtain _ | ⟨first, _ | ⟨second, written⟩⟩ := written
    refine ⟨_, .cons second (.cons first written), fun f => ?_⟩
    have keys := Parameter.keyOf_writes first
    have keys' := Parameter.keyOf_writes second
    rw [List.foldl_cons, List.foldl_cons, ← Parameter.apply_comm fun same => apart (by rw [keys, keys', same])]
    rfl
  | trans _ _ first second =>
    obtain ⟨between, written', same⟩ := first written
    obtain ⟨last, written'', same'⟩ := second written'
    exact ⟨last, written'', fun f => (same' f).trans (same f)⟩

theorem Reordered.eq_of_empty {l l' : List String} (reordered : Reordered l l') (plain : ∀ text ∈ l, '&' ∉ text.toList)
    (empty : "&".intercalate l = "") : l' = l := by
  cases l with
  | nil => exact List.Perm.eq_nil reordered.perm.symm
  | cons text rest =>
    have fields : Text.fields '&' "" = text :: rest :=
      Text.fields_eq_iff.mpr ⟨List.cons_ne_nil text rest, plain, empty.symm⟩
    cases fields
    exact List.perm_singleton.mp reordered.perm.symm

theorem Reordered.parse {path : String} {l l' : List String} {q : Query} (reordered : Reordered l l')
    (free : '?' ∉ path.toList) (plain : ∀ text ∈ l, '&' ∉ text.toList)
    (done : parse (path ++ "?" ++ "&".intercalate l) = .ok q) : parse (path ++ "?" ++ "&".intercalate l') = .ok q := by
  by_cases empty : "&".intercalate l = ""
  · rwa [reordered.eq_of_empty plain empty]
  · rw [parse_eq_ok_iff] at done ⊢
    generalize spelled : path ++ "?" ++ "&".intercalate l = id at done
    cases done with
    | plain names =>
      have member : '?' ∈ (path ++ "?" ++ "&".intercalate l).toList := by simp
      exact absurd (spelled ▸ member) names.free
    | @filtered other subject texts ps f names written conditions ordered =>
      have cut := (congrArg (Text.cut? '?') spelled).symm.trans (cut?_path free)
      rw [cut?_path names.free] at cut
      obtain ⟨rfl, same⟩ := Prod.mk.inj (Option.some.inj cut)
      have readable := (written_of_forall₂ written).2
      have some : l ≠ [] := by
        rintro rfl
        exact empty rfl
      have someText : texts ≠ [] := by
        rintro rfl
        exact empty same.symm
      have fields : Text.fields '&' ("&".intercalate l) = l := Text.fields_eq_iff.mpr ⟨some, plain, rfl⟩
      have plain' (text : String) (member : text ∈ texts) : '&' ∉ text.toList :=
        (readable text member).elim fun _ writes => writes.free
      have fields' : Text.fields '&' ("&".intercalate texts) = texts :=
        Text.fields_eq_iff.mpr ⟨someText, plain', rfl⟩
      have sameTexts : texts = l := by rw [← fields', same, fields]
      rw [sameTexts] at written
      obtain ⟨ps', written', folded⟩ := reordered.written written
      refine .filtered names written' (conditions_iff.mpr ?_) ordered
      rw [folded, ← conditions_iff]
      exact conditions

/-- Ids are the texts that spell a query, and what is read from one is the
query it spells. The order of parameters with different keys does not matter. -/
theorem parse_iff_spells_in_any_order :
    (∀ id q, parse id = .ok q ↔ Spells id q) ∧
    ∀ path l l', '?' ∉ path.toList → (∀ text ∈ l, '&' ∉ text.toList) → Reordered l l' →
      ∀ q, parse (path ++ "?" ++ "&".intercalate l) = .ok q ↔ parse (path ++ "?" ++ "&".intercalate l') = .ok q := by
  refine ⟨fun _ _ => parse_eq_ok_iff, fun path l l' free plain reordered q => ⟨fun done => ?_, fun done => ?_⟩⟩
  · exact reordered.parse free plain done
  · exact reordered.symm.parse free (fun text member => plain text (reordered.perm.mem_iff.mpr member)) done

theorem turned_parameters_read_alike :
    (∀ q, parse "by_host?max=+020&tag.a=1&min=10" = .ok q ↔ parse "by_host?tag.a=1&min=10&max=+020" = .ok q) ∧
    Spells "by_host?max=+020&tag.a=1&min=10" ⟨.standard ⟨"by_host", [.host]⟩,
      ⟨some (Duration.ofMillis 10), some (Duration.ofMillis 20), SortedMap.empty.insert "a" "1"⟩⟩ := by
  constructor
  · refine parse_iff_spells_in_any_order.2 "by_host"
      ["max=+020", "tag.a=1", "min=10"] ["tag.a=1", "min=10", "max=+020"] ?_ ?_ ?_
    · decide
    · decide
    · exact Reordered.of_perm (by decide) (by decide)
  · exact (parse_iff_spells_in_any_order.1 _ _).mp (by decide)

end Rollup.Query
