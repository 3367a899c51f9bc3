import Mathlib.Data.List.Nodup
import Rollup.Proofs.Batch
import Rollup.Proofs.Queue
import Rollup.Proofs.Word

namespace Rollup

namespace Window

/-- Whether a number lies behind a cursor. Without a cursor each does. -/
def Behind (cursor : Option Nat) (id : Nat) : Prop := ∀ c ∈ cursor, c < id

instance (cursor : Option Nat) (id : Nat) : Decidable (Behind cursor id) :=
  inferInstanceAs (Decidable (∀ c ∈ cursor, c < id))

/-- The answer of `after?` with its position reckoned in machine words, and
with records passed over that stand for no request. -/
def afterWord? (w : Window) (cursor : Option Nat) : Option (Option View) :=
  match w.requests.head? with
  | none => some none
  | some front => do
    let position ← match cursor with
      | none => some 0
      | some id => if id < front.id then some 0 else (Word.sub? id front.id).bind (Word.add? · 1)
    return (w.fromPosition position).find? (·.record.isUsable)

/-- Where keys count up without a gap, the first one behind a cursor follows
from the first of all. -/
theorem find?_behind_consecutive {α : Type} {key : α → Nat} {l : List α} {base : Nat}
    (keys : l.map key = List.range' base l.length) (cursor : Nat) :
    l.find? (cursor < key ·) = if cursor < base then l.head? else l[cursor - base + 1]? := by
  induction l generalizing base with
  | nil => exact (ite_self none).symm
  | cons a rest ih =>
    obtain ⟨first, later⟩ := List.cons.inj keys
    rw [List.find?_cons, ih later, first]
    rcases Nat.lt_trichotomy cursor base with before | rfl | after
    · rw [decide_eq_true before, if_pos before]
      rfl
    · rw [decide_eq_false (Nat.lt_irrefl _), if_pos (Nat.lt_succ_self _), if_neg (Nat.lt_irrefl _), Nat.sub_self,
        List.head?_eq_getElem?]
      rfl
    · have next : cursor - base = cursor - (base + 1) + 1 := by omega
      rw [decide_eq_false (by omega), if_neg (by omega), if_neg (by omega), next]
      rfl

/-- The next request is the first one behind the cursor. -/
theorem Sound.after?_eq_find? {w : Window} (sound : w.Sound) (cursor : Option Nat) :
    w.after? cursor = w.views.find? fun v => Behind cursor v.id := by
  have views : w.views.find? (fun v => Behind cursor v.id) =
      (w.requests.find? fun r => Behind cursor r.id).map w.viewOf := List.find?_map
  have ids := sound.ids_eq
  rw [views]
  unfold after?
  cases requests : w.requests with
  | nil => rfl
  | cons front rest =>
    rw [requests] at ids
    have base : w.nextId - (front :: rest).length = front.id := (List.cons.inj ids).1.symm
    rw [base] at ids
    cases cursor with
    | none =>
      have all : (fun r : Record => decide (Behind none r.id)) = fun _ => true :=
        funext fun _ => decide_eq_true (by simp [Behind])
      rw [all]
      rfl
    | some c =>
      have same : (fun r : Record => decide (Behind (some c) r.id)) = fun r => decide (c < r.id) := by
        funext r
        exact decide_eq_decide.mpr ⟨fun behind => behind c rfl, fun less d here => Option.some.inj here ▸ less⟩
      rw [same, find?_behind_consecutive ids c, apply_ite (Option.map w.viewOf)]
      by_cases before : c < front.id
      · simp [before]
      · simp [before]

def ids (w : Window) : List Nat := w.requests.map (·.id)

theorem mem_ids_iff {w : Window} {id : Nat} : id ∈ w.ids ↔ ∃ v ∈ w.views, v.id = id := by
  unfold ids views
  simp only [List.mem_map, exists_exists_and_eq_and]
  rfl

/-- Numbers go up, so the first one is never zero. -/
theorem act_counted {w : Window} (counted : w.size < w.nextId) (action : Action) :
    (w.act action).size < (w.act action).nextId := by
  have outcome := w.act_outcome action
  generalize w.act action = after at outcome
  cases outcome with
  | refused _ _ => exact counted
  | kept _ =>
    rw [size_keep]
    exact Nat.succ_lt_succ counted
  | dropped n =>
    rw [size_dropOldest, dropOldest_nextId]
    omega

theorem play_counted {w : Window} (counted : w.size < w.nextId) (actions : List Action) :
    (w.play actions).size < (w.play actions).nextId :=
  play_induction (P := fun w => w.size < w.nextId) act_counted counted actions

/-- New requests get new numbers. -/
theorem mem_ids_of_act {w : Window} {action : Action} {id : Nat} (later : id ∈ (w.act action).ids) :
    id ∈ w.ids ∨ id = w.nextId := by
  have outcome := w.act_outcome action
  generalize w.act action = after at outcome later
  cases outcome with
  | refused _ _ => exact Or.inl later
  | kept _ =>
    rw [ids, keep_requests, List.map_append] at later
    exact (List.mem_append.mp later).imp_right List.mem_singleton.mp
  | dropped n =>
    rw [ids, dropOldest_requests, List.map_drop] at later
    exact Or.inl (List.mem_of_mem_drop later)

theorem act_nextId_le (w : Window) (action : Action) : w.nextId ≤ (w.act action).nextId := by
  have outcome := w.act_outcome action
  generalize w.act action = after at outcome
  cases outcome with
  | refused _ _ => exact Nat.le_refl _
  | kept _ => exact Nat.le_succ _
  | dropped n => exact Nat.le_of_eq (dropOldest_nextId w n).symm

/-- A request that came before some moment was there at that moment, as long as
it is still there later. -/
theorem mem_ids_of_play {w : Window} {actions : List Action} {id : Nat} (later : id ∈ (w.play actions).ids)
    (old : id < w.nextId) : id ∈ w.ids := by
  induction actions generalizing w with
  | nil => exact later
  | cons action rest ih =>
    have next := w.act_nextId_le action
    rcases mem_ids_of_act (ih (w := w.act action) later (by omega)) with there | isNew
    · exact there
    · omega

theorem Queue.Models.find?_usable {q : Queue} {w : Window} (models : q.Models w) (n : Nat) :
    (w.fromPosition n).find? (·.record.isUsable) = (w.requests[n]?).map w.viewOf := by
  have usable : ∀ v ∈ w.views, v.record.isUsable := List.filter_eq_self.mp models.iterate_eq
  have position : w.fromPosition n = w.views.drop n := List.map_drop
  have first : (w.requests[n]?).map w.viewOf = (w.views.drop n).head? := by
    rw [List.head?_drop, views, List.getElem?_map]
  rw [position, first]
  cases rest : w.views.drop n with
  | nil => rfl
  | cons v others =>
    have member : v ∈ w.views := List.mem_of_mem_drop (rest ▸ List.mem_cons_self)
    exact List.find?_cons_of_pos (usable v member)

/-- Every number that fits into a word can be a cursor. -/
theorem Queue.Models.afterWord?_eq {q : Queue} {w : Window} (models : q.Models w) (counted : w.size < w.nextId)
    {cursor : Option Nat} (word : ∀ c ∈ cursor, c < Word.limit) : w.afterWord? cursor = some (w.after? cursor) := by
  unfold afterWord? after?
  cases front : w.requests.head? with
  | none => rfl
  | some r =>
    have number := models.sound.numbers 0 r (by rw [← List.head?_eq_getElem?, front])
    cases cursor with
    | none => exact congrArg some (models.find?_usable 0)
    | some c =>
      have fits := word c rfl
      dsimp only [Option.bind_eq_bind, Option.bind_some]
      by_cases before : c < r.id
      · rw [if_pos before, if_pos before]
        exact congrArg some (models.find?_usable 0)
      · rw [if_neg before, if_neg before, Word.sub?_eq (by omega), Option.bind_some, Word.add?_eq (by omega)]
        exact congrArg some (models.find?_usable _)

/-- One call of a client who goes through the requests: the window as it is
then, how far he is, and what he is told. -/
structure Page where
  state : Window
  cursor : Option Nat
  answer : Option View

/-- The calls of a client who starts with the oldest request, goes on behind
the one that he was told last, and stops when there is none. Before each call
something may be appended and dropped. -/
def paging (w : Window) (cursor : Option Nat) : List (List Action) → List Page
  | [] => []
  | actions :: rest =>
    ⟨w.play actions, cursor, (w.play actions).after? cursor⟩ :: match (w.play actions).after? cursor with
      | none => []
      | some v => (w.play actions).paging (some v.id) rest

/-- The numbers of the requests that a client was told, in order. -/
def seen (pages : List Page) : List Nat := pages.filterMap fun p => p.answer.map View.id

/-- The answer is the request with the least number behind the cursor. There is
none only if no request lies behind the cursor. -/
structure Page.Exact (p : Page) : Prop where
  listed : ∀ v ∈ p.answer, v ∈ p.state.views
  behind : ∀ v ∈ p.answer, Behind p.cursor v.id
  least : ∀ v ∈ p.answer, ∀ u ∈ p.state.views, Behind p.cursor u.id → u = v ∨ v.id < u.id
  last : p.answer = none → ∀ u ∈ p.state.views, ¬Behind p.cursor u.id

theorem Sound.after?_exact {w : Window} (sound : w.Sound) (cursor : Option Nat) :
    Page.Exact ⟨w, cursor, w.after? cursor⟩ := by
  rw [sound.after?_eq_find?]
  cases told : w.views.find? fun v => Behind cursor v.id with
  | none =>
    refine ⟨by simp, by simp, by simp, fun _ u listed behind => ?_⟩
    exact List.find?_eq_none.mp told u listed (decide_eq_true behind)
  | some v =>
    obtain ⟨behind, before, after, split, passed⟩ := List.find?_eq_some_iff_append.mp told
    have least (u : View) (listed : u ∈ w.views) (far : Behind cursor u.id) : u = v ∨ v.id < u.id := by
      have increase := sound.numbered.increase
      rw [split] at listed increase
      rcases List.mem_append.mp listed with early | late
      · have near := passed u early
        rw [decide_eq_true far] at near
        cases near
      · exact (List.mem_cons.mp late).imp_right (List.rel_of_pairwise_cons (List.pairwise_append.mp increase).2.1 ·)
    refine ⟨?_, ?_, ?_, by simp⟩
    · rintro _ ⟨⟩
      exact List.mem_of_find?_eq_some told
    · rintro _ ⟨⟩
      exact of_decide_eq_true behind
    · rintro _ ⟨⟩
      exact least

/-- The calls of a client who starts behind a cursor: each answer is exact, they
come in increasing order, and a client who is told that there is no more has
been told every request behind the cursor that is there at that moment. -/
structure Complete (cursor : Option Nat) (pages : List Page) : Prop where
  exact : ∀ p ∈ pages, p.Exact
  behind : ∀ id ∈ seen pages, Behind cursor id
  increasing : (seen pages).Pairwise (· < ·)
  all : ∀ p ∈ pages, p.answer = none → ∀ id ∈ p.state.ids, Behind cursor id → id ∈ seen pages

theorem Complete.last {p : Page} (exact : p.Exact) (none : p.answer = none) : Complete p.cursor [p] := by
  have nothing : seen [p] = [] := by rw [seen, List.filterMap_cons, none]; rfl
  refine ⟨List.forall_mem_singleton.mpr exact, by simp [nothing], by simp [nothing], ?_⟩
  intro q member _ id there behind
  cases List.mem_singleton.mp member
  obtain ⟨u, listed, rfl⟩ := mem_ids_iff.mp there
  exact absurd behind (exact.last none u listed)

theorem Complete.cons {p : Page} (exact : p.Exact) {v : View} (told : p.answer = some v) {rest : List Page}
    (complete : Complete (some v.id) rest)
    (older : ∀ q ∈ rest, ∀ id ∈ q.state.ids, id ≤ v.id → id ∈ p.state.ids) : Complete p.cursor (p :: rest) := by
  have more : seen (p :: rest) = v.id :: seen rest := by rw [seen, List.filterMap_cons, told]; rfl
  have later (id : Nat) (member : id ∈ seen rest) : v.id < id := complete.behind id member v.id rfl
  have here : Behind p.cursor v.id := exact.behind v told
  refine ⟨List.forall_mem_cons.mpr ⟨exact, complete.exact⟩, ?_, ?_, ?_⟩
  · rw [more]
    exact List.forall_mem_cons.mpr ⟨here, fun id member c stand => Nat.lt_trans (here c stand) (later id member)⟩
  · rw [more]
    exact List.pairwise_cons.mpr ⟨later, complete.increasing⟩
  · intro q member ended id there behind
    rw [more]
    have deeper : q ∈ rest := by
      rcases List.mem_cons.mp member with rfl | deeper
      · rw [told] at ended
        cases ended
      · exact deeper
    by_cases far : v.id < id
    · refine List.mem_cons_of_mem _ (complete.all q deeper ended id there ?_)
      rintro _ ⟨⟩
      exact far
    · -- It was there at this call already, so it is the one that was told.
      obtain ⟨u, listed, rfl⟩ := mem_ids_iff.mp (older q deeper id there (by omega))
      rcases exact.least v told u listed behind with rfl | less
      · exact List.mem_cons_self
      · exact absurd less far

/-- What a client gets to see are later states of the window. -/
theorem paging_state {w : Window} {cursor : Option Nat} {rounds : List (List Action)} :
    ∀ p ∈ w.paging cursor rounds, ∃ actions, p.state = w.play actions := by
  induction rounds generalizing w cursor with
  | nil => intro p member; cases member
  | cons actions rest ih =>
    intro p member
    unfold paging at member
    rcases List.mem_cons.mp member with rfl | deeper
    · exact ⟨actions, rfl⟩
    · split at deeper
      · cases deeper
      · obtain ⟨more, same⟩ := ih p deeper
        exact ⟨actions ++ more, same.trans List.foldl_append.symm⟩

theorem Sound.paging_complete {w : Window} (sound : w.Sound) (cursor : Option Nat) (rounds : List (List Action)) :
    Complete cursor (w.paging cursor rounds) := by
  induction rounds generalizing w cursor with
  | nil => exact ⟨by simp [paging], by simp [paging, seen], .nil, by simp [paging]⟩
  | cons actions rest ih =>
    have now := sound.play actions
    have exact := now.after?_exact cursor
    unfold paging
    cases told : (w.play actions).after? cursor with
    | none => exact .last (told ▸ exact) rfl
    | some v =>
      refine .cons (told ▸ exact) rfl (ih now (some v.id)) fun q member id there old => ?_
      obtain ⟨more, same⟩ := paging_state q member
      obtain ⟨r, kept, rfl⟩ := List.mem_map.mp (exact.listed v told)
      have known : r.id < (w.play actions).nextId := now.id_lt kept
      exact mem_ids_of_play (same ▸ there) (Nat.lt_of_le_of_lt old known)

/-- In every state that a window can come to, a client who asks behind any
cursor is told the request with the least number behind it, and with a cursor
of one machine word no step on the way to it fails. Whatever is appended and
dropped while he goes through the requests, he is told them in strictly
increasing order, and once there is no more he has been told every request that
is there at that moment exactly once, and so each that was there all along. -/
theorem paging_skips_nothing (capacity growStep shrinkFactor mostWords : Nat) (actions : List Action) :
    let w := (empty capacity growStep shrinkFactor mostWords).play actions
    (∀ cursor, Page.Exact ⟨w, cursor, w.after? cursor⟩) ∧
      (∀ cursor : Option Nat, (∀ c ∈ cursor, c < Word.limit) → w.afterWord? cursor = some (w.after? cursor)) ∧
      ∀ rounds, let pages := w.paging none rounds
        (∀ p ∈ pages, p.Exact) ∧ (seen pages).Pairwise (· < ·) ∧
          ∀ p ∈ pages, p.answer = none → ∀ id ∈ p.state.ids, (seen pages).count id = 1 := by
  intro w
  have models : Queue.Models _ w := (Queue.empty_models capacity growStep shrinkFactor mostWords).play actions
  have start : (empty capacity growStep shrinkFactor mostWords).size < 1 := Nat.zero_lt_one
  have counted : w.size < w.nextId := play_counted start actions
  refine ⟨models.sound.after?_exact, fun cursor word => models.afterWord?_eq counted word, fun rounds => ?_⟩
  have complete := models.sound.paging_complete none rounds
  refine ⟨complete.exact, complete.increasing, fun p member ended id there => ?_⟩
  have once : (seen (w.paging none rounds)).Nodup := complete.increasing.imp Nat.ne_of_lt
  exact List.count_eq_one_of_mem once (complete.all p member ended id there (by simp [Behind]))

/-- While a client goes through what is left of the traffic, the request that he
stands at is dropped, and others come. -/
def bustle : List (List Action) := [
  [], [.drop 2, .append { script := "third" } ⟨20⟩], [.append { script := "fourth" } ⟨15⟩], [.drop 1], []]

theorem bustle_skips_nothing :
    let w := (empty 2 2 1 9).play traffic
    let pages := w.paging none bustle
    (∀ c ∈ some 18446744073709551615, c < Word.limit) ∧ w.afterWord? (some 18446744073709551615) = some none ∧
      seen pages = [2, 4, 5] ∧ ∃ p ∈ pages, p.answer = none ∧ p.state.ids = [5] ∧ (seen pages).count 5 = 1 := by
  intro w pages
  obtain ⟨_, words, skips⟩ := paging_skips_nothing 2 2 1 9 traffic
  have word : ∀ c ∈ some 18446744073709551615, c < Word.limit := by decide
  have top : w.after? (some 18446744073709551615) = none := by decide +kernel
  have ended : ∃ p ∈ pages, p.answer = none ∧ p.state.ids = [5] := by decide +kernel
  obtain ⟨p, member, last, left⟩ := ended
  have once := (skips bustle).2.2 p member last 5 (left ▸ List.mem_singleton.mpr rfl)
  exact ⟨word, (words _ word).trans (congrArg some top), by decide +kernel, p, member, last, left, once⟩

end Window

end Rollup
