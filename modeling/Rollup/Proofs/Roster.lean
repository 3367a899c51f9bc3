import Rollup.Proofs.SortedMap
import Rollup.Roster

namespace Rollup

def Report.revise (f : Breakdown → Breakdown) (r : Report) : Report := { r with breakdown := f r.breakdown }

namespace Roster

/-- Live reports have different serial numbers, all of them given out before. -/
structure Sound (r : Roster) : Prop where
  different : (r.live.map (·.serial)).Nodup
  given : ∀ report ∈ r.live, report.serial < r.nextSerial

theorem Sound.same {r : Roster} (sound : r.Sound) {report other : Report} (left : report ∈ r.live)
    (right : other ∈ r.live) (serial : report.serial = other.serial) : report = other := by
  have different := List.pairwise_map.mp sound.different
  obtain ⟨i, first, rfl⟩ := List.mem_iff_getElem.mp left
  obtain ⟨j, second, rfl⟩ := List.mem_iff_getElem.mp right
  have apart := List.pairwise_iff_getElem.mp different
  rcases Nat.lt_trichotomy i j with less | rfl | more
  · exact absurd serial (apart i j first second less)
  · rfl
  · exact absurd serial.symm (apart j i second first more)

theorem live_modify (r : Roster) (serial : Nat) (f : Report → Report) :
    (r.modify serial f).live = r.live.map fun report => if report.serial = serial then f report else report := by
  unfold modify live SortedMap.values SortedMap.mapValues
  simp only [List.map_append, List.map_map]
  rfl

theorem live_update (r : Roster) (serial : Nat) (f : Breakdown → Breakdown) :
    (update f r serial).live = r.live.map fun report => if report.serial = serial then report.revise f else report :=
  live_modify r serial _

/-- Changing the reports of different serial numbers one after the other
changes each of them once. -/
theorem live_updates (f : Breakdown → Breakdown) {serials : List Nat} (different : serials.Nodup) (r : Roster) :
    (serials.foldl (update f) r).live =
      r.live.map fun report => if report.serial ∈ serials then report.revise f else report := by
  induction serials generalizing r with
  | nil => simp
  | cons serial rest ih =>
    obtain ⟨apart, differentRest⟩ := List.nodup_cons.mp different
    rw [List.foldl_cons, ih differentRest, live_update, List.map_map]
    refine List.map_congr_left fun report _ => ?_
    have same : (report.revise f).serial = report.serial := rfl
    by_cases here : report.serial = serial
    · have gone : report.serial ∉ rest := here ▸ apart
      simp [here, same, apart]
    · simp [here]

theorem update_nextSerial (f : Breakdown → Breakdown) (serials : List Nat) (r : Roster) :
    (serials.foldl (update f) r).nextSerial = r.nextSerial := by
  induction serials generalizing r with
  | nil => rfl
  | cons serial rest ih => exact ih (update f r serial)

theorem Sound.live_updates_all {r : Roster} (sound : r.Sound) (f : Breakdown → Breakdown) :
    ((r.live.map (·.serial)).foldl (update f) r).live = r.live.map (·.revise f) := by
  rw [live_updates f sound.different]
  exact List.map_congr_left fun report member => if_pos (List.mem_map_of_mem member)

theorem Sound.of_map {r r' : Roster} (sound : r.Sound) {f : Report → Report} (live : r'.live = r.live.map f)
    (same : ∀ report, (f report).serial = report.serial) (next : r'.nextSerial = r.nextSerial) : r'.Sound where
  different := by
    rw [live, List.map_map]
    exact (List.map_congr_left fun report _ => same report) ▸ sound.different
  given report member := by
    rw [live] at member
    obtain ⟨old, known, rfl⟩ := List.mem_map.mp member
    rw [same, next]
    exact sound.given old known

theorem Sound.modify {r : Roster} (sound : r.Sound) {f : Report → Report}
    (same : ∀ report, (f report).serial = report.serial) (serial : Nat) : (r.modify serial f).Sound := by
  refine sound.of_map (live_modify r serial f) (fun report => ?_) rfl
  split
  · exact same report
  · rfl

/-- A report that is put in under a new serial number is the one live report
more; it may take the place of another one. -/
theorem live_insert (r : Roster) (report : Report) :
    ∃ rest, rest.Sublist r.live ∧ (r.insert report).live.Perm (report :: rest) := by
  have values := (r.onDemand.perm_insert report.id report).map (·.2)
  refine ⟨r.standing ++ (r.onDemand.erase report.id).values, ?_, ?_⟩
  · exact (List.Sublist.refl r.standing).append (List.filter_sublist.map _)
  · exact (values.append_left r.standing).trans List.perm_middle

theorem mem_live_insert {r : Roster} {report other : Report} (member : other ∈ (r.insert report).live) :
    other = report ∨ other ∈ r.live := by
  obtain ⟨rest, sub, perm⟩ := r.live_insert report
  exact (List.mem_cons.mp (perm.mem_iff.mp member)).imp_right (sub.subset ·)

theorem Sound.insert {r : Roster} (sound : r.Sound) {report : Report} (fresh : report.serial = r.nextSerial) :
    (r.insert report).Sound where
  different := by
    obtain ⟨rest, sub, perm⟩ := r.live_insert report
    refine List.Nodup.perm ?_ (perm.map _).symm
    refine List.nodup_cons.mpr ⟨fun member => ?_, sound.different.sublist (sub.map _)⟩
    obtain ⟨other, known, same⟩ := List.mem_map.mp member
    have below := sound.given other (sub.subset known)
    dsimp only at same
    omega
  given other member := by
    have next : (r.insert report).nextSerial = r.nextSerial + 1 := rfl
    rcases mem_live_insert member with rfl | old
    · omega
    · have below := sound.given other old
      omega

theorem live_retire (r : Roster) (cutoff : Instant) : (r.retire cutoff).live.Sublist r.live :=
  (List.Sublist.refl r.standing).append (List.filter_sublist.map _)

theorem Sound.retire {r : Roster} (sound : r.Sound) (cutoff : Instant) : (r.retire cutoff).Sound where
  different := sound.different.sublist ((r.live_retire cutoff).map _)
  given report member := sound.given report ((r.live_retire cutoff).subset member)

theorem live_create (scale : Scale) (now : Instant) : (create scale now).live = (create scale now).standing :=
  List.append_nil _

theorem mem_live_create {scale : Scale} {now : Instant} {report : Report} (member : report ∈ (create scale now).live) :
    ∃ g, report.breakdown = .empty g .any scale := by
  have standing : report ∈ (create scale now).standing := live_create scale now ▸ member
  obtain ⟨e, _, rfl⟩ := List.mem_map.mp standing
  exact ⟨e.1.grouping, rfl⟩

theorem create_sound (scale : Scale) (now : Instant) : (create scale now).Sound := by
  have live := live_create scale now
  have serials : (create scale now).standing.map (·.serial) = List.range StandardReport.all.length := by
    unfold create
    rw [List.map_map, List.range_eq_range']
    exact List.zipIdx_map_snd 0 _
  refine ⟨by rw [live, serials]; exact List.nodup_range, fun report member => ?_⟩
  rw [live] at member
  have inside : report.serial ∈ List.range StandardReport.all.length := serials ▸ List.mem_map_of_mem member
  exact List.mem_range.mp inside

end Roster

end Rollup
