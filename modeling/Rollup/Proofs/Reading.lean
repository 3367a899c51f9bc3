import Mathlib.Data.List.Forall2
import Rollup.Proofs.Window

namespace Rollup

/-- All that a client gets to see of a request, but for its number and its
time. -/
structure Reading where
  host : String
  server : String
  script : String
  schema : String
  status : Nat
  requestCount : Nat
  documentSize : ByteCount
  memoryPeak : ByteCount
  memoryFootprint : ByteCount
  time : Duration
  userTime : Duration
  systemTime : Duration
  tags : List (String × String)
  timers : List Submission.Timer
deriving DecidableEq

namespace Submission

/-- What a submission reads as with some timers, its names clipped and a change
made to its tags and to those of the timers. -/
def readingOf (s : Submission) (timers : List Timer) (f : List (String × String) → List (String × String)) :
    Reading where
  host := Text.clip Record.hostRoom s.host
  server := Text.clip Record.serverRoom s.server
  script := Text.clip Record.scriptRoom s.script
  schema := Text.clip Record.schemaRoom s.schema
  status := s.status
  requestCount := s.requestCount
  documentSize := s.documentSize
  memoryPeak := s.memoryPeak
  memoryFootprint := s.memoryFootprint
  time := s.time
  userTime := s.userTime
  systemTime := s.systemTime
  tags := f s.tags
  timers := timers.map (·.retag f)

theorem retag_keptTimers (s : Submission) (f : List (String × String) → List (String × String)) :
    s.keptTimers.map (·.retag f) = (s.timers.map (·.retag f)).take (Word.cut s.timers.length) := List.map_take

/-- What a submission reads as with the timers that a span has room for. -/
def readingWith (s : Submission) (f : List (String × String) → List (String × String)) : Reading :=
  s.readingOf s.keptTimers f

/-- Every tag is there, its value clipped. -/
def reading (s : Submission) : Reading := s.readingWith (·.map Lexicon.clipTag)

/-- The tags are there whose words have numbers. -/
def readingIn (s : Submission) (lex : Lexicon) : Reading := s.readingWith lex.kept

/-- It is settled which tags are there; more words change nothing about it. -/
def Told (s : Submission) (lex : Lexicon) : Prop := ∀ later, lex.Extends later → s.readingIn later = s.readingIn lex

theorem Told.extends {s : Submission} {lex later : Lexicon} (told : s.Told lex) (extended : lex.Extends later) :
    s.Told later := fun last further =>
  (told last (extended.trans further)).trans (told later extended).symm

end Submission

namespace View

def reading (v : View) : Reading where
  host := v.record.host
  server := v.record.server
  script := v.record.script
  schema := v.record.schema
  status := v.record.status
  requestCount := v.record.requestCount
  documentSize := v.record.documentSize
  memoryPeak := v.record.memoryPeak
  memoryFootprint := v.record.memoryFootprint
  time := v.record.time
  userTime := v.record.userTime
  systemTime := v.record.systemTime
  tags := v.requestTags
  timers := v.timers.map v.lexicon.spellTimer

def shown (v : View) : Nat × Instant × Reading := (v.id, v.record.timestamp, v.reading)

theorem Twin.reading_eq {v w : View} (twin : v.Twin w) : w.reading = v.reading := by
  have timers : w.timers.map w.lexicon.spellTimer = v.timers.map v.lexicon.spellTimer := by
    rw [twin.timers]
    refine List.map_congr_left fun timer known => ?_
    rw [Lexicon.spellTimer, List.map_congr_left (twin.timerTags timer known)]
    rfl
  rw [reading, twin.record, twin.requestTags_eq, timers]
  rfl

/-- The same request once more words are known. -/
def relearn (v : View) (lex : Lexicon) : View := { v with lexicon := lex }

/-- A kept request shows what a submission says, now and later on. While there
is room for words it shows all of it. -/
structure Tells (v : View) (s : Submission) : Prop where
  reads : ∀ later, v.lexicon.Extends later → (v.relearn later).reading = s.readingIn later
  complete : ∀ later, v.lexicon.Extends later → later.Roomy → s.readingIn later = s.reading

theorem Tells.relearn {v : View} {s : Submission} (tells : v.Tells s) {later : Lexicon}
    (extended : v.lexicon.Extends later) : (v.relearn later).Tells s where
  reads last further := tells.reads last (extended.trans further)
  complete last further := tells.complete last (extended.trans further)

theorem Tells.reading_eq {v : View} {s : Submission} (tells : v.Tells s) : v.reading = s.readingIn v.lexicon :=
  tells.reads v.lexicon (.refl _)

theorem Tells.whole {v : View} {s : Submission} (tells : v.Tells s) (room : v.lexicon.Roomy) : v.reading = s.reading :=
  tells.reading_eq.trans (tells.complete v.lexicon (.refl _) room)

end View

namespace Window

section Keeping

variable {w : Window} (s : Submission) (now : Instant)

theorem keep_tells (w : Window) : ((w.keep s now).viewOf (w.recordOf s now)).Tells s := by
  obtain ⟨_, timers⟩ := learnTimers_settles w.lexicon s.timers
  obtain ⟨after, tags⟩ := (learnTimers w.lexicon s.timers).1.learnTags_settles s.tags
  have read := w.keep_read_new s now
  refine ⟨fun later extended => ?_, fun later extended room => ?_⟩
  · have spelledTimers := timers.spelled later (after.trans extended)
    have spelledTags := tags.spelled later extended
    rw [Submission.readingIn, Submission.readingWith, Submission.readingOf, Submission.retag_keptTimers,
      ← spelledTimers, ← spelledTags, ← List.map_take, ← read]
    rfl
  · rw [Submission.readingIn, Submission.readingWith, Submission.readingOf, Submission.retag_keptTimers,
      timers.complete later (after.trans extended) room, tags.complete later extended room, ← Submission.retag_keptTimers]
    rfl

/-- The requests that were there before read as they did, and the new one
follows. -/
theorem Sound.keep_views (sound : w.Sound) : (w.keep s now).views =
    w.views.map (·.relearn (w.keep s now).lexicon) ++ [(w.keep s now).viewOf (w.recordOf s now)] := by
  have old (r : Record) (member : r ∈ w.requests) :
      (w.keep s now).viewOf r = (w.viewOf r).relearn (w.keep s now).lexicon := by
    rw [viewOf, sound.keep_read s now member]
    rfl
  rw [views, keep_requests, List.map_append, List.map_congr_left old, views, List.map_map]
  rfl

end Keeping

theorem view_lexicon {w : Window} {v : View} (member : v ∈ w.views) : v.lexicon = w.lexicon := by
  obtain ⟨r, _, rfl⟩ := List.mem_map.mp member
  rfl

theorem relearn_views (w : Window) : w.views.map (·.relearn w.lexicon) = w.views := by
  rw [views, List.map_map]
  rfl

/-- More words change nothing about a request whose words are known. -/
theorem Sound.relearn_twin {w : Window} (sound : w.Sound) {later : Lexicon} (extended : w.lexicon.Extends later) {v : View}
    (member : v ∈ w.views) : v.Twin (v.relearn later) := by
  obtain ⟨r, kept, rfl⟩ := List.mem_map.mp member
  refine ⟨rfl, rfl, fun tag tagged => ?_, fun timer known tag tagged => ?_⟩
  · exact extended.spell_eq (sound.tags r kept tag tagged)
  · exact extended.spell_eq (sound.timerTags timer (TimerRing.read_mem known) tag tagged)

end Window

end Rollup
