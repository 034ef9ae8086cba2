import Chip8.EventSource

/-!
# Scripts

* `Script`: a host that plays a list of events cut by pauses.
* `Script.ofEvents`, `Script.ofChunks`, `Script.typed`: scripts without pauses, with pauses, and of keys
  that are struck one after the other.
* `Script.events`: the events still to come, the pauses left out.
* `events_of_poll`, `events_of_poll_none`, `events_of_await`: an event that is taken was the first one
  to come. A script that is used up has no pending event, and a wait gets a quit.
-/

namespace Chip8

/-- Events to be played: those before the next pause, and those between later pauses. -/
structure Script where
  current : List Event
  later : List (List Event)
  deriving DecidableEq, Repr

namespace Script

/-- A script without pauses. -/
def ofEvents (events : List Event) : Script := ⟨events, []⟩

/-- A script of chunks with a pause between any two. -/
def ofChunks : List (List Event) → Script
  | [] => ⟨[], []⟩
  | chunk :: chunks => ⟨chunk, chunks⟩

/-- Strikes keys one after the other, each held from one pause to the next, and quits at the end. -/
def typed (keys : List Char) : Script :=
  ofChunks (keys.flatMap (fun c => [[.keyDown c], [.keyUp c]]) ++ [[.quit]])

/-- The events still to come. -/
def events (s : Script) : List Event := s.current ++ s.later.flatten

/-- The next event before the pause. A poll at a pause reports none and goes past the pause. -/
def poll : Script → Option Event × Script
  | ⟨e :: current, later⟩ => (some e, ⟨current, later⟩)
  | ⟨[], chunk :: later⟩ => (none, ⟨chunk, later⟩)
  | ⟨[], []⟩ => (none, ⟨[], []⟩)

/-- The next event of a chunk or of the chunks after it, and a quit if there is none. -/
def awaitFrom : List Event → List (List Event) → Event × Script
  | e :: current, later => (e, ⟨current, later⟩)
  | [], chunk :: later => awaitFrom chunk later
  | [], [] => (.quit, ⟨[], []⟩)

/-- The next event, past any pauses, and a quit if the script is used up. -/
def await (s : Script) : Event × Script := awaitFrom s.current s.later

theorem events_of_poll {s t : Script} {e : Event} (h : s.poll = (some e, t)) :
    s.events = e :: t.events := by
  unfold poll at h
  split at h <;> simp_all [events]
  simp [← h.2]

@[simp] theorem events_ofEvents (events : List Event) : (ofEvents events).events = events :=
  List.append_nil _

/-- A poll that reports no event takes none. -/
theorem events_of_poll_none {s t : Script} (h : s.poll = (none, t)) : t.events = s.events := by
  unfold poll at h
  split at h <;> cases h <;> rfl

theorem events_of_await {s t : Script} {e : Event} (h : s.await = (e, t)) :
    s.events = e :: t.events ∨ s.events = [] ∧ t.events = [] ∧ e = .quit := by
  obtain ⟨current, later⟩ := s
  simp only [await] at h
  fun_induction awaitFrom current later with
  | case1 e' current later => cases h; exact .inl rfl
  | case2 chunk later ih => simpa [events] using ih h
  | case3 => cases h; exact .inr ⟨rfl, rfl, rfl⟩

instance : EventSource Script where
  poll := poll
  await := await
  burst s := s.current.length
  patience s := s.events.length
  burst_lt {s t e} h := by
    unfold poll at h
    split at h <;> simp_all
    simp [← h.2]
  patience_lt {s t e} h he := by
    rcases events_of_await h with eq | ⟨_, _, rfl⟩
    · simp [eq]
    · cases he

end Script

end Chip8
