import Chip8.EventSource

/-!
# Hosts that keep a log

* `Logged`: a host and the events that were taken from it, in order. It answers as the host does.
* `drain_logged`, `awaitPress_logged`: draining and waiting append what they took to the log.
-/

namespace Chip8

/-- A host and the events that were taken from it. -/
@[ext]
structure Logged (σ : Type) where
  log : List Event
  host : σ

namespace EventSource

variable {σ : Type} [EventSource σ]

/-- The answer of the host, noted down if it is an event. -/
def pollLogged (s : Logged σ) : Option Event × Logged σ :=
  match poll s.host with
  | (none, t) => (none, ⟨s.log, t⟩)
  | (some e, t) => (some e, ⟨s.log ++ [e], t⟩)

/-- The next event of the host, noted down. -/
def awaitLogged (s : Logged σ) : Event × Logged σ :=
  let (e, t) := await s.host
  (e, ⟨s.log ++ [e], t⟩)

theorem poll_of_pollLogged {s t : Logged σ} {e : Event} (h : pollLogged s = (some e, t)) :
    poll s.host = (some e, t.host) := by
  unfold pollLogged at h
  split at h <;> simp_all
  rw [← h.2]

theorem await_of_awaitLogged {s t : Logged σ} {e : Event} (h : awaitLogged s = (e, t)) :
    await s.host = (e, t.host) := by
  cases h
  rfl

instance : EventSource (Logged σ) where
  poll := pollLogged
  await := awaitLogged
  burst s := burst s.host
  patience s := patience s.host
  burst_lt h := burst_lt (poll_of_pollLogged h)
  patience_lt h he := patience_lt (await_of_awaitLogged h) he

theorem drain_logged (s : Logged σ) :
    drain s = ((drain s.host).1, ⟨s.log ++ (drain s.host).1, (drain s.host).2⟩) := by
  obtain ⟨log, host⟩ := s
  fun_induction drain host generalizing log with
  | case1 s t h =>
    rw [drain_of_none (t := ⟨log, t⟩) (by simp [poll, pollLogged, h])]
    simp [drain_of_none h]
  | case2 s e t h _ _ ih =>
    rw [drain_of_some (e := e) (t := ⟨log ++ [e], t⟩) (by simp [poll, pollLogged, h]), ih]
    simp [drain_of_some h]

theorem awaitPress_logged (s : Logged σ) :
    awaitPress s = ((awaitPress s.host).1, (awaitPress s.host).2.1,
      ⟨s.log ++ (awaitPress s.host).1 ++ [(awaitPress s.host).2.1], (awaitPress s.host).2.2⟩) := by
  obtain ⟨log, host⟩ := s
  fun_induction awaitPress host generalizing log with
  | case1 s e t h ends =>
    rw [awaitPress_of_endsWait (e := e) (t := ⟨log ++ [e], t⟩) (by simp [await, awaitLogged, h]) ends]
    simp [awaitPress_of_endsWait h ends]
  | case2 s e t h ends _ _ ih =>
    have ends : e.endsWait = false := by simpa using ends
    rw [awaitPress_of_not_endsWait (e := e) (t := ⟨log ++ [e], t⟩)
      (by simp [await, awaitLogged, h]) ends, ih]
    simp [awaitPress_of_not_endsWait h ends]

end EventSource

end Chip8
