import Chip8.Event

/-!
# Where events come from

* `EventSource`: a host is asked for a pending event, or made to wait for the next one. It reports
  no event after finitely many events in a row, and a wait for a key ends after finitely many.
* `EventSource.drain`: all pending events.
* `EventSource.awaitPress`: the events up to the one that ends a wait for a key.
* `drain_of_none`, `drain_of_some`, `awaitPress_of_endsWait`, `awaitPress_of_not_endsWait`: both take
  the events one at a time.
* `EventSource.Reports`: polls in a row up to the first without an event; `reports_drain`.
* `endsWait_of_passed`, `endsWait_awaitPress`: a wait ends with the first event that can end it.
-/

namespace Chip8

/-- A host that can be polled and waited for. -/
class EventSource (σ : Type) where
  /-- the next pending event, if there is one -/
  poll : σ → Option Event × σ
  /-- the next event, pending or not -/
  await : σ → Event × σ
  /-- a bound on the events that polls in a row report -/
  burst : σ → Nat
  /-- a bound on the events that go by before a wait for a key ends -/
  patience : σ → Nat
  burst_lt : ∀ {s t e}, poll s = (some e, t) → burst t < burst s
  patience_lt : ∀ {s t e}, await s = (e, t) → e.endsWait = false → patience t < patience s

namespace EventSource

variable {σ : Type} [EventSource σ]

/-- All pending events in order, and the source without them. -/
def drain (s : σ) : List Event × σ :=
  match h : poll s with
  | (none, t) => ([], t)
  | (some e, t) =>
    have := burst_lt h
    let rest := drain t
    (e :: rest.1, rest.2)
termination_by burst s

/-- The events that go by in a wait for a key, the event that ends it, and the source after it. -/
def awaitPress (s : σ) : List Event × Event × σ :=
  match h : await s with
  | (e, t) =>
    if ends : e.endsWait then ([], e, t)
    else
      have := patience_lt h (Bool.not_eq_true _ ▸ ends)
      let rest := awaitPress t
      (e :: rest.1, rest.2)
termination_by patience s

theorem drain_of_none {s t : σ} (h : poll s = (none, t)) : drain s = ([], t) := by
  rw [drain]
  split <;> simp_all

theorem drain_of_some {s t : σ} {e : Event} (h : poll s = (some e, t)) :
    drain s = (e :: (drain t).1, (drain t).2) := by
  rw [drain]
  split <;> simp_all

theorem awaitPress_of_endsWait {s t : σ} {e : Event} (h : await s = (e, t)) (he : e.endsWait) :
    awaitPress s = ([], e, t) := by
  rw [awaitPress]
  split
  simp_all

theorem awaitPress_of_not_endsWait {s t : σ} {e : Event} (h : await s = (e, t))
    (he : e.endsWait = false) :
    awaitPress s = (e :: (awaitPress t).1, (awaitPress t).2) := by
  rw [awaitPress]
  split
  simp_all

/-- Polls in a row report events, and then none. -/
inductive Reports : σ → List Event → σ → Prop
  | none {s t : σ} (h : poll s = (.none, t)) : Reports s [] t
  | some {s t u : σ} {e : Event} {events : List Event} (h : poll s = (.some e, t))
    (rest : Reports t events u) : Reports s (e :: events) u

theorem reports_drain (s : σ) : Reports s (drain s).1 (drain s).2 := by
  fun_induction drain s with
  | case1 s t h => exact .none h
  | case2 s e t h _ rest ih => exact .some h ih

theorem endsWait_of_passed {s : σ} {e : Event} (h : e ∈ (awaitPress s).1) : e.endsWait = false := by
  fun_induction awaitPress s with
  | case1 s e' t ha ends => cases h
  | case2 s e' t ha ends _ rest ih =>
    rcases List.mem_cons.1 h with rfl | h
    · exact Bool.not_eq_true _ ▸ ends
    · exact ih h

theorem endsWait_awaitPress (s : σ) : (awaitPress s).2.1.endsWait = true := by
  fun_induction awaitPress s with
  | case1 s e t ha ends => exact ends
  | case2 s e t ha ends _ rest ih => exact ih

end EventSource

end Chip8
