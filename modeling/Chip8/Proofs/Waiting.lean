import Chip8.Keypad
import Chip8.Script

/-!
# Waiting for a key

* `EventSource.Waits`: waits for an event in a row, up to one that ends a wait for a key.
  `awaitPress_of_waits`: a wait for a key is such a row.
* `Event.Passed`: the events that a wait for a key goes past; `Event.isRelease`, the ones among them
  that change a key.
* `Event.Cut`: how a wait for a key cuts the events to come; `exists_cut`, every row of events is cut.
* `Script.Behind`: a script of which some events and the pauses before the last of them are gone.
* `waits_of_cut`: the waits on a script go just as its events are cut.
* **`awaitKey_takes`**: what a wait for a key takes from a script, what it leaves and which key it gives.
-/

namespace Chip8

/-! ## Waits in a row -/

namespace EventSource

variable {σ : Type} [EventSource σ]

/-- Waits for an event in a row: those that go by, and the one that ends a wait for a key. -/
inductive Waits : σ → List Event → Event → σ → Prop
  | ends {s t : σ} {last : Event} (h : await s = (last, t)) (ends : last.endsWait = true) :
    Waits s [] last t
  | passes {s t u : σ} {e last : Event} {events : List Event} (h : await s = (e, t))
    (passes : e.endsWait = false) (rest : Waits t events last u) : Waits s (e :: events) last u

/-- A wait for a key makes these waits and no others. -/
theorem awaitPress_of_waits {s t : σ} {passed : List Event} {last : Event}
    (h : Waits s passed last t) : awaitPress s = (passed, last, t) := by
  induction h with
  | ends h ends => exact awaitPress_of_endsWait h ends
  | passes h passes _ ih => rw [awaitPress_of_not_endsWait h passes, ih]

end EventSource

/-! ## Events that a wait goes past -/

namespace Event

/-- Neither a quit nor a press of a key of the keypad. -/
def Passed (e : Event) : Prop :=
  e ≠ quit ∧ ∀ c, e = keyDown c → ∀ key : Key, c.toLower ≠ key.host

/-- A key of the host is let go, whether it is one of the keypad or not. -/
def isRelease : Event → Bool
  | keyDown _ => false
  | keyUp _ => true
  | quit => false

theorem pressed?_eq_some_iff {c : Char} {key : Key} :
    (keyDown c).pressed? = some key ↔ c.toLower = key.host := Key.ofHost?_eq_some_iff

theorem Passed.ofHost?_eq_none {c : Char} (h : (keyDown c).Passed) : Key.ofHost? c = none := by
  rw [Option.eq_none_iff_forall_ne_some]
  intro key named
  exact h.2 c rfl key (Key.ofHost?_eq_some_iff.1 named)

theorem Passed.endsWait_eq_false {e : Event} (h : e.Passed) : e.endsWait = false := by
  cases e with
  | keyDown c =>
    have none : (keyDown c).pressed? = none := h.ofHost?_eq_none
    rw [endsWait, none]
    rfl
  | keyUp c => rfl
  | quit => exact absurd rfl h.1

theorem endsWait_of_press {c : Char} {key : Key} (h : c.toLower = key.host) :
    (keyDown c).endsWait = true := by
  rw [endsWait, pressed?_eq_some_iff.2 h]
  rfl

/-- How a wait for a key cuts a row of events: those that it goes past, the one that ends it, the key
that this one gives, and those that it leaves. -/
inductive Cut : List Event → List Event → Event → Option Key → List Event → Prop
  /-- a key is pressed -/
  | press {passed rest : List Event} {c : Char} {key : Key} (quiet : ∀ e ∈ passed, e.Passed)
    (named : c.toLower = key.host) :
    Cut (passed ++ keyDown c :: rest) passed (keyDown c) (some key) rest
  /-- the host quits before a key is pressed -/
  | quit {passed rest : List Event} (quiet : ∀ e ∈ passed, e.Passed) :
    Cut (passed ++ quit :: rest) passed quit none rest
  /-- neither happens, and the quit is made up -/
  | spent {passed : List Event} (quiet : ∀ e ∈ passed, e.Passed) : Cut passed passed quit none []

theorem Cut.cons {e last : Event} {events passed rest : List Event} {key? : Option Key}
    (h : Cut events passed last key? rest) (he : e.Passed) :
    Cut (e :: events) (e :: passed) last key? rest := by
  cases h with
  | press quiet named => exact .press (List.forall_mem_cons.2 ⟨he, quiet⟩) named
  | quit quiet => exact .quit (List.forall_mem_cons.2 ⟨he, quiet⟩)
  | spent quiet => exact .spent (List.forall_mem_cons.2 ⟨he, quiet⟩)

theorem exists_cut (events : List Event) :
    ∃ passed last key? rest, Cut events passed last key? rest := by
  have at_once : ∀ e ∈ ([] : List Event), e.Passed := fun _ mem => absurd mem List.not_mem_nil
  induction events with
  | nil => exact ⟨[], quit, none, [], .spent at_once⟩
  | cons e events ih =>
    obtain ⟨passed, last, key?, rest, cut⟩ := ih
    cases e with
    | keyDown c =>
      by_cases named : ∃ key : Key, c.toLower = key.host
      · obtain ⟨key, named⟩ := named
        exact ⟨[], keyDown c, some key, events, .press at_once named⟩
      · refine ⟨_, last, key?, rest, cut.cons ⟨nofun, ?_⟩⟩
        rintro _ ⟨⟩ key eq
        exact named ⟨key, eq⟩
    | keyUp c => exact ⟨_, last, key?, rest, cut.cons ⟨nofun, nofun⟩⟩
    | quit => exact ⟨[], quit, none, events, .quit at_once⟩

end Event

/-- Of the events that a wait goes past only the releases change a key. -/
theorem Held.after_of_passed (held : Held) {passed : List Event} (h : ∀ e ∈ passed, e.Passed) :
    held.after passed = held.after (passed.filter Event.isRelease) := by
  induction passed generalizing held with
  | nil => rfl
  | cons e passed ih =>
    obtain ⟨he, quiet⟩ := List.forall_mem_cons.1 h
    cases e with
    | keyDown c =>
      have same : held.apply (.keyDown c) = held := by
        rw [apply, he.ofHost?_eq_none]
        rfl
      rw [List.filter_cons_of_neg Bool.false_ne_true, ← ih held quiet]
      exact congrArg (after · passed) same
    | keyUp c =>
      rw [List.filter_cons_of_pos rfl]
      exact ih _ quiet
    | quit => exact absurd rfl he.1

/-! ## Waits on a script -/

namespace Script

/-- The events to come, cut by the pauses. -/
def chunks (s : Script) : List (List Event) := s.current :: s.later

/-- Some first events of a script are gone, and the pauses before the last of them. Other pauses are gone
only if all events are. -/
def Behind (s t : Script) : Prop :=
  ∃ gone first, s.chunks = gone ++ (first ++ t.current) :: t.later ∧ (first = [] → t = ⟨[], []⟩)

theorem Behind.trans {s t u : Script} (h : s.Behind t) (h' : t.Behind u) : s.Behind u := by
  obtain ⟨gone, first, eq, -⟩ := h
  obtain ⟨gone', first', eq', past⟩ := h'
  cases gone' with
  | nil =>
    obtain ⟨current, later⟩ := List.cons.inj eq'
    refine ⟨gone, first ++ first', ?_, fun none => past (List.append_eq_nil_iff.1 none).2⟩
    rw [eq, current, later, List.append_assoc]
  | cons chunk gone' =>
    obtain ⟨rfl, later⟩ := List.cons.inj eq'
    refine ⟨gone ++ (first ++ t.current) :: gone', first', ?_, past⟩
    rw [eq, later, List.append_assoc]
    rfl

theorem behind_of_awaitFrom (current : List Event) (later : List (List Event)) :
    (⟨current, later⟩ : Script).Behind (awaitFrom current later).2 := by
  fun_induction awaitFrom current later with
  | case1 e current later => exact ⟨[], [e], rfl, fun none => absurd none (List.cons_ne_nil _ _)⟩
  | case2 chunk later ih =>
    obtain ⟨gone, first, eq, past⟩ := ih
    exact ⟨[] :: gone, first, congrArg (List.cons []) eq, past⟩
  | case3 => exact ⟨[], [], rfl, fun _ => rfl⟩

theorem behind_of_await {s t : Script} {e : Event} (h : s.await = (e, t)) : s.Behind t := by
  have behind := behind_of_awaitFrom s.current s.later
  rw [show awaitFrom s.current s.later = (e, t) from h] at behind
  exact behind

theorem await_of_cons {s : Script} {e : Event} {events : List Event} (h : s.events = e :: events) :
    ∃ t, s.await = (e, t) ∧ t.events = events := by
  have next := events_of_await (show s.await = (s.await.1, s.await.2) from rfl)
  rw [h] at next
  obtain eq | ⟨none, -⟩ := next
  · obtain ⟨first, rest⟩ := List.cons.inj eq
    exact ⟨s.await.2, Prod.ext first.symm rfl, rest.symm⟩
  · cases none

theorem await_of_nil {s : Script} (h : s.events = []) :
    ∃ t, s.await = (.quit, t) ∧ t.events = [] := by
  have next := events_of_await (show s.await = (s.await.1, s.await.2) from rfl)
  rw [h] at next
  obtain eq | ⟨-, none, quit⟩ := next
  · cases eq
  · exact ⟨s.await.2, Prod.ext quit rfl, none⟩

/-- Waits go past events that end no wait, and end with the first one behind them. -/
theorem waits_of_next {s : Script} {passed left rest : List Event} {last : Event}
    (quiet : ∀ e ∈ passed, e.Passed) (events : s.events = passed ++ left)
    (ends : last.endsWait = true)
    (next : ∀ t : Script, t.events = left → ∃ u, t.await = (last, u) ∧ u.events = rest) :
    ∃ t, EventSource.Waits s passed last t ∧ s.Behind t ∧ t.events = rest := by
  induction passed generalizing s with
  | nil =>
    obtain ⟨t, awaited, after⟩ := next s events
    exact ⟨t, .ends awaited ends, behind_of_await awaited, after⟩
  | cons e passed ih =>
    obtain ⟨he, quiet⟩ := List.forall_mem_cons.1 quiet
    obtain ⟨s', first, events⟩ := await_of_cons events
    obtain ⟨t, waits, behind, after⟩ := ih quiet events
    exact ⟨t, .passes first he.endsWait_eq_false waits, (behind_of_await first).trans behind, after⟩

/-- The waits on a script go as its events are cut. -/
theorem waits_of_cut {s : Script} {passed rest : List Event} {last : Event} {key? : Option Key}
    (cut : Event.Cut s.events passed last key? rest) :
    ∃ t, EventSource.Waits s passed last t ∧ s.Behind t ∧ t.events = rest := by
  generalize events : s.events = all at cut
  cases cut with
  | press quiet named =>
    exact waits_of_next quiet events (Event.endsWait_of_press named) fun t => await_of_cons
  | quit quiet => exact waits_of_next quiet events rfl fun t => await_of_cons
  | spent quiet =>
    rw [← List.append_nil passed] at events
    exact waits_of_next quiet events rfl fun t => await_of_nil

end Script

/-! ## A wait for a key -/

/-- The keys after a wait: those that were released meanwhile are up, and the key that the wait gives is
down. -/
def Held.waited (held : Held) (passed : List Event) (key? : Option Key) : Held :=
  let left := held.after (passed.filter Event.isRelease)
  key?.elim left fun key => left.put key true

theorem Event.Cut.held {events passed rest : List Event} {last : Event} {key? : Option Key}
    (cut : Cut events passed last key? rest) (held : Held) :
    last.pressed? = key? ∧ (held.after passed).apply last = held.waited passed key? := by
  cases cut with
  | press quiet named =>
    refine ⟨pressed?_eq_some_iff.2 named, ?_⟩
    rw [held.after_of_passed quiet, Held.apply, Key.ofHost?_eq_some_iff.2 named]
    rfl
  | quit quiet => exact ⟨rfl, held.after_of_passed quiet⟩
  | spent quiet => exact ⟨rfl, held.after_of_passed quiet⟩

theorem Keypad.awaitKey_of_waits {σ : Type} [EventSource σ] {s t : σ} {passed : List Event}
    {last : Event} (h : EventSource.Waits s passed last t) (held : Held) :
    (Keypad.mk held s).awaitKey = (last.pressed?, ⟨(held.after passed).apply last, t⟩) := by
  rw [awaitKey, EventSource.awaitPress_of_waits h]

/-- **What a wait for a key takes.** The events of a script are cut in one of three ways: by the press of a
key, by a quit that comes before any, or by neither. A wait takes the events up to that press or quit, one
after the other, and leaves the others in their order, with the pauses between them. It gives the key that
was pressed, and none if the host quits. The releases that it goes past count, then the key is down. -/
theorem Keypad.awaitKey_takes (held : Held) (s : Script) :
    (∃ passed last key? rest, Event.Cut s.events passed last key? rest) ∧
      ∀ passed last key? rest, Event.Cut s.events passed last key? rest →
        ∃ t, EventSource.Waits s passed last t ∧ s.Behind t ∧ t.events = rest ∧
          (Keypad.mk held s).awaitKey = (key?, ⟨held.waited passed key?, t⟩) ∧
            ∀ key, key? = some key → (held.waited passed key?).isDown key = true := by
  refine ⟨Event.exists_cut s.events, fun passed last key? rest cut => ?_⟩
  obtain ⟨t, waits, behind, left⟩ := Script.waits_of_cut cut
  obtain ⟨pressed, keys⟩ := cut.held held
  refine ⟨t, waits, behind, left, ?_, ?_⟩
  · rw [awaitKey_of_waits waits, pressed, keys]
  · rintro key rfl
    exact (Held.isDown_put _ _ _ _).trans (if_pos rfl)

/-- A key that is down already ends a wait. Its press is behind a pause and in a capital letter, and a key
is released before it. -/
theorem Keypad.awaitKey_takes_again : ∃ held key t, held = Held.none.after [.keyDown 'v', .keyDown 'x'] ∧
    key.host = 'v' ∧ t.events = [.quit] ∧
      (Keypad.mk held (Script.ofChunks [[.keyDown 'p', .keyUp 'x'], [.keyDown 'V', .quit]])).awaitKey =
        (some key, ⟨(held.after [.keyUp 'x']).put key true, t⟩) := by
  let script := Script.ofChunks [[.keyDown 'p', .keyUp 'x'], [.keyDown 'V', .quit]]
  obtain ⟨key, named⟩ : ∃ key : Key, key.host = 'v' := by decide
  have quiet : ∀ e ∈ [Event.keyDown 'p', .keyUp 'x'], e.Passed := by
    have other : ∀ key : Key, 'p'.toLower ≠ key.host := by decide
    rw [List.forall_mem_cons, List.forall_mem_singleton]
    refine ⟨⟨nofun, ?_⟩, nofun, nofun⟩
    rintro _ ⟨⟩
    exact other
  have cut : Event.Cut script.events _ _ _ [.quit] :=
    .press quiet (show 'V'.toLower = key.host by rw [named]; decide)
  obtain ⟨t, -, -, left, waited, -⟩ := (awaitKey_takes (Held.none.after _) script).2 _ _ _ _ cut
  exact ⟨_, key, t, rfl, named, left, waited⟩

end Chip8
