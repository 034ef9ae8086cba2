import Chip8.EventSource.Log
import Chip8.Keypad
import Chip8.Script
import Mathlib.Data.List.Induction

/-!
# The history of a keypad

* `Event.moves`: whether an event is about a host key; `isDown_after`: the last such event decides
  whether its key is down.
* `EventSource.Keeps`: what polls and waits of a host keep. `keeps_calls`: polls and waits of a keypad
  keep it as well.
* `Keypad.Call`, `Keypad.calls`: polls and waits of a keypad in any order; `Keypad.taken`: the events
  that they take from the host.
* `unlogged_calls`, `held_calls`: a log of these events changes nothing, and they tell which keys are
  down.
* `Script.Played`, `played_calls`: what was taken of a script, and what is still to come.
* **`isPressed_iff_taken`**: which keys are down, told by the events that were taken.
-/

namespace Chip8

/-! ## Events of a key -/

namespace Event

/-- Whether an event is about a host key. Capital letters count as small ones. -/
def moves (host : Char) : Event → Bool
  | keyDown c => c.toLower == host
  | keyUp c => c.toLower == host
  | quit => false

end Event

theorem Key.host_lt (key : Key) : key.host.toNat < 128 := by
  revert key
  decide

/-- Only ASCII characters stand for keys. -/
theorem Key.toLower_ne_host {c : Char} (h : 128 ≤ c.toNat) (key : Key) : c.toLower ≠ key.host := by
  have same : c.toLower = c := by
    unfold Char.toLower
    rw [dif_neg]
    rintro ⟨_, upper⟩
    have le : c.val.toNat ≤ 90 := UInt32.le_iff_toNat_le.1 upper
    change 128 ≤ c.val.toNat at h
    omega
  have lt := key.host_lt
  intro eq
  rw [← eq, same] at lt
  omega

namespace Held

theorem isDown_apply_of_moves {held : Held} {e : Event} {key : Key} (h : e.moves key.host = true) :
    (held.apply e).isDown key = true ↔ ∃ c, e = .keyDown c := by
  rw [isDown_apply]
  cases e with
  | keyDown c =>
    have named : c.toLower = key.host := eq_of_beq h
    simp [named]
  | keyUp c =>
    have named : c.toLower = key.host := eq_of_beq h
    simp [named]
  | quit => cases h

/-- Events of other host keys, and of characters that are none, change nothing. -/
theorem isDown_apply_of_not_moves {held : Held} {e : Event} {key : Key}
    (h : e.moves key.host = false) : (held.apply e).isDown key = held.isDown key := by
  rw [isDown_apply]
  cases e with
  | keyDown c => exact if_neg (ne_of_beq_false h)
  | keyUp c => exact if_neg (ne_of_beq_false h)
  | quit => rfl

theorem apply_of_not_moves {held : Held} {e : Event}
    (h : ∀ key : Key, e.moves key.host = false) : held.apply e = held :=
  Vector.ext fun i lt => isDown_apply_of_not_moves (h ⟨i, lt⟩)

/-- A key is down if the last event of its host key was a press. -/
theorem isDown_after (events : List Event) (key : Key) :
    (none.after events).isDown key = true ↔
      ∃ c, (events.filter (Event.moves key.host)).getLast? = some (.keyDown c) := by
  -- the last event decides, so the induction takes events off the end
  induction events using List.reverseRecOn with
  | nil => simp
  | append_singleton events e ih =>
    have last : none.after (events ++ [e]) = (none.after events).apply e := after_append _ _ _
    rw [last, List.filter_append]
    cases h : e.moves key.host with
    | true =>
      rw [isDown_apply_of_moves h, List.filter_cons_of_pos h, List.filter_nil, List.getLast?_concat]
      simp only [Option.some.injEq]
    | false =>
      rw [isDown_apply_of_not_moves h, ih, List.filter_cons_of_neg (by simp [h]), List.filter_nil,
        List.append_nil]

end Held

/-! ## Polls and waits -/

namespace EventSource

variable {σ : Type} [EventSource σ]

/-- A property of hosts that polls and waits keep. -/
structure Keeps (P : σ → Prop) : Prop where
  poll : ∀ {s t : σ} {e? : Option Event}, P s → EventSource.poll s = (e?, t) → P t
  await : ∀ {s t : σ} {e : Event}, P s → EventSource.await s = (e, t) → P t

theorem Keeps.drain {P : σ → Prop} (keeps : Keeps P) {s : σ} (h : P s) : P (drain s).2 := by
  fun_induction EventSource.drain s with
  | case1 s t polled => exact keeps.poll h polled
  | case2 s e t polled _ rest ih => exact ih (keeps.poll h polled)

theorem Keeps.awaitPress {P : σ → Prop} (keeps : Keeps P) {s : σ} (h : P s) :
    P (awaitPress s).2.2 := by
  fun_induction EventSource.awaitPress s with
  | case1 s e t awaited ends => exact keeps.await h awaited
  | case2 s e t awaited ends _ rest ih => exact ih (keeps.await h awaited)

end EventSource

namespace Keypad

/-- A way to take events from the host. -/
inductive Call
  /-- all pending events -/
  | poll
  /-- the events up to a press of a key or a quit -/
  | wait
  deriving DecidableEq, Repr

variable {σ : Type} [EventSource σ]

/-- The keypad after a poll or a wait. What these reported is left out. -/
def call (k : Keypad σ) : Call → Keypad σ
  | .poll => k.poll.2
  | .wait => k.awaitKey.2

/-- The keypad after polls and waits in a row. -/
def calls (k : Keypad σ) (cs : List Call) : Keypad σ := cs.foldl call k

/-- The same keypad on a host that keeps a log. -/
def logged (k : Keypad σ) : Keypad (Logged σ) := ⟨k.held, ⟨[], k.host⟩⟩

/-- A keypad without the log of its host. -/
def unlogged (k : Keypad (Logged σ)) : Keypad σ := ⟨k.held, k.host.host⟩

/-- The events that polls and waits in a row take from the host, in order. -/
def taken (k : Keypad σ) (cs : List Call) : List Event := (k.logged.calls cs).host.log

theorem keeps_call {P : σ → Prop} (keeps : EventSource.Keeps P) {k : Keypad σ} (h : P k.host)
    (c : Call) : P (k.call c).host := by
  cases c with
  | poll => exact keeps.drain h
  | wait => exact keeps.awaitPress h

/-- What polls and waits of a host keep, those of a keypad keep. -/
theorem keeps_calls {P : σ → Prop} (keeps : EventSource.Keeps P) {k : Keypad σ} (h : P k.host)
    (cs : List Call) : P (k.calls cs).host := by
  induction cs generalizing k with
  | nil => exact h
  | cons c cs ih => exact ih (keeps_call keeps h c)

/-- A poll or a wait does the same on both hosts, and applies just the events that it logs. -/
theorem call_logged (k : Keypad (Logged σ)) (c : Call) :
    (k.call c).unlogged = k.unlogged.call c ∧
      ∃ events, (k.call c).host.log = k.host.log ++ events ∧
        (k.call c).held = k.held.after events := by
  cases c with
  | poll =>
    simp only [call, poll, unlogged, EventSource.drain_logged]
    exact ⟨trivial, _, rfl, rfl⟩
  | wait =>
    simp only [call, awaitKey, unlogged, EventSource.awaitPress_logged, List.append_assoc]
    refine ⟨trivial, _, rfl, ?_⟩
    rw [Held.after_append]
    rfl

theorem calls_logged (k : Keypad (Logged σ)) (cs : List Call) :
    (k.calls cs).unlogged = k.unlogged.calls cs ∧
      ∃ events, (k.calls cs).host.log = k.host.log ++ events ∧
        (k.calls cs).held = k.held.after events := by
  induction cs generalizing k with
  | nil => exact ⟨rfl, [], (List.append_nil _).symm, rfl⟩
  | cons c cs ih =>
    obtain ⟨same, first, log, held⟩ := k.call_logged c
    obtain ⟨same', rest, log', held'⟩ := ih (k.call c)
    refine ⟨same'.trans (congrArg (calls · cs) same), first ++ rest, ?_, ?_⟩
    · rw [calls, List.foldl_cons, ← calls, log', log, List.append_assoc]
    · rw [calls, List.foldl_cons, ← calls, held', held, Held.after_append]

theorem unlogged_calls (k : Keypad σ) (cs : List Call) :
    (k.logged.calls cs).unlogged = k.calls cs := (calls_logged k.logged cs).1

theorem held_calls (k : Keypad σ) (cs : List Call) :
    (k.calls cs).held = k.held.after (k.taken cs) := by
  obtain ⟨same, events, log, held⟩ := calls_logged k.logged cs
  have all : k.taken cs = events := log
  rw [all, ← unlogged_calls]
  exact held

end Keypad

/-! ## Scripts -/

namespace Script

/-- What was taken of a script, apart from the quits that are made up once it is used up, and what is
still to come are the script. -/
def Played (script taken left : List Event) : Prop :=
  ∃ (real : List Event) (made : Nat), taken = real ++ List.replicate made .quit ∧
    real ++ left = script ∧ (0 < made → left = [])

variable {script taken left : List Event}

theorem Played.event {e : Event} (h : Played script taken (e :: left)) :
    Played script (taken ++ [e]) left := by
  obtain ⟨real, made, rfl, whole, spent⟩ := h
  -- no quit is made up while there are events
  obtain rfl : made = 0 := by
    by_contra some
    cases spent (Nat.pos_of_ne_zero some)
  refine ⟨real ++ [e], 0, ?_, ?_, fun pos => absurd pos (Nat.lt_irrefl 0)⟩
  · rw [List.replicate_zero, List.append_nil, List.append_nil]
  · rw [← whole, List.append_assoc, List.singleton_append]

theorem Played.spent (h : Played script taken []) : Played script (taken ++ [.quit]) [] := by
  obtain ⟨real, made, rfl, whole, -⟩ := h
  refine ⟨real, made + 1, ?_, whole, fun _ => rfl⟩
  rw [List.append_assoc, ← List.replicate_succ']

theorem keeps_played (script : List Event) :
    EventSource.Keeps fun s : Logged Script => Played script s.log s.host.events where
  poll {s t e?} h polled := by
    change EventSource.pollLogged s = (e?, t) at polled
    unfold EventSource.pollLogged at polled
    split at polled
    · next host none =>
      cases polled
      rw [events_of_poll_none none]
      exact h
    · next e host some =>
      cases polled
      rw [events_of_poll some] at h
      exact h.event
  await {s t e} h awaited := by
    cases awaited
    change Played script (s.log ++ [s.host.await.1]) s.host.await.2.events
    have next := events_of_await (show s.host.await = (s.host.await.1, s.host.await.2) from rfl)
    rcases next with first | ⟨spent, left, quit⟩
    · rw [first] at h
      exact h.event
    · rw [spent] at h
      rw [left, quit]
      exact h.spent

end Script

namespace Keypad

theorem played_calls (script : Script) (cs : List Call) :
    Script.Played script.events ((new script).taken cs) ((new script).calls cs).host.events := by
  have start : Script.Played script.events [] script.events :=
    ⟨[], 0, rfl, rfl, fun pos => absurd pos (Nat.lt_irrefl 0)⟩
  rw [← unlogged_calls]
  exact keeps_calls (k := (new script).logged) (Script.keeps_played script.events) start cs

/-! ## Numbers that stand for keys -/

variable {σ : Type}

theorem isPressed_of_le (k : Keypad σ) {number : UInt8} (h : number.toNat ≤ 0xF) :
    ∃ key : Key, Key.hostOfByte number = .ok key.host ∧
      k.isPressed number = .ok (k.held.isDown key) := by
  have known : Key.ofByte number = .ok ⟨number.toNat, Nat.lt_succ_of_le h⟩ := dif_pos _
  refine ⟨⟨number.toNat, Nat.lt_succ_of_le h⟩, ?_, ?_⟩
  · rw [Key.hostOfByte, known]
    rfl
  · rw [isPressed, known]
    rfl

theorem isPressed_of_lt (k : Keypad σ) {number : UInt8} (h : 0xF < number.toNat) :
    Key.hostOfByte number = .error (.invalidKey number) ∧
      k.isPressed number = .error (.invalidKey number) := by
  have refused : Key.ofByte number = .error (.invalidKey number) := dif_neg (Nat.not_lt.2 h)
  rw [Key.hostOfByte, isPressed, refused]
  exact ⟨rfl, rfl⟩

/-- **The keys that are down are told by the events that were taken.** After polls and waits in any
order a key is down if the last event of its host key was a press. Quits and events of other
characters change no key. Of a script no event is lost, doubled or moved. -/
theorem isPressed_iff_taken [EventSource σ] (host : σ) (cs : List Call) :
    ((new host).logged.calls cs).unlogged = (new host).calls cs ∧
    (∀ number : UInt8, number.toNat ≤ 0xF → ∃ (name : Char) (down : Bool),
      Key.hostOfByte number = .ok name ∧ ((new host).calls cs).isPressed number = .ok down ∧
        (down = true ↔ ∃ c,
          (((new host).taken cs).filter (Event.moves name)).getLast? = some (.keyDown c))) ∧
    (∀ number : UInt8, 0xF < number.toNat → Key.hostOfByte number = .error (.invalidKey number) ∧
      ((new host).calls cs).isPressed number = .error (.invalidKey number)) ∧
    (∀ e : Event, (∀ key : Key, e.moves key.host = false) → ∀ held : Held, held.apply e = held) ∧
    (∀ key : Key, Event.quit.moves key.host = false ∧ ∀ c : Char, 128 ≤ c.toNat →
      (Event.keyDown c).moves key.host = false ∧ (Event.keyUp c).moves key.host = false) ∧
    ∀ script : List Event, Script.Played script ((new (Script.ofEvents script)).taken cs)
      ((new (Script.ofEvents script)).calls cs).host.events := by
  refine ⟨unlogged_calls _ _, fun number le => ?_, fun number => isPressed_of_lt _,
    fun e still held => Held.apply_of_not_moves still, fun key => ⟨rfl, fun c le => ?_⟩,
    fun script => ?_⟩
  · obtain ⟨key, named, pressed⟩ := ((new host).calls cs).isPressed_of_le le
    refine ⟨key.host, _, named, pressed, ?_⟩
    rw [held_calls]
    exact Held.isDown_after _ key
  · have other : (c.toLower == key.host) = false := beq_false_of_ne (Key.toLower_ne_host le key)
    exact ⟨other, other⟩
  · have played := played_calls (Script.ofEvents script) cs
    rw [Script.events_ofEvents] at played
    exact played

end Keypad

end Chip8
