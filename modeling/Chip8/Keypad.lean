import Chip8.EventSource

/-!
# The keypad

* `Held`: which keys are down; `Held.isDown` asks for one key, `Held.keys` lists them.
* `Held.apply`, `Held.after`: the keys that are down after an event, and after several.
* `Keypad`: the keys that are down, and the host that reports further events.
* `Keypad.poll`: takes all pending events and tells whether a quit was among them.
* `Keypad.awaitKey`: waits for a key; there is none if the host quits first.
* `isDown_apply`: an event changes the key it names and no other.
-/

namespace Chip8

/-- Which keys are down. -/
abbrev Held := Vector Bool 16

namespace Held

/-- No key is down. -/
def none : Held := Vector.replicate 16 false

/-- Whether a key is down. -/
def isDown (held : Held) (key : Key) : Bool := held[key]

/-- The keys that are down, in ascending order. -/
def keys (held : Held) : List Key := (List.finRange 16).filter held.isDown

/-- The keys that are down after a key went down or up. -/
def put (held : Held) (key : Key) (down : Bool) : Held := held.set key down

/-- The keys that are down after an event. -/
def apply (held : Held) : Event → Held
  | .keyDown c => (Key.ofHost? c).elim held fun key => held.put key true
  | .keyUp c => (Key.ofHost? c).elim held fun key => held.put key false
  | .quit => held

/-- The keys that are down after several events. -/
def after (held : Held) (events : List Event) : Held := events.foldl apply held

@[simp] theorem isDown_none (key : Key) : none.isDown key = false := by
  simp [none, isDown]

theorem isDown_put (held : Held) (j k : Key) (down : Bool) :
    (held.put j down).isDown k = if k = j then down else held.isDown k := by
  split
  · subst k; simp [isDown, put]
  · simp [isDown, put, Fin.val_ne_of_ne (Ne.symm ‹k ≠ j›)]

theorem isDown_elim_put (held : Held) (c : Char) (k : Key) (down : Bool) :
    ((Key.ofHost? c).elim held fun j => held.put j down).isDown k =
      if c.toLower = k.host then down else held.isDown k := by
  simp only [← Key.ofHost?_eq_some_iff]
  cases Key.ofHost? c with
  | none => simp
  | some j => simp [isDown_put, eq_comm]

/-- A key goes down with a press of its host key, up with a release, and stays as it is with any
other event. -/
theorem isDown_apply (held : Held) (e : Event) (k : Key) :
    (held.apply e).isDown k = match e with
      | .keyDown c => if c.toLower = k.host then true else held.isDown k
      | .keyUp c => if c.toLower = k.host then false else held.isDown k
      | .quit => held.isDown k := by
  cases e with
  | keyDown c => exact isDown_elim_put held c k true
  | keyUp c => exact isDown_elim_put held c k false
  | quit => rfl

@[simp] theorem after_nil (held : Held) : held.after [] = held := rfl

theorem after_append (held : Held) (first last : List Event) :
    held.after (first ++ last) = (held.after first).after last := List.foldl_append

end Held

/-- The keys that are down, and the host. -/
structure Keypad (σ : Type) where
  held : Held
  host : σ

namespace Keypad

variable {σ : Type} [EventSource σ]

/-- A keypad without a key down. -/
def new (host : σ) : Keypad σ := ⟨Held.none, host⟩

/-- Whether the key of a number is down. -/
def isPressed (k : Keypad σ) (key : UInt8) : Except Fault Bool :=
  (Key.ofByte key).map k.held.isDown

/-- Takes all pending events, and tells whether a quit was among them. -/
def poll (k : Keypad σ) : Bool × Keypad σ :=
  let (events, host) := EventSource.drain k.host
  (events.contains .quit, ⟨k.held.after events, host⟩)

/-- Takes events up to a press of a key and gives that key, or none if a quit comes first. -/
def awaitKey (k : Keypad σ) : Option Key × Keypad σ :=
  let (passed, last, host) := EventSource.awaitPress k.host
  (last.pressed?, ⟨(k.held.after passed).apply last, host⟩)

end Keypad

end Chip8
