import Chip8.Fault

/-!
# Keys and events of the host

* `Key`: the sixteen keys of the keypad.
* `Key.host`, `Key.ofHost?`: the left half of a host keyboard laid out like the keypad.

  ```text
  1 2 3 C      1 2 3 4
  4 5 6 D      q w e r
  7 8 9 E      a s d f
  A 0 B F      z x c v
  ```

* `Event`: what the host reports.
* `Event.pressed?`: the key that an event presses; `Event.endsWait`: a wait for a key ends with it.
* `Key.ofHost?_eq_some_iff`: a character stands for the key under its small letter.
-/

namespace Chip8

/-- A key of the keypad. -/
abbrev Key := Fin 16

namespace Key

/-- The host keys of the keys `0` to `F`. -/
def layout : Vector Char 16 :=
  #v['x', '1', '2', '3', 'q', 'w', 'e', 'a', 's', 'd', 'z', 'c', '4', 'r', 'f', 'v']

/-- The host key of a key. -/
def host (key : Key) : Char := layout.get key

/-- The key of a host key, if it has one. Capital letters count as small ones. -/
def ofHost? (c : Char) : Option Key := (List.finRange 16).find? fun k => k.host == c.toLower

/-- The key of a number. -/
def ofByte (key : UInt8) : Except Fault Key :=
  if h : key.toNat < 16 then .ok ⟨key.toNat, h⟩ else .error (.invalidKey key)

/-- The host key of the key of a number. -/
def hostOfByte (key : UInt8) : Except Fault Char := (ofByte key).map host

theorem host_injective {j k : Key} (h : j.host = k.host) : j = k := by
  have : ∀ j k : Key, j.host = k.host → j = k := by decide
  exact this j k h

theorem ofHost?_eq_some_iff {c : Char} {k : Key} : ofHost? c = some k ↔ c.toLower = k.host := by
  constructor
  · intro h
    exact (eq_of_beq (List.find?_some (p := fun k : Key => k.host == c.toLower) h)).symm
  · intro h
    cases found : ofHost? c with
    | none => simp [ofHost?, h] at found; exact absurd rfl (found k)
    | some j =>
      have := eq_of_beq (List.find?_some (p := fun k : Key => k.host == c.toLower) found)
      rw [host_injective (this.trans h)]

end Key

/-- What the host reports. -/
inductive Event
  /-- a host key went down -/
  | keyDown (c : Char)
  /-- a host key went up -/
  | keyUp (c : Char)
  /-- the host asks to quit -/
  | quit
  deriving DecidableEq, Repr

namespace Event

/-- The key that an event presses. -/
def pressed? : Event → Option Key
  | keyDown c => Key.ofHost? c
  | keyUp _ => none
  | quit => none

/-- A wait for a key ends with a press of a key of the keypad, or with a quit. -/
def endsWait (e : Event) : Bool := e == quit || e.pressed?.isSome

@[simp] theorem endsWait_quit : endsWait quit = true := rfl

end Event

end Chip8
