import Chip8.DelayTimer

/-!
# A timer and its ticker

A ticker of its own lowers the count while the owner of the timer sets and reads it. What either side
does in one go is an action; the actions of both come in any order that their loops allow.

* `Ticker.Phase`: the ticker looks at the flag, then lowers the count once, and so on until it finds
  the flag cleared.
* `Ticker.State`: the shared count and flag, the ticker's phase, and whether the owner waits for the
  ticker to finish.
* `Ticker.Action`: what either side does in one go. Stopping is `clear` and then `join`.
* `Ticker.step`: the effect of an action where it is possible.
* `Ticker.play`: the effect of actions in a row.
* `play_append`: a row of actions can be cut anywhere.
-/

namespace Chip8.Ticker

/-- Where the ticker stands in its loop. -/
inductive Phase
  /-- about to look at the flag -/
  | checking
  /-- about to lower the count -/
  | due
  /-- out of the loop -/
  | finished
  deriving DecidableEq, Repr

/-- The shared count and flag, and where both sides stand. -/
@[ext]
structure State where
  count : UInt8
  running : Bool
  phase : Phase
  /-- the owner has cleared the flag and waits for the ticker -/
  joining : Bool
  deriving DecidableEq, Repr

/-- What one side does in one go. -/
inductive Action
  /-- the ticker looks at the flag -/
  | check
  /-- the ticker lowers a count above zero -/
  | tick
  /-- the owner sets the count -/
  | set (n : UInt8)
  /-- the owner reads the count -/
  | get (n : UInt8)
  /-- the owner clears the flag -/
  | clear
  /-- the owner finds the ticker finished -/
  | join
  deriving DecidableEq, Repr

/-- A timer that has just been made. -/
def start : State := ⟨0, true, .checking, false⟩

/-- The effect of an action, if it is possible. While the owner waits for the ticker it does nothing
else. -/
def step (s : State) : Action → Option State
  | .check =>
    if s.phase = .checking then some { s with phase := if s.running then .due else .finished }
    else none
  | .tick =>
    if s.phase = .due then some { s with count := DelayTimer.lower s.count 1, phase := .checking }
    else none
  | .set n => if s.joining then none else some { s with count := n }
  | .get n => if s.joining = false ∧ s.count = n then some s else none
  | .clear => if s.joining then none else some { s with running := false, joining := true }
  | .join => if s.joining = true ∧ s.phase = .finished then some { s with joining := false } else none

/-- The effect of actions in a row, if each of them is possible in its turn. -/
def play (s : State) (actions : List Action) : Option State := actions.foldlM step s

@[simp] theorem play_nil (s : State) : play s [] = some s := rfl

theorem play_cons (s : State) (a : Action) (actions : List Action) :
    play s (a :: actions) = (step s a).bind fun t => play t actions := rfl

theorem play_append (s : State) (first last : List Action) :
    play s (first ++ last) = (play s first).bind fun t => play t last := by
  simp [play, List.foldlM_append]

end Chip8.Ticker
