/-!
# Settings

* `Config`: how fast the machine and its timer go, and how large a pixel is shown.
-/

namespace Chip8

/-- Settings of a session, with their usual values. -/
structure Config where
  /-- the pause after each instruction, in microseconds -/
  cycleDelay : Nat := 2000
  /-- host pixels along the edge of a pixel of the screen -/
  scale : Nat := 10
  /-- ticks of the delay timer in a second -/
  timerHz : Nat := 60
  deriving DecidableEq, Repr

end Chip8
