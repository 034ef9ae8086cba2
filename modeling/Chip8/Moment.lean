/-!
# The outside of a cycle

A machine knows time and chance only through what it is handed in each cycle.

* `Moment`: the ticks of the timer that went by before a cycle, and a random byte for it.
-/

namespace Chip8

/-- What comes from outside in one cycle. -/
structure Moment where
  ticks : Nat
  byte : UInt8
  deriving DecidableEq, Repr

end Chip8
