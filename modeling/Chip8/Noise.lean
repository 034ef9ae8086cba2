/-!
# Random bytes

The random bytes of the program's moments.

* `Noise.byte`: the `k`-th byte of a fixed stream that looks random. The counter is multiplied by an
  odd constant and its bits are then mixed three times.
-/

namespace Chip8.Noise

/-- Spreads the bits of a word: high bits are folded into low ones and multiplied up again. -/
def mix (shift factor z : UInt64) : UInt64 := (z ^^^ (z >>> shift)) * factor

/-- The `k`-th random byte. -/
def byte (k : Nat) : UInt8 :=
  let z := (UInt64.ofNat k + 1) * 0x9E3779B97F4A7C15
  (mix 31 1 (mix 27 0x94D049BB133111EB (mix 30 0xBF58476D1CE4E5B9 z)) >>> 56).toUInt8

end Chip8.Noise
