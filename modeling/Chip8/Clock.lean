import Chip8.Config
import Chip8.DelayTimer
import Chip8.Moment
import Chip8.Noise

/-!
# Simulated time

The clock of the program, which makes the moments that it hands to its machine. A machine takes any
other moments as well.

* `Clock`: nanoseconds since the start, with ticks at the multiples of a period.
* `Clock.reached`: when cycles to come are done, with a pause between any two of them.
* `Clock.moment`: what those cycles get from outside; `Clock.after`: the clock after some of them.
* `Clock.pass`: the clock and a timer some time later; `Clock.untilZero`: when the timer is at zero;
  `Clock.stop`: when the timer has been stopped.
* `ticks_moment`: no tick between two cycles is lost or counted twice.
* `value_stop`: stopping a timer that has begun to tick takes one tick more.
-/

namespace Chip8

/-- Time and random bytes used up so far. -/
structure Clock where
  /-- nanoseconds from tick to tick -/
  period : Nat
  /-- nanoseconds between one cycle and the next -/
  pause : Nat
  /-- nanoseconds since the start -/
  now : Nat := 0
  /-- cycles since the start -/
  cycles : Nat := 0
  deriving DecidableEq, Repr

namespace Clock

/-- Nanoseconds that a cycle takes, without the pause after it. -/
def cycleTime : Nat := 400

/-- A new clock. A rate of zero counts as one, and no period is shorter than a nanosecond. -/
def start (config : Config) : Clock where
  period := max 1 (1000000000 / max 1 config.timerHz)
  pause := 1000 * config.cycleDelay

/-- The ticks up to a time. -/
def ticksUntil (c : Clock) (time : Nat) : Nat := time / c.period

/-- The clock some nanoseconds later. -/
def advance (c : Clock) (time : Nat) : Clock := { c with now := c.now + time }

/-- The clock and a timer some nanoseconds later. -/
def pass (c : Clock) (time : Nat) (t : DelayTimer) : Clock × DelayTimer :=
  (c.advance time, t.elapse (c.ticksUntil (c.now + time) - c.ticksUntil c.now))

/-- The clock and a timer when enough ticks have gone by to bring the timer to zero. -/
def untilZero (c : Clock) (t : DelayTimer) : Clock × DelayTimer :=
  c.pass (t.value.toNat * c.period) t

/-- Nanoseconds from now to the next tick. -/
def untilTick (c : Clock) : Nat := c.period - c.now % c.period

/-- The clock and a timer when the timer has been stopped. The ticker looks at the flag as soon as time
begins to pass, and from then on right after each tick. So at the very start it finds the flag cleared
before any tick; later on the tick it waits for still counts. -/
def stop (c : Clock) (t : DelayTimer) : Clock × DelayTimer :=
  if t.running && c.now != 0 then
    let (c, t) := c.pass c.untilTick t
    (c, t.stop)
  else (c, t.stop)

/-- When `k` cycles from now on are done. -/
def reached (c : Clock) : (k : Nat) → Nat
  | 0 => c.now
  | k + 1 => c.now + k * (cycleTime + c.pause) + cycleTime

/-- What the `k`-th cycle from now on gets. -/
def moment (c : Clock) (k : Nat) : Moment where
  ticks := c.ticksUntil (c.reached (k + 1)) - c.ticksUntil (c.reached k)
  byte := Noise.byte (c.cycles + k)

/-- The clock when `k` cycles are done. -/
def after (c : Clock) (k : Nat) : Clock := { c with now := c.reached k, cycles := c.cycles + k }

/-- The next tick is one tick away. -/
theorem ticksUntil_untilTick {c : Clock} (h : 0 < c.period) :
    c.ticksUntil (c.now + c.untilTick) = c.ticksUntil c.now + 1 := by
  have hm := Nat.div_add_mod c.now c.period
  have hl := Nat.mod_lt c.now h
  have hn : c.now + c.untilTick = c.period * (c.now / c.period + 1) := by
    simp only [untilTick, Nat.mul_add]
    omega
  rw [ticksUntil, hn, Nat.mul_div_cancel_left _ h, ticksUntil]

/-- Stopping a timer that has begun to tick takes one tick more. -/
theorem value_stop {c : Clock} {t : DelayTimer} (h : 0 < c.period) (hr : t.running = true)
    (hn : c.now ≠ 0) : (c.stop t).2.value = DelayTimer.lower t.value 1 := by
  simp [stop, hr, hn, pass, DelayTimer.stop, DelayTimer.value_elapse hr, ticksUntil_untilTick h]

/-- A stopped timer is stopped again without a change. -/
theorem stop_of_stopped (c : Clock) {t : DelayTimer} (h : t.running = false) :
    c.stop t = (c, t) := by
  cases t
  simp_all [stop, DelayTimer.stop]

theorem reached_le (c : Clock) (k : Nat) : c.reached k ≤ c.reached (k + 1) := by
  cases k with
  | zero => simp only [reached]; omega
  | succ k => simp only [reached, Nat.succ_mul]; omega

/-- The ticks before a cycle are those that have gone by since the cycle before it. -/
theorem ticks_moment (c : Clock) (k : Nat) :
    c.ticksUntil (c.reached k) + (c.moment k).ticks = c.ticksUntil (c.reached (k + 1)) := by
  have := Nat.div_le_div_right (c := c.period) (c.reached_le k)
  simp only [moment, ticksUntil] at *
  omega

end Clock

end Chip8
