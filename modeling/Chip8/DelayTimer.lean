/-!
# The delay timer

* `DelayTimer`: a count that goes down by one with each tick until it is zero. A stopped timer takes
  no further tick.
* `DelayTimer.lower`: a count some ticks later.
* `DelayTimer.set`, `DelayTimer.elapse`, `DelayTimer.stop`.
* `toNat_lower`: after `k` ticks a count of `n` is `n - min n k`; `elapse_elapse`: ticks add up.
-/

namespace Chip8

/-- A count and whether it still goes down. -/
@[ext]
structure DelayTimer where
  value : UInt8
  running : Bool
  deriving DecidableEq, Repr

namespace DelayTimer

/-- A running timer at zero. -/
def new : DelayTimer := ⟨0, true⟩

/-- Starts counting from `n`. -/
def set (t : DelayTimer) (n : UInt8) : DelayTimer := { t with value := n }

/-- A count `ticks` ticks later. -/
def lower (n : UInt8) (ticks : Nat) : UInt8 := UInt8.ofNat (n.toNat - ticks)

/-- Lets `ticks` ticks go by. -/
def elapse (t : DelayTimer) (ticks : Nat) : DelayTimer :=
  if t.running then { t with value := lower t.value ticks } else t

/-- A timer whose ticking has ended; the count stays where it is. -/
def stop (t : DelayTimer) : DelayTimer := { t with running := false }

theorem toNat_lower (n : UInt8) (k : Nat) : (lower n k).toNat = n.toNat - min n.toNat k := by
  have := n.toNat_lt
  simp only [lower, UInt8.toNat_ofNat']
  omega

@[simp] theorem lower_zero (n : UInt8) : lower n 0 = n := by simp [lower]

/-- Ticks add up. -/
theorem lower_lower (n : UInt8) (j k : Nat) : lower (lower n j) k = lower n (j + k) := by
  rw [← UInt8.toNat_inj, toNat_lower, toNat_lower, toNat_lower]
  omega

theorem value_elapse {t : DelayTimer} (h : t.running = true) (k : Nat) :
    (t.elapse k).value = lower t.value k := by
  simp [elapse, h]

@[simp] theorem running_elapse (t : DelayTimer) (k : Nat) : (t.elapse k).running = t.running := by
  unfold elapse
  split <;> rfl

theorem elapse_of_stopped {t : DelayTimer} (h : t.running = false) (k : Nat) : t.elapse k = t := by
  simp [elapse, h]

@[simp] theorem elapse_zero (t : DelayTimer) : t.elapse 0 = t := by
  simp [elapse]

/-- Ticks add up. -/
theorem elapse_elapse (t : DelayTimer) (j k : Nat) :
    (t.elapse j).elapse k = t.elapse (j + k) := by
  cases h : t.running <;> simp [elapse, h, lower_lower]

end DelayTimer

end Chip8
