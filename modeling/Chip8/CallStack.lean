import Chip8.Fault

/-!
# The call stack

* `CallStack`: sixteen slots and a pointer that goes down as calls open. The slots below the pointer
  are left over from calls that have returned.
* `CallStack.live`: the return addresses of the open calls, the innermost first.
* `CallStack.push`, `CallStack.pop`: refused when sixteen calls, or none, are open.
* `push_eq_error_iff`, `pop_eq_error_iff`, `live_of_push`, `live_of_pop`: seen through `live`, the
  stack is a list of at most sixteen addresses.
-/

namespace Chip8

/-- Slots for return addresses, and the lowest slot in use. -/
@[ext]
structure CallStack where
  slots : Vector UInt16 16
  sp : Nat
  sp_le : sp ≤ 16
  deriving DecidableEq

namespace CallStack

/-- No call is open. -/
def empty : CallStack := ⟨Vector.replicate 16 0, 16, Nat.le_refl 16⟩

/-- The return addresses of the open calls, the innermost first. -/
def live (s : CallStack) : List UInt16 := s.slots.toList.drop s.sp

/-- The number of open calls. -/
def depth (s : CallStack) : Nat := 16 - s.sp

/-- Opens a call. -/
def push (s : CallStack) (address : UInt16) : Except Fault CallStack :=
  if h : s.sp = 0 then .error .stackOverflow
  else
    have := s.sp_le
    .ok ⟨s.slots.set (s.sp - 1) address, s.sp - 1, by omega⟩

/-- Closes the innermost call and gives its return address. -/
def pop (s : CallStack) : Except Fault (UInt16 × CallStack) :=
  if h : s.sp < 16 then .ok (s.slots[s.sp], ⟨s.slots, s.sp + 1, h⟩) else .error .stackUnderflow

@[simp] theorem live_empty : empty.live = [] := rfl

theorem depth_eq (s : CallStack) : s.depth = 16 - s.sp := rfl

theorem length_live (s : CallStack) : s.live.length = s.depth := by
  simp [live, depth]

/-! ## Opening a call -/

theorem push_eq_error_iff (s : CallStack) (address : UInt16) (f : Fault) :
    s.push address = .error f ↔ s.sp = 0 ∧ f = .stackOverflow := by
  unfold push
  split
  · simp_all [eq_comm]
  · simp_all

theorem sp_of_push {s t : CallStack} {address : UInt16} (h : s.push address = .ok t) :
    t.sp + 1 = s.sp := by
  unfold push at h
  split at h
  · cases h
  · cases h
    exact Nat.sub_add_cancel (Nat.pos_of_ne_zero ‹_›)

/-- An opened call is the innermost one. -/
theorem live_of_push {s t : CallStack} {address : UInt16} (h : s.push address = .ok t) :
    t.live = address :: s.live := by
  unfold push at h
  split at h
  · cases h
  · cases h
    have le := s.sp_le
    simp only [live, Vector.toList_set]
    rw [List.drop_eq_getElem_cons (by simp; omega)]
    simp [List.drop_set_of_lt, Nat.sub_add_cancel (Nat.pos_of_ne_zero ‹_›),
      Nat.sub_lt (Nat.pos_of_ne_zero ‹_›)]

/-! ## Closing a call -/

theorem pop_eq_error_iff (s : CallStack) (f : Fault) :
    s.pop = .error f ↔ s.sp = 16 ∧ f = .stackUnderflow := by
  have := s.sp_le
  unfold pop
  split
  · simp; omega
  · simp [eq_comm (a := f)]; omega

theorem sp_of_pop {s t : CallStack} {address : UInt16} (h : s.pop = .ok (address, t)) :
    t.sp = s.sp + 1 := by
  unfold pop at h
  split at h <;> cases h
  rfl

/-- The innermost call is the one that is closed. -/
theorem live_of_pop {s t : CallStack} {address : UInt16} (h : s.pop = .ok (address, t)) :
    s.live = address :: t.live := by
  unfold pop at h
  split at h <;> cases h
  simp only [live]
  rw [List.drop_eq_getElem_cons (by simpa)]
  simp

end CallStack

end Chip8
