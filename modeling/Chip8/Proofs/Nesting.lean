import Chip8.Proofs.Hidden

/-!
# The call stack as a list

* `CallStack.Access`: what is asked of the call stack from outside; `Access.request`, what a machine is
  asked for by it.
* `Access.onList`, `Access.allOnList`: what a list of at most sixteen addresses replies, and what is left
  of it.
* `Machine.push_eq_error_iff`, `Machine.pop_eq_error_iff`: when a push and a pop are refused;
  `slots_of_push`, `slots_of_pop`: what they do to the slots otherwise.
* `answer_of_live`: a machine replies as the list of its open calls does; `answers_of_live`, so it does to
  several requests in a row.
* **`stack_is_list`**: all of this together.
-/

namespace Chip8

namespace CallStack

/-- What is asked of the call stack from outside. -/
inductive Access
  | push (address : UInt16)
  | pop
  deriving DecidableEq, Repr

namespace Access

/-- What a machine is asked for. -/
def request : Access → Request
  | push address => .push address
  | pop => .pop

/-- The reply of a list of at most sixteen addresses, and what is left of it. The last address pushed is
the first to be popped. -/
def onList (calls : List UInt16) : Access → Reply × List UInt16
  | push address =>
    if calls.length = 16 then (.fault .stackOverflow, calls) else (.done, address :: calls)
  | pop =>
    match calls with
    | [] => (.fault .stackUnderflow, [])
    | address :: calls => (.address address, calls)

/-- The replies of such a list to several requests in a row. -/
def allOnList (calls : List UInt16) : List Access → List Reply × List UInt16
  | [] => ([], calls)
  | x :: xs =>
    let (reply, calls) := x.onList calls
    let (replies, calls) := allOnList calls xs
    (reply :: replies, calls)

end Access

theorem length_live_add_sp (s : CallStack) : s.live.length + s.sp = 16 := by
  rw [length_live, depth, Nat.sub_add_cancel s.sp_le]

end CallStack

namespace Machine

variable {σ : Type} {m m' : Machine σ} {address : UInt16} {fault : Fault}

/-! ## Slots -/

theorem push_eq_error_iff : m.push address = .error fault m' ↔
    m.stack.live.length = 16 ∧ fault = .stackOverflow ∧ m' = m := by
  have full : m.stack.live.length = 16 ↔ m.stack.sp = 0 := by
    have := m.stack.length_live_add_sp
    omega
  rw [push, attempt_eq_error_iff (by simp), CallStack.push_eq_error_iff, full, and_assoc,
    eq_comm (a := m)]

theorem pop_eq_error_iff : m.pop = .error fault m' ↔
    m.stack.live = [] ∧ fault = .stackUnderflow ∧ m' = m := by
  have none : m.stack.live = [] ↔ m.stack.sp = 16 := by
    have := m.stack.length_live_add_sp
    rw [← List.length_eq_zero_iff]
    omega
  rw [pop, attempt_eq_error_iff (by simp), CallStack.pop_eq_error_iff, none, and_assoc,
    eq_comm (a := m)]

/-- A call takes the slot under the pointer, and the pointer goes there. -/
theorem slots_of_push (h : m.push address = .ok () m') :
    ∃ slot : Fin 16, slot + 1 = m.stack.sp ∧ m'.stack.sp = slot ∧
      m'.stack.slots = m.stack.slots.set slot address slot.isLt ∧
      m'.stack.live = address :: m.stack.live ∧ m' = { m with stack := m'.stack } := by
  obtain ⟨stack, pushed, go⟩ := attempt_eq_ok h
  cases go
  have live := CallStack.live_of_push pushed
  have sp := CallStack.sp_of_push pushed
  have below : stack.sp < 16 := Nat.le_trans (Nat.le_of_eq sp) m.stack.sp_le
  refine ⟨⟨stack.sp, below⟩, sp, rfl, ?_, live, rfl⟩
  unfold CallStack.push at pushed
  split at pushed <;> cases pushed
  rfl

/-- A return frees the slot at the pointer. The address stays in it. -/
theorem slots_of_pop (h : m.pop = .ok address m') :
    ∃ slot : Fin 16, slot = m.stack.sp ∧ m'.stack.sp = slot + 1 ∧
      m.stack.slots.get slot = address ∧ m'.stack.slots = m.stack.slots ∧
      m.stack.live = address :: m'.stack.live ∧ m' = { m with stack := m'.stack } := by
  obtain ⟨⟨_, stack⟩, popped, go⟩ := attempt_eq_ok h
  cases go
  have live := CallStack.live_of_pop popped
  have sp := CallStack.sp_of_pop popped
  have below : m.stack.sp < 16 := Nat.le_trans (Nat.le_of_eq sp.symm) stack.sp_le
  unfold CallStack.pop at popped
  rw [dif_pos below] at popped
  cases popped
  exact ⟨⟨m.stack.sp, below⟩, rfl, rfl, rfl, rfl, live, rfl⟩

/-! ## Replies -/

variable [EventSource σ]

/-- A machine replies as the list of its open calls does, and changes with it. -/
theorem answer_of_live (m : Machine σ) (x : CallStack.Access) :
    ∃ stack : CallStack, m.answer x.request = ((x.onList m.stack.live).1, { m with stack }) ∧
      stack.live = (x.onList m.stack.live).2 := by
  cases x with
  | push address =>
    simp only [CallStack.Access.request, answer, CallStack.Access.onList]
    cases h : m.push address with
    | error fault m' =>
      obtain ⟨full, rfl, rfl⟩ := push_eq_error_iff.1 h
      exact ⟨m'.stack, by rw [if_pos full]; rfl, by rw [if_pos full]⟩
    | ok _ m' =>
      obtain ⟨slot, below, -, -, live, only⟩ := slots_of_push h
      have room : m.stack.live.length ≠ 16 := by
        have := m.stack.length_live_add_sp
        omega
      refine ⟨m'.stack, ?_, ?_⟩
      · rw [if_neg room, ← only]
        rfl
      · rw [if_neg room, live]
  | pop =>
    simp only [CallStack.Access.request, answer, CallStack.Access.onList]
    cases h : m.pop with
    | error fault m' =>
      obtain ⟨none, rfl, rfl⟩ := pop_eq_error_iff.1 h
      exact ⟨m'.stack, by rw [none]; rfl, by rw [none]⟩
    | ok address m' =>
      obtain ⟨slot, -, -, -, -, live, only⟩ := slots_of_pop h
      exact ⟨m'.stack, by rw [live, ← only]; rfl, by rw [live]⟩

/-- So it does to several requests in a row. -/
theorem answers_of_live (m : Machine σ) (xs : List CallStack.Access) :
    ∃ stack : CallStack, m.answers (xs.map CallStack.Access.request) =
        ((CallStack.Access.allOnList m.stack.live xs).1, { m with stack }) ∧
      stack.live = (CallStack.Access.allOnList m.stack.live xs).2 := by
  induction xs generalizing m with
  | nil => exact ⟨m.stack, rfl, rfl⟩
  | cons x xs ih =>
    obtain ⟨stack, first, live⟩ := m.answer_of_live x
    obtain ⟨stack', others, live'⟩ := ih { m with stack }
    rw [live] at others live'
    refine ⟨stack', ?_, live'⟩
    rw [List.map_cons, answers, first]
    simp only [others]
    rfl

/-- **The call stack is a list of at most sixteen addresses.** Whatever is pushed and popped in a row
on a machine without open calls, the replies are those of the list, whose last address is the first to be
popped, and nothing but the call stack changes. On any machine a push is refused when sixteen
calls are open and a pop when none is, for nothing else, and then the machine stays as it is. Otherwise
a push fills the slot under the pointer, a pop reads the slot at the pointer, and both are there. -/
theorem stack_is_list {m : Machine σ} (empty : m.stack.sp = 16) (xs : List CallStack.Access) :
    (∃ stack : CallStack, m.answers (xs.map CallStack.Access.request) =
        ((CallStack.Access.allOnList [] xs).1, { m with stack }) ∧
      stack.live = (CallStack.Access.allOnList [] xs).2 ∧ stack.live.length + stack.sp = 16) ∧
    (∀ (n n' : Machine σ) address fault, n.push address = .error fault n' ↔
      n.stack.live.length = 16 ∧ fault = .stackOverflow ∧ n' = n) ∧
    (∀ (n n' : Machine σ) fault, n.pop = .error fault n' ↔
      n.stack.live = [] ∧ fault = .stackUnderflow ∧ n' = n) ∧
    (∀ (n n' : Machine σ) address, n.push address = .ok () n' →
      ∃ slot : Fin 16, slot + 1 = n.stack.sp ∧ n'.stack.sp = slot ∧
        n'.stack.slots = n.stack.slots.set slot address slot.isLt ∧
        n'.stack.live = address :: n.stack.live ∧ n' = { n with stack := n'.stack }) ∧
    ∀ (n n' : Machine σ) address, n.pop = .ok address n' →
      ∃ slot : Fin 16, slot = n.stack.sp ∧ n'.stack.sp = slot + 1 ∧
        n.stack.slots.get slot = address ∧ n'.stack.slots = n.stack.slots ∧
        n.stack.live = address :: n'.stack.live ∧ n' = { n with stack := n'.stack } := by
  refine ⟨?_, fun _ _ _ _ => push_eq_error_iff, fun _ _ _ => pop_eq_error_iff,
    fun _ _ _ => slots_of_push, fun _ _ _ => slots_of_pop⟩
  have none : m.stack.live = [] := by
    have := m.stack.length_live_add_sp
    exact List.eq_nil_of_length_eq_zero (by omega)
  obtain ⟨stack, replies, live⟩ := m.answers_of_live xs
  rw [none] at replies live
  exact ⟨stack, replies, live, stack.length_live_add_sp⟩

/-- Seventeen pushes and a pop. -/
def overfull : List CallStack.Access :=
  (List.range 17).map (fun k => .push k.toUInt16) ++ [.pop]

/-- On the slots of closed calls: the last push is refused, and what the one before it left is popped. -/
theorem stack_is_list_stale : stale.stack.sp = 16 ∧
    (stale.answers (overfull.map CallStack.Access.request)).1 =
      List.replicate 16 .done ++ [.fault .stackOverflow, .address 15] := by
  obtain ⟨⟨_, replies, -⟩, -⟩ := stack_is_list (m := stale) rfl overfull
  refine ⟨rfl, ?_⟩
  rw [replies]
  rfl

end Machine

end Chip8
