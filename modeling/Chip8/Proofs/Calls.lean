import Chip8.Proofs.Faults
import Chip8.Proofs.Turns

/-!
# Calls and returns

* `Opcode.family_eq_two_iff`, `Opcode.eq_00EE_iff`: the words of calls and returns.
* `Machine.Near`, `Machine.Moves`: what an instruction that succeeds does to the call stack and the program counter.
* **`moves_of_stepAt`**: a step that succeeds moves in one of these ways.
* `live_of_call`, `stepAt_of_call`, `stepAt_of_ret`: what calls and returns do, and when they
  succeed.
* `toNat_pc_add`, `toNat_offset`, `toNat_le_of_near`: how far the program counter goes.
* `suffix_of_moves`, `suffix_of_follow`: as long as a call is open nothing touches its return address
  and the calls around it.
* **`call_returns`**: a subroutine hands control back to the instruction after its call, with the
  stack as it was.
-/

namespace Chip8

theorem CallStack.sp_eq_of_live {s t : CallStack} (h : s.live = t.live) : s.sp = t.sp := by
  have hs : s.live.length = 16 - s.sp := s.length_live
  have ht : t.live.length = 16 - t.sp := t.length_live
  have := s.sp_le
  have := t.sp_le
  rw [h] at hs
  omega

theorem Opcode.family_eq_two_iff {op : Opcode} :
    op.family = 0x2 ↔ Instruction.decode op = .call := by
  constructor
  · exact fun h => Instruction.decode_of_selects nofun h
  · intro h
    have selects := Instruction.selects_decode op
    rw [h] at selects
    exact selects

theorem Opcode.eq_00EE_iff {op : Opcode} : op = 0x00EE ↔ Instruction.decode op = .ret := by
  constructor
  · rintro rfl
    decide
  · intro h
    have selects := Instruction.selects_decode op
    rw [h] at selects
    exact UInt16.toNat_inj.1 selects

namespace Machine

variable {σ : Type}

/-! ## One step -/

/-- Where an instruction can go without the call stack. -/
def Near (m : Machine σ) (op : Opcode) (pc : UInt16) : Prop :=
  pc = m.pc + 2 ∨ pc = m.pc + 4 ∨ pc = op.nnn ∨ pc = op.nnn + (m.v.get Registers.first).toUInt16

/-- What an instruction that succeeds does to the call stack and the program counter. Only a call
and a return touch the stack, and only a return takes its address from there. -/
inductive Moves (m : Machine σ) (op : Opcode) : Instruction → Machine σ → Prop
  | ret {m' : Machine σ} (live : m.stack.live = m'.pc :: m'.stack.live) : Moves m op .ret m'
  | call {m' : Machine σ} (live : m'.stack.live = (m.pc + 2) :: m.stack.live)
    (pc : m'.pc = op.nnn) : Moves m op .call m'
  | other {i : Instruction} {m' : Machine σ} (hr : i ≠ .ret) (hc : i ≠ .call)
    (stack : m'.stack = m.stack) (near : m.Near op m'.pc) : Moves m op i m'

theorem attempt_eq_ok {α β : Type} {m n : Machine σ} {result : Except Fault α}
    {go : α → Outcome σ β} {b : β} (h : m.attempt result go = .ok b n) :
    ∃ a, result = .ok a ∧ go a = .ok b n := by
  cases result with
  | ok a => exact ⟨a, rfl, h⟩
  | error fault => cases h

theorem nextUnless_eq_ok {m n : Machine σ} {fault? : Option Fault} {target : Advance}
    (h : m.nextUnless fault? = .ok target n) : target = .next ∧ n = m := by
  cases fault? with
  | none =>
    cases h
    exact ⟨rfl, rfl⟩
  | some fault => cases h

@[simp] theorem stack_advance (m : Machine σ) (target : Advance) :
    (m.advance target).stack = m.stack := by
  cases target <;> rfl

theorem near_skipIf (m : Machine σ) (op : Opcode) (condition : Bool) :
    m.Near op (m.advance (.skipIf condition)).pc := by
  cases condition with
  | false => exact .inl rfl
  | true => exact .inr (.inl rfl)

/-- Instructions other than a call and a return leave the call stack alone. -/
theorem near_of_perform [EventSource σ] {m n : Machine σ} {op : Opcode} {byte : UInt8}
    {i : Instruction} {target : Advance} (hr : i ≠ .ret) (hc : i ≠ .call)
    (h : m.perform op byte i = .ok target n) :
    n.stack = m.stack ∧ m.Near op (n.advance target).pc := by
  cases i
  case ret => exact absurd rfl hr
  case call => exact absurd rfl hc
  case skipHeld | skipNotHeld =>
    obtain ⟨down, _, go⟩ := attempt_eq_ok h
    cases go
    exact ⟨rfl, near_skipIf _ _ _⟩
  case skipEqByte | skipNeByte | skipEqReg | skipNeReg =>
    cases h
    exact ⟨rfl, near_skipIf _ _ _⟩
  case jump =>
    cases h
    exact ⟨rfl, .inr (.inr (.inl rfl))⟩
  case jumpOffset =>
    cases h
    exact ⟨rfl, .inr (.inr (.inr rfl))⟩
  case storeDigits | saveRegs | restoreRegs =>
    obtain ⟨rfl, rfl⟩ := nextUnless_eq_ok h
    exact ⟨rfl, .inl rfl⟩
  case glyph | draw | awaitKey =>
    simp only [perform] at h
    split at h <;> cases h
    all_goals exact ⟨rfl, .inl rfl⟩
  all_goals
    cases h
    exact ⟨rfl, .inl rfl⟩

theorem moves_of_perform [EventSource σ] {m n : Machine σ} {op : Opcode} {byte : UInt8}
    {i : Instruction} {target : Advance} (h : m.perform op byte i = .ok target n) :
    m.Moves op i (n.advance target) := by
  by_cases hr : i = .ret
  · subst hr
    obtain ⟨⟨address, stack⟩, popped, go⟩ := attempt_eq_ok h
    cases go
    exact .ret (CallStack.live_of_pop popped)
  · by_cases hc : i = .call
    · subst hc
      obtain ⟨stack, pushed, go⟩ := attempt_eq_ok h
      cases go
      exact .call (CallStack.live_of_push pushed) rfl
    · obtain ⟨stack, near⟩ := near_of_perform hr hc h
      exact .other hr hc ((stack_advance _ _).trans stack) near

theorem moves_of_elapse {m m' : Machine σ} {ticks : Nat} {op : Opcode} {i : Instruction}
    (h : (m.elapse ticks).Moves op i m') : m.Moves op i m' := by
  cases h with
  | ret live => exact .ret live
  | call live pc => exact .call live pc
  | other hr hc stack near => exact .other hr hc stack near

/-- **How a step moves.** -/
theorem moves_of_stepAt [EventSource σ] {m m' : Machine σ} {moment : Moment}
    (h : m.stepAt moment = .ok () m') :
    ∃ op, m.Reads op ∧ m.Moves op (Instruction.decode op) m' := by
  obtain ⟨op, target, n, hf, done, rfl⟩ := perform_of_step h
  exact ⟨op, fetch_eq_ok_iff.1 hf, moves_of_elapse (moves_of_perform done)⟩

theorem live_of_call [EventSource σ] {m m' : Machine σ} {op : Opcode} {moment : Moment}
    (word : m.Reads op) (call : op.family = 0x2) (h : m.stepAt moment = .ok () m') :
    m'.stack.live = (m.pc + 2) :: m.stack.live := by
  obtain ⟨op', read, moves⟩ := moves_of_stepAt h
  obtain rfl : op' = op := word.unique read
  rw [Opcode.family_eq_two_iff.1 call] at moves
  cases moves with
  | call live pc => exact live
  | other hr hc => exact absurd rfl hc

theorem stepAt_of_call [EventSource σ] {m : Machine σ} {op : Opcode} (word : m.Reads op)
    (is : op.family = 0x2) (room : m.stack.live.length < 16) (moment : Moment) :
    ∃ m', m.stepAt moment = .ok () m' ∧ m'.memory = m.memory ∧ m'.pc = op.nnn ∧
      m'.stack.live = (m.pc + 2) :: m.stack.live := by
  rw [CallStack.length_live, CallStack.depth] at room
  cases pushed : m.stack.push (m.pc + 2) with
  | error fault =>
    have := ((CallStack.push_eq_error_iff _ _ _).1 pushed).1
    omega
  | ok stack =>
    have done : (m.elapse moment.ticks).perform op moment.byte .call =
        .ok (.jump op.nnn) { m.elapse moment.ticks with stack } := by
      change (m.elapse moment.ticks).attempt (m.stack.push (m.pc + 2)) _ = _
      rw [pushed]
      rfl
    have live := CallStack.live_of_push pushed
    exact ⟨_, stepAt_of_selects word moment done is (by decide), rfl, rfl, live⟩

theorem stepAt_of_ret [EventSource σ] {m : Machine σ} (word : m.Reads 0x00EE) {address : UInt16}
    {live : List UInt16} (opened : m.stack.live = address :: live) (moment : Moment) :
    ∃ m', m.stepAt moment = .ok () m' ∧ m'.memory = m.memory ∧ m'.pc = address ∧
      m'.stack.live = live := by
  have length : m.stack.depth = live.length + 1 := by
    rw [← CallStack.length_live, opened, List.length_cons]
  cases popped : m.stack.pop with
  | error fault =>
    have := ((CallStack.pop_eq_error_iff _ _).1 popped).1
    rw [CallStack.depth] at length
    omega
  | ok result =>
    obtain ⟨address', stack⟩ := result
    have done : (m.elapse moment.ticks).perform 0x00EE moment.byte .ret =
        .ok (.jump address') { m.elapse moment.ticks with stack } := by
      change (m.elapse moment.ticks).attempt m.stack.pop _ = _
      rw [popped]
      rfl
    have same := (CallStack.live_of_pop popped).symm.trans opened
    cases same
    exact ⟨_, stepAt_of_selects word moment done rfl (by decide), rfl, rfl, rfl⟩

/-! ## The program counter -/

/-- As far as the program counter goes, the instructions after it have exact addresses. -/
theorem toNat_pc_add {pc k : UInt16} (le : pc.toNat ≤ 0x10FE) (near : k.toNat ≤ 4) :
    (pc + k).toNat = pc.toNat + k.toNat := by
  rw [UInt16.toNat_add]
  exact Nat.mod_eq_of_lt (by omega)

theorem Reads.pc_le {m : Machine σ} {op : Opcode} (word : m.Reads op) : m.pc.toNat ≤ 0xFFE := by
  obtain ⟨lt, _⟩ := word
  omega

theorem Reads.toNat_next {m : Machine σ} {op : Opcode} (word : m.Reads op) :
    (m.pc + 2).toNat = m.pc.toNat + 2 :=
  toNat_pc_add (Nat.le_trans word.pc_le (by decide)) (by decide)

theorem toNat_offset (m : Machine σ) (op : Opcode) :
    (op.nnn + (m.v.get Registers.first).toUInt16).toNat =
      op.nnn.toNat + (m.v.get Registers.first).toNat := by
  have := op.nnn_lt
  have := (m.v.get Registers.first).toNat_lt
  rw [UInt16.toNat_add, UInt8.toNat_toUInt16]
  exact Nat.mod_eq_of_lt (by omega)

theorem toNat_le_of_near {m : Machine σ} {op : Opcode} {pc : UInt16} (word : m.Reads op)
    (near : m.Near op pc) : pc.toNat ≤ 0x10FE := by
  have le := word.pc_le
  have nnn := op.nnn_lt
  rcases near with rfl | rfl | rfl | rfl
  · rw [word.toNat_next]
    omega
  · have skip : (m.pc + 4).toNat = m.pc.toNat + 4 := toNat_pc_add (by omega) (by decide)
    rw [skip]
    omega
  · omega
  · have first := (m.v.get Registers.first).toNat_lt
    rw [toNat_offset]
    omega

/-! ## Steps inside a call -/

section

variable {m m' : Machine σ} {op : Opcode} {i : Instruction}

/-- A step does not touch the innermost calls that stay open. -/
theorem suffix_of_moves {frame : List UInt16} (h : m.Moves op i m')
    (opened : frame <:+ m.stack.live) (stay : frame.length ≤ m'.stack.live.length) :
    frame <:+ m'.stack.live := by
  cases h with
  | ret live =>
    -- the address that is taken is not one of the frame, or too few would be left
    rw [live] at opened
    rcases List.suffix_cons_iff.1 opened with rfl | inner
    · exact absurd stay (by simp)
    · exact inner
  | call live pc =>
    rw [live]
    exact opened.trans (List.suffix_cons _ _)
  | other hr hc stack near => exact stack ▸ opened

/-- The step that closes a call is a return, and it takes the address of that call. -/
theorem returns_of_moves {address : UInt16} {live : List UInt16}
    (h : m.Moves op i m') (opened : address :: live <:+ m.stack.live)
    (closed : m'.stack.live.length = live.length) :
    i = .ret ∧ m'.pc = address ∧ m'.stack.live = live := by
  have length := opened.length_le
  cases h with
  | ret popped =>
    rw [popped] at opened
    have same := opened.eq_of_length (by simp [closed])
    cases same
    exact ⟨rfl, rfl, rfl⟩
  | call pushed pc =>
    rw [pushed] at closed
    simp only [List.length_cons] at closed length
    omega
  | other hr hc stack near =>
    rw [stack] at closed
    simp only [List.length_cons] at length
    omega

end

variable [EventSource σ] {m m' : Machine σ}

@[simp] theorem stack_pollIf (m : Machine σ) (polled : Bool) :
    (m.pollIf polled).stack = m.stack := by
  cases polled <;> rfl

@[simp] theorem pc_pollIf (m : Machine σ) (polled : Bool) : (m.pollIf polled).pc = m.pc := by
  cases polled <;> rfl

/-- Steps that keep as many calls open as `frame` has return addresses keep those addresses. -/
theorem suffix_of_follow {frame : List UInt16} {turns : List Turn}
    (steps : m.follow turns = .ok () m') (opened : frame <:+ m.stack.live)
    (stay : ∀ first n, first <+: turns → m.follow first = .ok () n → frame.length ≤ n.stack.depth) :
    frame <:+ m'.stack.live := by
  induction turns generalizing m with
  | nil =>
    cases steps
    exact opened
  | cons turn turns ih =>
    obtain ⟨n, word, _, hs, rest⟩ := stepAt_of_follow steps
    obtain ⟨op, _, moves⟩ := moves_of_stepAt hs
    -- what holds after the first turn is the hypothesis for the turns after it
    have later : ∀ first n', first <+: turns → (n.pollIf turn.polled).follow first = .ok () n' →
        frame.length ≤ n'.stack.depth := by
      intro first n' le followed
      have le' : turn :: first <+: turn :: turns := (List.prefix_cons_inj turn).2 le
      exact stay (turn :: first) n' le' ((follow_cons hs first).trans followed)
    have depth : frame.length ≤ n.stack.live.length := by
      rw [CallStack.length_live, ← stack_pollIf n turn.polled]
      exact later [] _ (List.nil_prefix) rfl
    refine ih rest ?_ later
    rw [stack_pollIf]
    exact suffix_of_moves moves opened depth

/-- **Calls and returns.** Take a call that succeeds, and steps that succeed and keep it open up to
the one that closes it. That step is a `00EE`; it goes to the instruction after the call and leaves the
stack as it was before the call. -/
theorem call_returns {op : Opcode} (word : m.Reads op) (call : op.family = 0x2) {enter leave : Turn}
    {inner : List Turn} (steps : m.follow (enter :: (inner ++ [leave])) = .ok () m')
    (inside : ∀ first n, first <+: inner → m.follow (enter :: first) = .ok () n →
      m.stack.depth + 1 ≤ n.stack.depth)
    (closed : m'.stack.depth = m.stack.depth) :
    (∃ n, m.follow (enter :: inner) = .ok () n ∧ n.Reads 0x00EE) ∧
      m'.pc = m.pc + 2 ∧ m'.pc.toNat = m.pc.toNat + 2 ∧
      m'.stack.sp = m.stack.sp ∧ m'.stack.live = m.stack.live := by
  obtain ⟨n, _, _, hs, rest⟩ := stepAt_of_follow steps
  obtain ⟨k, k', before, hs', rfl⟩ := stepAt_of_follow_concat rest
  -- the call puts its return address on top of the calls around it, and the steps inside keep both
  have opened : (n.pollIf enter.polled).stack.live = (m.pc + 2) :: m.stack.live := by
    rw [stack_pollIf, live_of_call word call hs]
  have frame : (m.pc + 2) :: m.stack.live <:+ k.stack.live := by
    refine suffix_of_follow before ?_ ?_
    · exact opened ▸ List.suffix_rfl
    · intro first n' le followed
      rw [List.length_cons, CallStack.length_live]
      exact inside first n' le ((follow_cons hs first).trans followed)
  obtain ⟨op', read, left⟩ := moves_of_stepAt hs'
  have length : k'.stack.live.length = m.stack.live.length := by
    rw [CallStack.length_live, CallStack.length_live, ← closed, stack_pollIf]
  obtain ⟨decoded, pc, live⟩ := returns_of_moves left frame length
  rw [Opcode.eq_00EE_iff.2 decoded] at read
  rw [pc_pollIf, stack_pollIf]
  exact ⟨⟨k, (follow_cons hs inner).trans before, read⟩, pc, pc ▸ word.toNat_next,
    CallStack.sp_eq_of_live live, live⟩

theorem follow_nil : m.follow [] = .ok () m := rfl

/-- A program that calls a subroutine at `0x206`, which calls another one at `0x20A`. -/
def nested : List UInt8 :=
  [0x22, 0x06, 0x00, 0x00, 0x00, 0x00, 0x22, 0x0A, 0x00, 0xEE, 0x00, 0xEE]

/-- The machine that is about to enter the outer subroutine. -/
def entering : Machine Script :=
  { new (Script.ofEvents []) with memory := (Memory.initial.store Memory.programStart nested).1 }

theorem call_returns_nested : ∃ turn m', entering.follow [turn, turn, turn, turn] = .ok () m' ∧
    m'.pc = entering.pc + 2 ∧ m'.stack.live = entering.stack.live := by
  let moment : Moment := ⟨0, 0⟩
  let turn : Turn := ⟨moment, false⟩
  have fits : nested.length ≤ Memory.programRoom := by decide
  have word : entering.Reads (Opcode.ofBytes 0x22 0x06) :=
    reads_of_store (k := 0) rfl fits rfl rfl rfl
  obtain ⟨a, outer, memory₁, pc₁, live₁⟩ := stepAt_of_call word (by decide) (by decide) moment
  have word₁ : a.Reads (Opcode.ofBytes 0x22 0x0A) :=
    reads_of_store (k := 6) memory₁ fits (by rw [pc₁]; rfl) rfl rfl
  obtain ⟨b, inner, memory₂, pc₂, live₂⟩ :=
    stepAt_of_call word₁ (by decide) (by rw [live₁]; decide) moment
  have word₂ : b.Reads (Opcode.ofBytes 0x00 0xEE) :=
    reads_of_store (k := 10) (memory₂.trans memory₁) fits (by rw [pc₂]; rfl) rfl rfl
  obtain ⟨c, back, memory₃, pc₃, live₃⟩ := stepAt_of_ret word₂ live₂ moment
  have word₃ : c.Reads (Opcode.ofBytes 0x00 0xEE) :=
    reads_of_store (k := 8) (memory₃.trans (memory₂.trans memory₁)) fits
      (by rw [pc₃, pc₁]; rfl) rfl rfl
  obtain ⟨d, home, memory₄, pc₄, live₄⟩ := stepAt_of_ret word₃ (live₃.trans live₁) moment
  have one : entering.follow [turn] = .ok () a := follow_concat false follow_nil outer
  have two : entering.follow [turn, turn] = .ok () b := follow_concat false one inner
  have three : entering.follow [turn, turn, turn] = .ok () c := follow_concat false two back
  have all : entering.follow (turn :: ([turn, turn] ++ [turn])) = .ok () d :=
    follow_concat false three home
  have inside : ∀ first n, first <+: [turn, turn] → entering.follow (turn :: first) = .ok () n →
      entering.stack.depth + 1 ≤ n.stack.depth := by
    intro first n le₂ followed
    rw [← CallStack.length_live, ← CallStack.length_live]
    rcases List.prefix_cons_iff.1 le₂ with rfl | ⟨first, rfl, le₁⟩
    · obtain rfl : a = n := by simpa [one] using followed
      rw [live₁]
      exact Nat.le_refl _
    rcases List.prefix_cons_iff.1 le₁ with rfl | ⟨first, rfl, le₀⟩
    · obtain rfl : b = n := by simpa [two] using followed
      rw [live₂, live₁]
      exact Nat.le_succ _
    · obtain rfl := List.prefix_nil.1 le₀
      obtain rfl : c = n := by simpa [three] using followed
      rw [live₃, live₁]
      exact Nat.le_refl _
  have closed : d.stack.depth = entering.stack.depth := by
    rw [← CallStack.length_live, live₄, CallStack.length_live]
  obtain ⟨-, pc, -, -, live⟩ := call_returns word (by decide) all inside closed
  exact ⟨turn, d, all, pc, live⟩

end Machine

end Chip8
