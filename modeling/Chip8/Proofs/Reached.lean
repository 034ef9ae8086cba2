import Chip8.Proofs.Calls
import Chip8.Proofs.Runs

/-!
# Machines that can be reached

* `Outcome.left`: the machine that an operation leaves, whether it succeeds or fails.
* `Attempt`: a step that was tried; `Attempt.word?`, the word that it carried out, if it succeeded.
* `Setting.attempts`: the steps that a run tries.
* `Machine.Reached`: what loading, stepping and running make of a machine without a program, and the
  steps that were tried on the way.
* `Kept`: what loads, steps and polls keep; **`reached_of_kept`**: it holds of every machine reached.
* `Machine.Sound`, `Machine.Exact`: the range of the call stack and the program counter, and the sums
  that need no wrapping there.
* **`sound_of_reached`**: every machine that is reached stays in these ranges.
-/

namespace Chip8

variable {σ ρ : Type}

/-! ## Steps that are tried -/

/-- The machine that is left, whether by a success or by a failure. -/
def Outcome.left {α : Type} : Outcome σ α → Machine σ
  | .ok _ m => m
  | .error _ m => m

/-- A step that was tried: on which machine and at which moment. -/
structure Attempt (σ : Type) where
  machine : Machine σ
  moment : Moment

variable [EventSource σ]

/-- The word that a step carries out, if it succeeds. -/
def Attempt.word? (a : Attempt σ) : Option Opcode :=
  match a.machine.fetch, a.machine.stepAt a.moment with
  | .ok word, .ok () _ => some word
  | _, _ => none

/-- The steps that the first cycles of a run try. -/
def Setting.attempts (c : Setting ρ) (m : Machine σ) (count : Nat) : List (Attempt σ) :=
  ((List.range count).filter fun k => (c.session m k).status = .running).map fun k =>
    ⟨(c.session m k).machine, c.moments k⟩

/-- Machines that programs, steps and runs make of a machine without a program, whether they succeed
or fail, and the steps that were tried on the way. -/
inductive Machine.Reached (host : σ) : List (Attempt σ) → Machine σ → Prop
  | new : Reached host [] (.new host)
  | load {tried : List (Attempt σ)} {m : Machine σ} (h : Reached host tried m)
    (program : List UInt8) : Reached host tried (m.load program).left
  | step {tried : List (Attempt σ)} {m : Machine σ} (h : Reached host tried m) (moment : Moment) :
    Reached host (tried ++ [⟨m, moment⟩]) (m.stepAt moment).left
  | run {tried : List (Attempt σ)} {m : Machine σ} (h : Reached host tried m) {ρ : Type}
    (c : Setting ρ) (count : Nat) :
    Reached host (tried ++ c.attempts m count) (c.session m count).machine

theorem Machine.Reached.succeed {host : σ} {tried : List (Attempt σ)} {m m' : Machine σ}
    {moment : Moment} (h : Reached host tried m) (hs : m.stepAt moment = .ok () m') :
    Reached host (tried ++ [⟨m, moment⟩]) m' := by
  have next := h.step moment
  rw [hs] at next
  exact next

/-! ## What is kept -/

/-- A property of machines, and of the steps tried on them, that loads, steps and polls keep. The quit
flag does not matter to it. -/
structure Kept (P : List (Attempt σ) → Machine σ → Prop) : Prop where
  load : ∀ {tried m}, P tried m → ∀ program, P tried (m.load program).left
  step : ∀ {tried m}, P tried m → ∀ moment, P (tried ++ [⟨m, moment⟩]) (m.stepAt moment).left
  poll : ∀ {tried m}, P tried m → P tried m.poll.2
  quit : ∀ {tried m}, P tried m → ∀ quit, P tried { m with quit }

theorem Setting.attempts_succ_of_running {c : Setting ρ} {m : Machine σ} {k : Nat}
    (goes : (c.session m k).status = .running) :
    c.attempts m (k + 1) = c.attempts m k ++ [⟨(c.session m k).machine, c.moments k⟩] := by
  rw [attempts, List.range_succ, List.filter_append, List.map_append]
  simp [attempts, goes]

theorem Setting.attempts_succ_of_ended {c : Setting ρ} {m : Machine σ} {k : Nat}
    (ended : (c.session m k).status ≠ .running) : c.attempts m (k + 1) = c.attempts m k := by
  rw [attempts, List.range_succ, List.filter_append, List.map_append]
  simp [attempts, ended]

theorem Kept.session {P : List (Attempt σ) → Machine σ → Prop} (kept : Kept P)
    {tried : List (Attempt σ)} {m : Machine σ} (h : P tried m) (c : Setting ρ) (count : Nat) :
    P (tried ++ c.attempts m count) (c.session m count).machine := by
  induction count with
  | zero =>
    rw [Setting.attempts, List.range_zero, List.filter_nil, List.map_nil, List.append_nil]
    exact kept.quit h false
  | succ count ih =>
    by_cases goes : (c.session m count).status = .running
    · rw [Setting.attempts_succ_of_running goes, ← List.append_assoc]
      have stepped := kept.step ih (c.moments count)
      rcases Setting.session_succ goes with
        ⟨fault, m', hs, eq⟩ | ⟨m', hs, ⟨fault, r, hr, eq⟩ | ⟨r, hr, eq⟩⟩
      · rw [hs] at stepped
        rw [eq]
        exact stepped
      · rw [hs] at stepped
        rw [eq]
        exact stepped
      · rw [hs] at stepped
        rw [eq]
        exact kept.poll stepped
    · have same : c.session m (count + 1) = c.session m count := Machine.run_succ_of_ended goes
      rw [Setting.attempts_succ_of_ended goes, same]
      exact ih

/-- **What loads, steps and polls keep holds of every machine that is reached.** -/
theorem reached_of_kept {P : List (Attempt σ) → Machine σ → Prop} (kept : Kept P) {host : σ}
    (new : P [] (.new host)) {tried : List (Attempt σ)} {m : Machine σ}
    (h : Machine.Reached host tried m) : P tried m := by
  induction h with
  | new => exact new
  | load _ program ih => exact kept.load ih program
  | step _ moment ih => exact kept.step ih moment
  | run _ c count ih => exact kept.session ih c count

/-! ## Calls, returns and the program counter -/

namespace Attempt

/-- The calls among the steps that succeeded. -/
def calls (tried : List (Attempt σ)) : Nat :=
  (tried.filterMap word?).countP fun op => op.family = 0x2

/-- The returns among the steps that succeeded. -/
def returns (tried : List (Attempt σ)) : Nat := (tried.filterMap word?).count 0x00EE

variable {m m' : Machine σ} {moment : Moment} {op : Opcode}

theorem word?_of_ok (word : m.Reads op) (hs : m.stepAt moment = .ok () m') :
    word? ⟨m, moment⟩ = some op := by
  simp only [word?, Machine.fetch_eq_ok_iff.2 word, hs]

theorem word?_of_error {fault : Fault} (hs : m.stepAt moment = .error fault m') :
    word? ⟨m, moment⟩ = none := by
  unfold word?
  cases m.fetch <;> simp only [hs]

theorem calls_concat {tried : List (Attempt σ)} {a : Attempt σ} (h : a.word? = some op) :
    calls (tried ++ [a]) = calls tried + if op.family = 0x2 then 1 else 0 := by
  simp [calls, h, List.countP_singleton]

theorem returns_concat {tried : List (Attempt σ)} {a : Attempt σ} (h : a.word? = some op) :
    returns (tried ++ [a]) = returns tried + if op = 0x00EE then 1 else 0 := by
  simp [returns, h, List.count_singleton]

end Attempt

namespace Machine

/-- The call stack holds the calls that have not returned, with return addresses behind an
instruction that could be fetched; the program counter is at most a jump past the end of memory. -/
structure Sound (tried : List (Attempt σ)) (m : Machine σ) : Prop where
  sp : m.stack.sp ≤ 16
  balance : Attempt.calls tried = Attempt.returns tried + (16 - m.stack.sp)
  live : ∀ address ∈ m.stack.live, 2 ≤ address.toNat ∧ address.toNat ≤ 0x1000
  pc : m.pc.toNat ≤ 0x10FE
  screen : ∀ b ∈ m.screen.bytes, b = 0 ∨ b = 1

/-- The slots and sums that the next step can use are in range, and a fetch that fails reports an
address just past the end of memory. -/
structure Exact (m : Machine σ) : Prop where
  live : m.stack.live.length = 16 - m.stack.sp
  push : ∀ address stack, m.stack.push address = .ok stack → stack.sp < 16
  pop : ∀ address stack, m.stack.pop = .ok (address, stack) → m.stack.sp < 16
  next : (m.pc + 2).toNat = m.pc.toNat + 2
  skip : (m.pc + 4).toNat = m.pc.toNat + 4
  offset : ∀ op : Opcode, (op.nnn + (m.v.get Registers.first).toUInt16).toNat =
    op.nnn.toNat + (m.v.get Registers.first).toNat
  fetch : ∀ fault, m.fetch = .error fault →
    ∃ address, fault = .outOfBounds address ∧ 0x1000 ≤ address.toNat ∧ address.toNat ≤ 0x10FE

variable {tried tried' : List (Attempt σ)} {m m' : Machine σ} {op : Opcode}

theorem Sound.congr (h : m.Sound tried) (stack : m'.stack = m.stack) (pc : m'.pc = m.pc)
    (words : tried'.filterMap Attempt.word? = tried.filterMap Attempt.word?) : m'.Sound tried' := by
  refine ⟨m'.stack.sp_le, ?_, ?_, ?_, m'.screen.bytes_binary⟩
  · rw [Attempt.calls, Attempt.returns, words, stack]
    exact h.balance
  · rw [stack]
    exact h.live
  · rw [pc]
    exact h.pc

theorem Sound.moves {moment : Moment} (h : m.Sound tried) (word : m.Reads op)
    (hs : m.stepAt moment = .ok () m') (moves : m.Moves op (Instruction.decode op) m') :
    m'.Sound (tried ++ [⟨m, moment⟩]) := by
  have carried := Attempt.word?_of_ok word hs
  have balance := h.balance
  rw [← m.stack.depth_eq, ← CallStack.length_live] at balance
  -- the stack is seen through the list of its open calls
  suffices m'.pc.toNat ≤ 0x10FE ∧
      (∀ address ∈ m'.stack.live, 2 ≤ address.toNat ∧ address.toNat ≤ 0x1000) ∧
      Attempt.calls (tried ++ [⟨m, moment⟩]) =
        Attempt.returns (tried ++ [⟨m, moment⟩]) + m'.stack.live.length by
    obtain ⟨pc, live, balance'⟩ := this
    rw [CallStack.length_live, CallStack.depth] at balance'
    exact ⟨m'.stack.sp_le, balance', live, pc, m'.screen.bytes_binary⟩
  rw [Attempt.calls_concat carried, Attempt.returns_concat carried, balance]
  simp only [Opcode.family_eq_two_iff, Opcode.eq_00EE_iff]
  have nnn := op.nnn_lt
  generalize Instruction.decode op = i at moves
  cases moves with
  | ret live =>
    have all := h.live
    rw [live] at all
    refine ⟨?_, fun a mem => all a (List.mem_cons_of_mem _ mem), ?_⟩
    · have := (all _ List.mem_cons_self).2
      omega
    · rw [live, List.length_cons, if_neg (by decide), if_pos rfl]
      omega
  | call live pc =>
    have next := word.toNat_next
    have le := word.pc_le
    rw [live, pc]
    refine ⟨by omega, ?_, ?_⟩
    · intro address mem
      rcases List.mem_cons.1 mem with rfl | mem
      · omega
      · exact h.live address mem
    · rw [List.length_cons, if_pos rfl, if_neg (by decide)]
      omega
  | other hr hc stack near =>
    rw [stack, if_neg hr, if_neg hc]
    exact ⟨toNat_le_of_near word near, h.live, rfl⟩

theorem Sound.load (h : m.Sound tried) (program : List UInt8) :
    (m.load program).left.Sound tried := by
  cases loaded : m.memory.load program with
  | ok memory =>
    rw [Machine.load, loaded]
    exact h.congr rfl rfl rfl
  | error fault =>
    rw [Machine.load, loaded]
    exact h

theorem Sound.step (h : m.Sound tried) (moment : Moment) :
    (m.stepAt moment).left.Sound (tried ++ [⟨m, moment⟩]) := by
  cases hs : m.stepAt moment with
  | ok _ m' =>
    obtain ⟨op, word, moves⟩ := moves_of_stepAt hs
    exact h.moves word hs moves
  | error fault m' =>
    -- a step that fails spares the stack and the program counter, and carries no word out
    have spared : (m.elapse moment.ticks).Spared 0 m' := spared_of_step hs
    have silent := Attempt.word?_of_error hs
    refine h.congr spared.stack spared.pc ?_
    rw [List.filterMap_append, List.filterMap_cons_none silent, List.filterMap_nil, List.append_nil]

theorem kept_sound : Kept (Sound (σ := σ)) where
  load := Sound.load
  step := Sound.step
  poll h := h.congr rfl rfl rfl
  quit h _ := h.congr rfl rfl rfl

theorem sound_new (host : σ) : (new host).Sound [] where
  sp := Nat.le_refl 16
  balance := rfl
  live := nofun
  pc := show Memory.programStart.toNat ≤ 0x10FE by decide
  screen := Screen.bytes_binary _

theorem exact_of_sound (h : m.Sound tried) : m.Exact where
  live := m.stack.length_live
  push address stack pushed := by
    have := CallStack.sp_of_push pushed
    have := m.stack.sp_le
    omega
  pop address stack popped := by
    have := CallStack.sp_of_pop popped
    have := stack.sp_le
    omega
  next := toNat_pc_add h.pc (by decide)
  skip := toNat_pc_add h.pc (by decide)
  offset := toNat_offset m
  fetch fault failed := by
    obtain ⟨_, rfl⟩ := fetch_eq_error_iff.1 failed
    refine ⟨_, rfl, ?_⟩
    have := h.pc
    rw [Memory.toNat_max]
    exact ⟨Nat.le_max_right _ _, Nat.max_le.2 ⟨by omega, by decide⟩⟩

/-- **Machines that can be reached.** -/
theorem sound_of_reached {host : σ} (h : Reached host tried m) : m.Sound tried ∧ m.Exact :=
  have sound := reached_of_kept kept_sound (sound_new host) h
  ⟨sound, exact_of_sound sound⟩

/-- A program with a call to `0x204`, from where it jumps as far as a jump goes. -/
def far : List UInt8 := [0x22, 0x04, 0x00, 0x00, 0x60, 0xFF, 0xBF, 0xFF]

theorem reached_far : ∃ tried m, Reached (Script.ofEvents []) tried m ∧
    m.fetch = .error (.outOfBounds 0x10FE) ∧ m.stack.live = [0x202] ∧ m.Sound tried ∧ m.Exact := by
  let moment : Moment := ⟨0, 0⟩
  have fits : far.length ≤ Memory.programRoom := by decide
  let s := ((new (Script.ofEvents [])).load far).left
  have r₀ : Reached _ _ s := Reached.load .new far
  have memory₀ : s.memory = (Memory.initial.store Memory.programStart far).1 := by
    simp only [s, load, Memory.load, if_pos fits]
    rfl
  have call : s.Reads (Opcode.ofBytes 0x22 0x04) := reads_of_store (k := 0) memory₀ fits rfl rfl rfl
  obtain ⟨a, ha, memory₁, pc₁, live₁⟩ := stepAt_of_call call (by decide) (by decide) moment
  have load : a.Reads (Opcode.ofBytes 0x60 0xFF) :=
    reads_of_store (k := 4) (memory₁.trans memory₀) fits (by rw [pc₁]; rfl) rfl rfl
  have hb := stepAt_of_perform load moment rfl
  generalize hd : advance _ _ = b at hb
  have memory₂ : b.memory = a.memory := by rw [← hd]; rfl
  have pc₂ : b.pc = a.pc + 2 := by rw [← hd]; rfl
  have first₂ : b.v.get Registers.first = 0xFF := by
    rw [← hd]
    exact Registers.get_put_self _ _ _
  have jump : b.Reads (Opcode.ofBytes 0xBF 0xFF) :=
    reads_of_store (k := 6) (memory₂.trans (memory₁.trans memory₀)) fits
      (by rw [pc₂, pc₁]; rfl) rfl rfl
  have hc := stepAt_of_perform jump moment rfl
  generalize he : advance _ _ = c at hc
  have pc₃ : c.pc = 0x10FE := by
    rw [← he]
    change (Opcode.ofBytes 0xBF 0xFF).nnn + (b.v.get Registers.first).toUInt16 = 0x10FE
    rw [first₂]
    decide
  have stack₃ : c.stack = a.stack := by rw [← he, ← hd]; rfl
  have r₃ := ((r₀.succeed ha).succeed hb).succeed hc
  obtain ⟨sound, exact⟩ := sound_of_reached r₃
  refine ⟨_, c, r₃, ?_, ?_, sound, exact⟩
  · rw [fetch_of_le c (by rw [pc₃]; decide), pc₃]
    decide
  · rw [stack₃, live₁]
    rfl

end Machine

end Chip8
