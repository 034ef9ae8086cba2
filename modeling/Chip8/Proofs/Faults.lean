import Chip8.Machine.Run
import Chip8.Proofs.Decoding
import Chip8.Script

/-!
# Failing instructions

* `Machine.Reads`: the word that the two bytes at the program counter spell; `fetch_eq_ok_iff`,
  `fetch_eq_error_iff`.
* `execute_decode`: a word has the pattern of the instruction it decodes to.
* `stepAt_of_selects`, `stepAt_of_unknown`: a step does what the instruction of its word does.
* `Machine.Refused`: when an instruction fails, the fault it reports and the machine it leaves.
* `perform_eq_error_iff`, `step_eq_error_iff`: an instruction, and a step, fail in these ways only.
* `Machine.Refuses`: when a step fails, told by the bytes in memory alone; `not_refuses_of_step`.
* **`step_fails_iff`**: a step fails exactly then.
* `Machine.Spared`: what is left of a machine by a step that fails.
* `get_memory_of_refused`, `get_v_of_refused`: below the address register, and for the registers whose
  address is past the end of memory, nothing changes.
* **`spared_of_stepAt`**: a step that fails leaves just that.
-/

namespace Chip8.Machine

variable {σ : Type}

/-! ## Fetching -/

/-- The bytes at the program counter and after it spell the word. -/
def Reads (m : Machine σ) (op : Opcode) : Prop :=
  ∃ h : m.pc.toNat + 1 < 4096, op.toNat =
    256 * (m.memory.get ⟨m.pc.toNat, Nat.lt_of_succ_lt h⟩).toNat +
      (m.memory.get ⟨m.pc.toNat + 1, h⟩).toNat

theorem fetch_of_lt (m : Machine σ) (h : m.pc.toNat + 1 < 4096) :
    m.fetch = .ok (Opcode.ofBytes (m.memory.get ⟨m.pc.toNat, Nat.lt_of_succ_lt h⟩)
      (m.memory.get ⟨m.pc.toNat + 1, h⟩)) := by
  have hpc : (m.pc + 1).toNat = m.pc.toNat + 1 := Memory.toNat_succ (Nat.lt_of_succ_lt h)
  rw [fetch, Memory.read_of_lt _ (Nat.lt_of_succ_lt h), Memory.read_of_lt _ (hpc ▸ h)]
  simp only [hpc]
  rfl

theorem fetch_of_le (m : Machine σ) (h : 0xFFF ≤ m.pc.toNat) :
    m.fetch = .error (.outOfBounds (max m.pc 0x1000)) := by
  by_cases lt : m.pc.toNat < 4096
  · have hpc : (m.pc + 1).toNat = m.pc.toNat + 1 := Memory.toNat_succ lt
    rw [fetch, Memory.read_of_lt _ lt, Memory.read_of_le _ (by omega), ← Memory.max_succ lt,
      Memory.max_of_le (by omega)]
    rfl
  · rw [fetch, Memory.read_of_le _ (Nat.not_lt.1 lt), Memory.max_of_le (Nat.not_lt.1 lt)]
    rfl

theorem fetch_eq_ok_iff {m : Machine σ} {op : Opcode} : m.fetch = .ok op ↔ m.Reads op := by
  by_cases h : m.pc.toNat + 1 < 4096
  · rw [fetch_of_lt m h, Except.ok.injEq, ← UInt16.toNat_inj, Opcode.toNat_ofBytes]
    exact ⟨fun eq => ⟨h, eq.symm⟩, fun ⟨_, eq⟩ => eq.symm⟩
  · rw [fetch_of_le m (by omega)]
    exact ⟨nofun, fun ⟨lt, _⟩ => absurd lt h⟩

theorem fetch_eq_error_iff {m : Machine σ} {fault : Fault} :
    m.fetch = .error fault ↔ 0xFFF ≤ m.pc.toNat ∧ fault = .outOfBounds (max m.pc 0x1000) := by
  by_cases h : m.pc.toNat + 1 < 4096
  · rw [fetch_of_lt m h]
    exact ⟨nofun, fun ⟨le, _⟩ => absurd h (by omega)⟩
  · rw [fetch_of_le m (by omega), Except.error.injEq]
    exact ⟨fun eq => ⟨by omega, eq.symm⟩, fun ⟨_, eq⟩ => eq.symm⟩

/-- Two bytes of a program that has been put into memory are the word at their place. -/
theorem reads_of_store {m : Machine σ} {old : Memory} {program : List UInt8} {k : Nat}
    {high low : UInt8} (memory : m.memory = (old.store Memory.programStart program).1)
    (fits : program.length ≤ Memory.programRoom) (pc : m.pc.toNat = 0x200 + k)
    (first : program[k]? = some high) (second : program[k + 1]? = some low) :
    m.Reads (Opcode.ofBytes high low) := by
  have lt : k + 1 < program.length := (List.getElem?_eq_some_iff.1 second).1
  have room : program.length ≤ 3584 := fits
  have stored : ∀ (a : Fin 4096) j byte, (a : Nat) = 0x200 + j → program[j]? = some byte →
      m.memory.get a = byte := by
    intro a j byte ha hb
    have start : Memory.programStart.toNat = 0x200 := rfl
    rw [memory, Memory.get_store, start, if_pos (by omega), ha, Nat.add_sub_cancel_left,
      List.getD_eq_getElem?_getD, hb, Option.getD_some]
  refine ⟨by omega, ?_⟩
  rw [Opcode.toNat_ofBytes, stored _ k high pc first,
    stored _ (k + 1) low (by simp only; omega) second]

/-! ## Carrying out an instruction -/

section

variable [EventSource σ]

/-- The pattern is never in the way of the instruction that a word decodes to. -/
theorem execute_decode (m : Machine σ) (op : Opcode) (byte : UInt8) :
    m.execute op byte (Instruction.decode op) = m.perform op byte (Instruction.decode op) :=
  if_pos ((Instruction.matches_iff_selects _ _).2 (Instruction.selects_decode op))

theorem perform_of_step {m m' : Machine σ} {byte : UInt8} (h : m.step byte = .ok () m') :
    ∃ op target n, m.fetch = .ok op ∧
      m.perform op byte (Instruction.decode op) = .ok target n ∧ m' = n.advance target := by
  unfold step at h
  cases hf : m.fetch with
  | error fault =>
    rw [hf] at h
    cases h
  | ok op =>
    simp only [hf, attempt, execute_decode] at h
    split at h
    · next target n done =>
      cases h
      exact ⟨op, target, n, rfl, done, rfl⟩
    · cases h

theorem stepAt_of_perform {m n : Machine σ} {op : Opcode} {target : Advance} (word : m.Reads op)
    (moment : Moment)
    (h : (m.elapse moment.ticks).perform op moment.byte (Instruction.decode op) = .ok target n) :
    m.stepAt moment = .ok () (n.advance target) := by
  have fetched : (m.elapse moment.ticks).fetch = .ok op := fetch_eq_ok_iff.2 word
  simp only [stepAt, step, fetched, attempt, execute_decode, h]

theorem stepAt_of_selects {m n : Machine σ} {op : Opcode} {i : Instruction} {target : Advance}
    (word : m.Reads op) (moment : Moment)
    (h : (m.elapse moment.ticks).perform op moment.byte i = .ok target n) (is : i.Selects op)
    (known : i ≠ .unknown) : m.stepAt moment = .ok () (n.advance target) := by
  apply stepAt_of_perform word
  rw [Instruction.decode_of_selects known is]
  exact h

theorem stepAt_of_unknown {m : Machine σ} {op : Opcode} (word : m.Reads op)
    (unknown : Instruction.decode op = .unknown) (moment : Moment) :
    m.stepAt moment = .ok () ((m.elapse moment.ticks).advance .next) := by
  apply stepAt_of_perform word
  rw [unknown]
  rfl

end

/-- An instruction fails on a word: when, with which fault, and what it leaves. -/
inductive Refused (m : Machine σ) (op : Opcode) : Instruction → Fault → Machine σ → Prop
  | ret (h : m.stack.sp = 16) : Refused m op .ret .stackUnderflow m
  | call (h : m.stack.sp = 0) : Refused m op .call .stackOverflow m
  | skipHeld (h : 16 ≤ (m.v.get op.x).toNat) :
    Refused m op .skipHeld (.invalidKey (m.v.get op.x)) m
  | skipNotHeld (h : 16 ≤ (m.v.get op.x).toNat) :
    Refused m op .skipNotHeld (.invalidKey (m.v.get op.x)) m
  | glyph (h : 16 ≤ (m.v.get op.x).toNat) : Refused m op .glyph (.noGlyph (m.v.get op.x)) m
  | draw (pos : 0 < op.n) (h : 4096 < m.i.toNat + op.n) :
    Refused m op .draw (.outOfBounds (max m.i 0x1000)) m
  | storeDigits (h : 4096 < m.i.toNat + 3) :
    Refused m op .storeDigits (.outOfBounds (max m.i 0x1000))
      { m with memory := (m.memory.store m.i (Arithmetic.decimal (m.v.get op.x))).1 }
  | saveRegs (h : 4096 < m.i.toNat + (op.x + 1)) :
    Refused m op .saveRegs (.outOfBounds (max m.i 0x1000))
      { m with memory := (m.memory.store m.i (m.v.upTo op.x)).1 }
  | restoreRegs (h : 4096 < m.i.toNat + (op.x + 1)) :
    Refused m op .restoreRegs (.outOfBounds (max m.i 0x1000))
      { m with v := m.v.fill (m.memory.slice m.i (op.x + 1)).1 }

theorem nextUnless_eq_error_iff {m m' : Machine σ} {fault? : Option Fault} {fault : Fault} :
    m.nextUnless fault? = .error fault m' ↔ fault? = some fault ∧ m = m' := by
  cases fault? <;> simp [nextUnless]

theorem attempt_eq_error_iff {α β : Type} {m m' : Machine σ} {result : Except Fault α}
    {go : α → Outcome σ β} (hgo : ∀ a fault n, go a ≠ .error fault n) {fault : Fault} :
    m.attempt result go = .error fault m' ↔ result = .error fault ∧ m = m' := by
  cases result with
  | ok a => simp [attempt, hgo]
  | error f => simp [attempt]

theorem isPressed_eq_error_iff [EventSource σ] {k : Keypad σ} {key : UInt8} {fault : Fault} :
    k.isPressed key = .error fault ↔ 16 ≤ key.toNat ∧ fault = .invalidKey key := by
  unfold Keypad.isPressed Key.ofByte
  split
  · simp [Except.map]
    omega
  · simp_all [Except.map, eq_comm]

theorem storeBytes_eq_error_iff {m m' : Machine σ} {bytes : List UInt8} (hne : bytes ≠ [])
    {fault : Fault} :
    m.storeBytes bytes = .error fault m' ↔
      4096 < m.i.toNat + bytes.length ∧ fault = .outOfBounds (max m.i 0x1000) ∧
        { m with memory := (m.memory.store m.i bytes).1 } = m' := by
  simp only [storeBytes, nextUnless_eq_error_iff, Memory.store_fault_iff, hne, ne_eq,
    not_false_eq_true, true_and, and_assoc]

theorem draw_eq_error_iff [EventSource σ] {m m' : Machine σ} {op : Opcode} {byte : UInt8}
    {fault : Fault} :
    m.perform op byte .draw = .error fault m' ↔
      (m.memory.slice m.i op.n).2 = some fault ∧ m = m' := by
  simp only [perform]
  split
  · next e => simp [e]
  · next e => simp [e]

theorem refused_of_perform [EventSource σ] {m m' : Machine σ} {op : Opcode} {byte : UInt8}
    {i : Instruction} {fault : Fault} (h : m.perform op byte i = .error fault m') :
    Refused m op i fault m' := by
  cases i
  case ret =>
    obtain ⟨refused, rfl⟩ := (attempt_eq_error_iff (by simp)).1 h
    obtain ⟨sp, rfl⟩ := (CallStack.pop_eq_error_iff _ _).1 refused
    exact .ret sp
  case call =>
    obtain ⟨refused, rfl⟩ := (attempt_eq_error_iff (by simp)).1 h
    obtain ⟨sp, rfl⟩ := (CallStack.push_eq_error_iff _ _ _).1 refused
    exact .call sp
  case skipHeld =>
    obtain ⟨refused, rfl⟩ := (attempt_eq_error_iff (by simp)).1 h
    obtain ⟨le, rfl⟩ := isPressed_eq_error_iff.1 refused
    exact .skipHeld le
  case skipNotHeld =>
    obtain ⟨refused, rfl⟩ := (attempt_eq_error_iff (by simp)).1 h
    obtain ⟨le, rfl⟩ := isPressed_eq_error_iff.1 refused
    exact .skipNotHeld le
  case glyph =>
    simp only [perform] at h
    split at h
    · cases h
    · cases h
      exact .glyph (Nat.not_lt.1 ‹_›)
  case draw =>
    obtain ⟨refused, rfl⟩ := draw_eq_error_iff.1 h
    obtain ⟨pos, lt, rfl⟩ := (Memory.slice_fault_iff _ _ _ _).1 refused
    exact .draw pos lt
  case storeDigits =>
    change m.storeBytes (Arithmetic.decimal (m.v.get op.x)) = _ at h
    obtain ⟨lt, rfl, rfl⟩ := (storeBytes_eq_error_iff (List.cons_ne_nil _ _)).1 h
    exact .storeDigits lt
  case saveRegs =>
    have length := m.v.length_upTo op.x
    obtain ⟨lt, rfl, rfl⟩ :=
      (storeBytes_eq_error_iff (List.ne_nil_of_length_eq_add_one length)).1 h
    exact .saveRegs (length ▸ lt)
  case restoreRegs =>
    have ⟨refused, eq⟩ := nextUnless_eq_error_iff.1 h
    obtain ⟨-, lt, rfl⟩ := (Memory.slice_fault_iff m.memory m.i (op.x + 1) _).1 refused
    exact eq ▸ .restoreRegs lt
  case awaitKey =>
    simp only [perform] at h
    split at h <;> cases h
  all_goals cases h

theorem perform_of_refused [EventSource σ] {m m' : Machine σ} {op : Opcode} {byte : UInt8}
    {i : Instruction} {fault : Fault} (h : Refused m op i fault m') :
    m.perform op byte i = .error fault m' := by
  cases h with
  | ret h =>
    exact (attempt_eq_error_iff (by simp)).2 ⟨(CallStack.pop_eq_error_iff _ _).2 ⟨h, rfl⟩, rfl⟩
  | call h =>
    exact (attempt_eq_error_iff (by simp)).2 ⟨(CallStack.push_eq_error_iff _ _ _).2 ⟨h, rfl⟩, rfl⟩
  | skipHeld h =>
    exact (attempt_eq_error_iff (by simp)).2 ⟨isPressed_eq_error_iff.2 ⟨h, rfl⟩, rfl⟩
  | skipNotHeld h =>
    exact (attempt_eq_error_iff (by simp)).2 ⟨isPressed_eq_error_iff.2 ⟨h, rfl⟩, rfl⟩
  | glyph h => exact if_neg (Nat.not_lt.2 h)
  | draw pos h =>
    exact draw_eq_error_iff.2 ⟨(Memory.slice_fault_iff _ _ _ _).2 ⟨pos, h, rfl⟩, rfl⟩
  | storeDigits h =>
    change m.storeBytes (Arithmetic.decimal (m.v.get op.x)) = _
    exact (storeBytes_eq_error_iff (List.cons_ne_nil _ _)).2 ⟨h, rfl, rfl⟩
  | saveRegs h =>
    have length := m.v.length_upTo op.x
    exact (storeBytes_eq_error_iff (List.ne_nil_of_length_eq_add_one length)).2
      ⟨length.symm ▸ h, rfl, rfl⟩
  | restoreRegs h =>
    exact nextUnless_eq_error_iff.2
      ⟨(Memory.slice_fault_iff _ _ _ _).2 ⟨Nat.succ_pos _, h, rfl⟩, rfl⟩

theorem perform_eq_error_iff [EventSource σ] {m m' : Machine σ} {op : Opcode} (byte : UInt8)
    {i : Instruction} {fault : Fault} :
    m.perform op byte i = .error fault m' ↔ Refused m op i fault m' :=
  ⟨refused_of_perform, perform_of_refused⟩

/-- **A failing step.** Either no word could be fetched, or the instruction of the word was
refused. -/
theorem step_eq_error_iff [EventSource σ] {m m' : Machine σ} {byte : UInt8} {fault : Fault} :
    m.step byte = .error fault m' ↔
      (m.fetch = .error fault ∧ m = m') ∨
        ∃ op, m.fetch = .ok op ∧ Refused m op (Instruction.decode op) fault m' := by
  unfold step
  cases hf : m.fetch with
  | error f => simp [attempt]
  | ok op =>
    simp only [attempt, execute_decode, reduceCtorEq, false_and, false_or, Except.ok.injEq,
      exists_eq_left']
    rw [← perform_eq_error_iff byte]
    split
    · next e => simp [e]
    · next e => simp [e]

/-! ## When a step fails -/

/-- When a step fails and with which fault, told by the bytes in memory. All sums are exact. -/
inductive Refuses (m : Machine σ) : Fault → Prop
  /-- no word ends inside memory -/
  | fetch (h : 0xFFF ≤ m.pc.toNat) : Refuses m (.outOfBounds (max m.pc 0x1000))
  /-- `00EE` with no call open -/
  | ret {op : Opcode} (word : m.Reads op) (is : op.toNat = 0x00EE) (h : m.stack.sp = 16) :
    Refuses m .stackUnderflow
  /-- `2nnn` with sixteen calls open -/
  | call {op : Opcode} (word : m.Reads op) (is : op.family = 0x2) (h : m.stack.sp = 0) :
    Refuses m .stackOverflow
  /-- `Ex9E` or `ExA1` on a number that is no key -/
  | key {op : Opcode} (word : m.Reads op) (is : op.Is 0xE 0x9E ∨ op.Is 0xE 0xA1)
    (h : 0xF < (m.v.get op.x).toNat) : Refuses m (.invalidKey (m.v.get op.x))
  /-- `Fx29` on a number without a glyph -/
  | glyph {op : Opcode} (word : m.Reads op) (is : op.Is 0xF 0x29)
    (h : 0xF < (m.v.get op.x).toNat) : Refuses m (.noGlyph (m.v.get op.x))
  /-- `Dxyn` with a last row past the end of memory -/
  | draw {op : Opcode} (word : m.Reads op) (is : op.family = 0xD) (pos : 1 ≤ op.n)
    (h : 0xFFF < m.i.toNat + op.n - 1) : Refuses m (.outOfBounds (max m.i 0x1000))
  /-- `Fx33` with a last digit past the end of memory -/
  | digits {op : Opcode} (word : m.Reads op) (is : op.Is 0xF 0x33)
    (h : 0xFFF < m.i.toNat + 2) : Refuses m (.outOfBounds (max m.i 0x1000))
  /-- `Fx55` or `Fx65` with a last register past the end of memory -/
  | bulk {op : Opcode} (word : m.Reads op) (is : op.Is 0xF 0x55 ∨ op.Is 0xF 0x65)
    (h : 0xFFF < m.i.toNat + op.x) : Refuses m (.outOfBounds (max m.i 0x1000))

theorem refuses_of_refused {m m' : Machine σ} {op : Opcode} (word : m.Reads op) {fault : Fault}
    (h : Refused m op (Instruction.decode op) fault m') : m.Refuses fault := by
  have selects := Instruction.selects_decode op
  generalize Instruction.decode op = i at h selects
  cases h with
  | ret h => exact .ret word selects h
  | call h => exact .call word selects h
  | skipHeld h => exact .key word (.inl selects) h
  | skipNotHeld h => exact .key word (.inr selects) h
  | glyph h => exact .glyph word selects h
  | draw pos h => exact .draw word selects pos (by omega)
  | storeDigits h => exact .digits word selects (by omega)
  | saveRegs h => exact .bulk word (.inl selects) (by omega)
  | restoreRegs h => exact .bulk word (.inr selects) (by omega)

theorem refused_of_selects {m m' : Machine σ} {op : Opcode} {i : Instruction} {fault : Fault}
    (h : Refused m op i fault m') (selects : i.Selects op) (word : m.Reads op) :
    ∃ op m', m.fetch = .ok op ∧ Refused m op (Instruction.decode op) fault m' := by
  have known : i ≠ .unknown := by
    rintro rfl
    cases h
  exact ⟨op, m', fetch_eq_ok_iff.2 word, Instruction.decode_of_selects known selects ▸ h⟩

theorem refused_of_refuses {m : Machine σ} {fault : Fault} (h : m.Refuses fault) :
    m.fetch = .error fault ∨
      ∃ op m', m.fetch = .ok op ∧ Refused m op (Instruction.decode op) fault m' := by
  cases h with
  | fetch h => exact .inl (fetch_eq_error_iff.2 ⟨h, rfl⟩)
  | ret word is h => exact .inr (refused_of_selects (.ret h) is word)
  | call word is h => exact .inr (refused_of_selects (.call h) is word)
  | key word is h =>
    rcases is with is | is
    · exact .inr (refused_of_selects (.skipHeld h) is word)
    · exact .inr (refused_of_selects (.skipNotHeld h) is word)
  | glyph word is h => exact .inr (refused_of_selects (.glyph h) is word)
  | draw word is pos h => exact .inr (refused_of_selects (.draw pos (by omega)) is word)
  | digits word is h => exact .inr (refused_of_selects (.storeDigits (by omega)) is word)
  | bulk word is h =>
    rcases is with is | is
    · exact .inr (refused_of_selects (.saveRegs (by omega)) is word)
    · exact .inr (refused_of_selects (.restoreRegs (by omega)) is word)

/-- A step that succeeds is on a machine without a reason to fail. -/
theorem not_refuses_of_step [EventSource σ] {m m' : Machine σ} {byte : UInt8}
    (h : m.step byte = .ok () m') (fault : Fault) : ¬ m.Refuses fault := by
  intro refuses
  rcases refused_of_refuses refuses with hf | ⟨op, k, hf, refused⟩
  · have failed : m.step byte = .error fault m := step_eq_error_iff.2 (.inl ⟨hf, rfl⟩)
    rw [h] at failed
    cases failed
  · have failed : m.step byte = .error fault k := step_eq_error_iff.2 (.inr ⟨op, hf, refused⟩)
    rw [h] at failed
    cases failed

/-- **When a step fails.** A step fails exactly on the machines that `Refuses` lists, with the fault
given there. The faults of other operations are not among them. -/
theorem step_fails_iff [EventSource σ] (m : Machine σ) (byte : UInt8) :
    (∀ fault, (∃ m', m.step byte = .error fault m') ↔ m.Refuses fault) ∧
      (∀ m' op i, m.step byte ≠ .error (.mismatch op i) m') ∧
      (∀ m' size room, m.step byte ≠ .error (.programTooLarge size room) m') ∧
      (∀ m' reason, m.step byte ≠ .error (.render reason) m') ∧
      ∀ m' reason, m.step byte ≠ .error (.io reason) m' := by
  have fails : ∀ fault, (∃ m', m.step byte = .error fault m') ↔ m.Refuses fault := by
    intro fault
    constructor
    · rintro ⟨m', h⟩
      rcases step_eq_error_iff.1 h with ⟨hf, rfl⟩ | ⟨op, hf, refused⟩
      · obtain ⟨le, rfl⟩ := fetch_eq_error_iff.1 hf
        exact .fetch le
      · exact refuses_of_refused (fetch_eq_ok_iff.1 hf) refused
    · intro h
      rcases refused_of_refuses h with hf | ⟨op, m', hf, refused⟩
      · exact ⟨m, step_eq_error_iff.2 (.inl ⟨hf, rfl⟩)⟩
      · exact ⟨m', step_eq_error_iff.2 (.inr ⟨op, hf, refused⟩)⟩
  refine ⟨fails, ?_, ?_, ?_, ?_⟩
  · intro m' op i h
    cases (fails _).1 ⟨m', h⟩
  · intro m' size room h
    cases (fails _).1 ⟨m', h⟩
  · intro m' reason h
    cases (fails _).1 ⟨m', h⟩
  · intro m' reason h
    cases (fails _).1 ⟨m', h⟩

/-! ## What a failed step leaves -/

/-- What a step that failed leaves of a machine, when some ticks went by. Only `Fx33`, `Fx55` and
`Fx65` get to work before they fail, and only from an address register inside memory. -/
structure Spared (m : Machine σ) (ticks : Nat) (m' : Machine σ) : Prop where
  pc : m'.pc = m.pc
  i : m'.i = m.i
  stack : m'.stack = m.stack
  screen : m'.screen = m.screen
  timer : m'.timer = m.timer.elapse ticks
  keypad : m'.keypad = m.keypad
  quit : m'.quit = m.quit
  memory : (∀ op, m.Reads op → op.Is 0xF 0x33 ∨ op.Is 0xF 0x55 → 0xFFF < m.i.toNat) →
    m'.memory = m.memory
  /-- `Fx33` stores the hundreds and then the tens at the addresses up to the end of memory; there is
  no address left for the ones. -/
  digits : ∀ op, m.Reads op → op.Is 0xF 0x33 → ∀ a : Fin 4096, m.i.toNat ≤ a →
    (a : Nat) = m.i.toNat ∧ (m'.memory.get a).toNat = (m.v.get op.x).toNat / 100 ∨
      (a : Nat) = m.i.toNat + 1 ∧ (m'.memory.get a).toNat = (m.v.get op.x).toNat / 10 % 10
  /-- `Fx55` stores the leading registers at the addresses up to the end of memory. -/
  saved : ∀ op, m.Reads op → op.Is 0xF 0x55 → ∀ a : Fin 4096, m.i.toNat ≤ a →
    ∃ r : Fin 16, (a : Nat) = m.i.toNat + r ∧ m'.memory.get a = m.v.get r
  below : ∀ a : Fin 4096, a < m.i.toNat → m'.memory.get a = m.memory.get a
  v : (∀ op, m.Reads op → op.Is 0xF 0x65 → 0xFFF < m.i.toNat) → m'.v = m.v
  /-- `Fx65` fills the leading registers from the addresses up to the end of memory. -/
  restored : ∀ op, m.Reads op → op.Is 0xF 0x65 → ∀ (r : Fin 16) (h : m.i.toNat + r < 4096),
    m'.v.get r = m.memory.get ⟨m.i.toNat + r, h⟩
  beyond : ∀ r : Fin 16, 0xFFF < m.i.toNat + r → m'.v.get r = m.v.get r

theorem getElem?_of_get_store (m : Memory) {address : UInt16} (bytes : List UInt8) {a : Fin 4096}
    (past : 4096 < address.toNat + bytes.length) (h : address.toNat ≤ a) :
    bytes[a - address.toNat]? = some ((m.store address bytes).1.get a) := by
  have lt : a - address.toNat < bytes.length := by omega
  rw [Memory.get_store, if_pos h, List.getD_eq_getElem?_getD, List.getElem?_eq_getElem lt,
    Option.getD_some]

theorem get_store_decimal {m : Machine σ} (x : UInt8) {a : Fin 4096}
    (past : 4096 < m.i.toNat + 3) (h : m.i.toNat ≤ a) :
    (a : Nat) = m.i.toNat ∧
        ((m.memory.store m.i (Arithmetic.decimal x)).1.get a).toNat = x.toNat / 100 ∨
      (a : Nat) = m.i.toNat + 1 ∧
        ((m.memory.store m.i (Arithmetic.decimal x)).1.get a).toNat = x.toNat / 10 % 10 := by
  have stored : [x.toNat / 100, x.toNat / 10 % 10, x.toNat % 10][a - m.i.toNat]? =
      some ((m.memory.store m.i (Arithmetic.decimal x)).1.get a).toNat := by
    rw [← Arithmetic.toNat_decimal, List.getElem?_map, getElem?_of_get_store _ _ past h,
      Option.map_some]
  -- the third digit is the one that does not fit
  obtain first | second : (a : Nat) = m.i.toNat ∨ (a : Nat) = m.i.toNat + 1 := by omega
  · rw [first, Nat.sub_self] at stored
    exact .inl ⟨first, (Option.some.inj stored).symm⟩
  · rw [second, Nat.add_sub_cancel_left] at stored
    exact .inr ⟨second, (Option.some.inj stored).symm⟩

theorem get_store_upTo {m : Machine σ} {x : Fin 16} {a : Fin 4096}
    (past : 4096 < m.i.toNat + (x + 1)) (h : m.i.toNat ≤ a) :
    ∃ r : Fin 16, (a : Nat) = m.i.toNat + r ∧
      (m.memory.store m.i (m.v.upTo x)).1.get a = m.v.get r := by
  have le : (⟨a - m.i.toNat, by omega⟩ : Fin 16) ≤ x := by
    rw [Fin.le_def]
    simp only
    omega
  have stored := getElem?_of_get_store m.memory (m.v.upTo x) (m.v.length_upTo x ▸ past) h
  rw [Registers.getElem?_upTo m.v le] at stored
  exact ⟨_, (Nat.add_sub_cancel' h).symm, (Option.some.inj stored).symm⟩

theorem get_fill_slice_of_lt {m : Machine σ} {x r : Fin 16}
    (past : 4096 < m.i.toNat + (x + 1)) (h : m.i.toNat + r < 4096) :
    (m.v.fill (m.memory.slice m.i (x + 1)).1).get r = m.memory.get ⟨m.i.toNat + r, h⟩ := by
  rw [Registers.get_fill, List.getD_eq_getElem?_getD, Memory.getElem?_slice,
    dif_pos ⟨by omega, h⟩, Option.getD_some]

theorem get_fill_slice_of_le {m : Machine σ} {count : Nat} {r : Fin 16}
    (h : 0xFFF < m.i.toNat + r) : (m.v.fill (m.memory.slice m.i count).1).get r = m.v.get r := by
  rw [Registers.get_fill, List.getD_eq_getElem?_getD, Memory.getElem?_slice,
    dif_neg (by omega), Option.getD_none]

theorem Reads.unique {m : Machine σ} {op op' : Opcode} (h : m.Reads op) (h' : m.Reads op') :
    op' = op :=
  Except.ok.inj ((fetch_eq_ok_iff.2 h').symm.trans (fetch_eq_ok_iff.2 h))

section

variable {m m' : Machine σ} {op : Opcode} {i : Instruction} {fault : Fault}

theorem get_memory_of_refused (h : Refused m op i fault m') {a : Fin 4096}
    (lt : a < m.i.toNat) : m'.memory.get a = m.memory.get a := by
  cases h with
  | storeDigits _ => rw [Memory.get_store, if_neg (Nat.not_le.2 lt)]
  | saveRegs _ => rw [Memory.get_store, if_neg (Nat.not_le.2 lt)]
  | _ => rfl

theorem get_v_of_refused (h : Refused m op i fault m') {r : Fin 16}
    (past : 0xFFF < m.i.toNat + r) : m'.v.get r = m.v.get r := by
  cases h with
  | restoreRegs _ => exact get_fill_slice_of_le past
  | _ => rfl

theorem memory_of_refused (h : Refused m op i fault m') (selects : i.Selects op)
    (outside : op.Is 0xF 0x33 ∨ op.Is 0xF 0x55 → 0xFFF < m.i.toNat) : m'.memory = m.memory := by
  -- no address comes after an address register past the end of memory
  have same : 0xFFF < m.i.toNat → m'.memory = m.memory := fun past =>
    Memory.ext_get fun a => get_memory_of_refused h (by omega)
  cases h with
  | storeDigits _ => exact same (outside (.inl selects))
  | saveRegs _ => exact same (outside (.inr selects))
  | _ => rfl

theorem v_of_refused (h : Refused m op i fault m') (selects : i.Selects op)
    (outside : op.Is 0xF 0x65 → 0xFFF < m.i.toNat) : m'.v = m.v := by
  have same : 0xFFF < m.i.toNat → m'.v = m.v := fun past =>
    Registers.ext_get fun r => get_v_of_refused h (by omega)
  cases h with
  | restoreRegs _ => exact same (outside selects)
  | _ => rfl

/-- The word that is read decides the instruction. -/
theorem Reads.selects_unique {op' : Opcode} {j : Instruction} (word : m.Reads op)
    (decoded : Instruction.decode op = i) (word' : m.Reads op') (selects : j.Selects op')
    (known : j ≠ .unknown) : op' = op ∧ i = j := by
  obtain rfl := word.unique word'
  exact ⟨rfl, decoded.symm.trans (Instruction.decode_of_selects known selects)⟩

theorem spared_of_refused (h : Refused m op i fault m') (hi : Instruction.decode op = i)
    (word : m.Reads op) : m.Spared 0 m' := by
  have selects : i.Selects op := hi ▸ Instruction.selects_decode op
  constructor
  case memory => exact fun outside => memory_of_refused h selects (outside op word)
  case v => exact fun outside => v_of_refused h selects (outside op word)
  case below => exact fun a lt => get_memory_of_refused h lt
  case beyond => exact fun r past => get_v_of_refused h past
  case timer => rw [DelayTimer.elapse_zero]; cases h <;> rfl
  case digits =>
    intro op' word' is a le
    obtain ⟨rfl, rfl⟩ : op' = op ∧ i = .storeDigits := word.selects_unique hi word' is nofun
    cases h with
    | storeDigits past => exact get_store_decimal (m.v.get op'.x) past le
  case saved =>
    intro op' word' is a le
    obtain ⟨rfl, rfl⟩ : op' = op ∧ i = .saveRegs := word.selects_unique hi word' is nofun
    cases h with
    | saveRegs past => exact get_store_upTo past le
  case restored =>
    intro op' word' is r lt
    obtain ⟨rfl, rfl⟩ : op' = op ∧ i = .restoreRegs := word.selects_unique hi word' is nofun
    cases h with
    | restoreRegs past => exact get_fill_slice_of_lt past lt
  all_goals cases h <;> rfl

end

theorem spared_self {m : Machine σ} (unread : ∀ op, ¬ m.Reads op) : m.Spared 0 m := by
  refine ⟨rfl, rfl, rfl, rfl, (m.timer.elapse_zero).symm, rfl, rfl, fun _ => rfl, ?_, ?_,
    fun _ _ => rfl, fun _ => rfl, ?_, fun _ _ => rfl⟩
  · exact fun op word => absurd word (unread op)
  · exact fun op word => absurd word (unread op)
  · exact fun op word => absurd word (unread op)

theorem spared_of_step [EventSource σ] {m m' : Machine σ} {byte : UInt8} {fault : Fault}
    (h : m.step byte = .error fault m') : m.Spared 0 m' := by
  rcases step_eq_error_iff.1 h with ⟨hf, rfl⟩ | ⟨op, hf, refused⟩
  · refine spared_self fun op word => ?_
    rw [fetch_eq_ok_iff.2 word] at hf
    cases hf
  · exact spared_of_refused refused rfl (fetch_eq_ok_iff.1 hf)

/-- **What a failed step leaves.** -/
theorem spared_of_stepAt [EventSource σ] {m m' : Machine σ} {moment : Moment} {fault : Fault}
    (h : m.stepAt moment = .error fault m') : m.Spared moment.ticks m' :=
  have left := spared_of_step h
  ⟨left.pc, left.i, left.stack, left.screen, by rw [left.timer, DelayTimer.elapse_zero]; rfl,
    left.keypad, left.quit, left.memory, left.digits, left.saved, left.below, left.v, left.restored,
    left.beyond⟩

/-- A machine that is about to store the digits of 193 where only two addresses are left. -/
def digitTooMany : Machine Script :=
  { new (Script.ofEvents []) with
    v := Registers.zero.put Registers.first 193
    memory := (Memory.initial.store Memory.programStart [0xF0, 0x33]).1
    i := 0xFFE }

theorem reads_digitTooMany : digitTooMany.Reads 0xF033 := by
  refine ⟨by decide, ?_⟩
  simp only [digitTooMany, Memory.get_store]
  rfl

theorem spared_digitTooMany :
    ∃ m', digitTooMany.stepAt ⟨3, 0⟩ = .error (.outOfBounds (max 0xFFE 0x1000)) m' ∧
      digitTooMany.Spared 3 m' ∧
      (∀ a : Fin 4096, (a : Nat) = 0xFFE → (m'.memory.get a).toNat = 1) ∧
      ∀ a : Fin 4096, (a : Nat) = 0xFFF → (m'.memory.get a).toNat = 9 := by
  have refused : Refused (digitTooMany.elapse 3) 0xF033 .storeDigits _ _ :=
    .storeDigits (by decide)
  have decoded : Instruction.decode 0xF033 = .storeDigits := by decide
  rw [← decoded] at refused
  have word : (digitTooMany.elapse 3).Reads 0xF033 := reads_digitTooMany
  have failed : digitTooMany.stepAt ⟨3, 0⟩ = .error _ _ :=
    step_eq_error_iff.2 (.inr ⟨0xF033, fetch_eq_ok_iff.2 word, refused⟩)
  have left := spared_of_stepAt failed
  have digits := left.digits _ reads_digitTooMany ⟨rfl, rfl⟩
  have start : digitTooMany.i.toNat = 0xFFE := rfl
  refine ⟨_, failed, left, ?_, ?_⟩
  · intro a ha
    obtain ⟨-, hundreds⟩ | ⟨second, -⟩ := digits a (by omega)
    · exact hundreds
    · omega
  · intro a ha
    obtain ⟨first, -⟩ | ⟨-, tens⟩ := digits a (by omega)
    · omega
    · exact tens

end Chip8.Machine
