import Chip8.Proofs.Calls

/-!
# Where control goes

* `Opcode.Jumps`: the words that name the next address themselves.
* `Instruction.Conditional`: the instructions that may skip.
* `Machine.Holds`, `Machine.Skips`: the condition under which a word passes over the instruction after it.
* `skipIf_of_perform`: a conditional instruction skips just if its condition holds.
* `target_of_skips`, `target_of_perform`: what an instruction that succeeds does with control.
* `Machine.Directed`: where control is after a word, all sums exact; **`directed_of_stepAt`**: so it is after
  every step that succeeds.
* `Opcode.Opposed`: two words that ask the same operands opposite questions.
* **`control_flow`**: where steps go, and that of two opposed words exactly one skips.
-/

namespace Chip8

/-- The words that set the program counter themselves. -/
def Opcode.Jumps (op : Opcode) : Prop :=
  op.toNat = 0x00EE ∨ op.family = 0x1 ∨ op.family = 0x2 ∨ op.family = 0xB

/-- Two words that skip on opposite conditions on the same operands. -/
inductive Opcode.Opposed (op op' : Opcode) : Prop
  | byte (is : op.family = 0x3) (is' : op'.family = 0x4) (x : op'.x = op.x) (kk : op'.kk = op.kk)
  | reg (is : op.family = 0x5) (is' : op'.family = 0x9) (x : op'.x = op.x) (y : op'.y = op.y)
  | key (is : op.Is 0xE 0x9E) (is' : op'.Is 0xE 0xA1) (x : op'.x = op.x)

/-- The instructions that skip on a condition. -/
def Instruction.Conditional (i : Instruction) : Prop :=
  i = skipEqByte ∨ i = skipNeByte ∨ i = skipEqReg ∨ i = skipNeReg ∨ i = skipHeld ∨ i = skipNotHeld

instance (i : Instruction) : Decidable i.Conditional := inferInstanceAs (Decidable (_ ∨ _))

theorem Instruction.conditional_of_selects {i : Instruction} {op : Opcode}
    (conditional : i.Conditional) (selects : i.Selects op) : (decode op).Conditional := by
  have known : i ≠ unknown := by
    rintro rfl
    exact absurd conditional (by decide)
  rw [decode_of_selects known selects]
  exact conditional

namespace Machine

variable {σ : Type}

/-! ## Conditions -/

/-- The key whose number is in a register is down. -/
def Holds (m : Machine σ) (x : Fin 16) : Prop :=
  ∃ key : Key, (key : Nat) = (m.v.get x).toNat ∧ m.keypad.held.isDown key = true

/-- The word passes over the instruction after it. -/
def Skips (m : Machine σ) (op : Opcode) : Prop :=
  match op.family with
  | 0x3 => m.v.get op.x = op.kk
  | 0x4 => m.v.get op.x ≠ op.kk
  | 0x5 => m.v.get op.x = m.v.get op.y
  | 0x9 => m.v.get op.x ≠ m.v.get op.y
  | 0xE => (op.kk.toNat = 0x9E ∧ m.Holds op.x) ∨ (op.kk.toNat = 0xA1 ∧ ¬ m.Holds op.x)
  | _ => False

section

variable {m : Machine σ} {op : Opcode}

theorem skips_iff_eqByte (is : op.family = 0x3) : m.Skips op ↔ m.v.get op.x = op.kk := by
  simp [Skips, is]

theorem skips_iff_neByte (is : op.family = 0x4) : m.Skips op ↔ m.v.get op.x ≠ op.kk := by
  simp [Skips, is]

theorem skips_iff_eqReg (is : op.family = 0x5) : m.Skips op ↔ m.v.get op.x = m.v.get op.y := by
  simp [Skips, is]

theorem skips_iff_neReg (is : op.family = 0x9) : m.Skips op ↔ m.v.get op.x ≠ m.v.get op.y := by
  simp [Skips, is]

theorem skips_iff_held (is : op.Is 0xE 0x9E) : m.Skips op ↔ m.Holds op.x := by
  simp [Skips, is.1, is.2]

theorem skips_iff_notHeld (is : op.Is 0xE 0xA1) : m.Skips op ↔ ¬ m.Holds op.x := by
  simp [Skips, is.1, is.2]

theorem holds_iff {x : Fin 16} {down : Bool} (h : m.keypad.isPressed (m.v.get x) = .ok down) :
    m.Holds x ↔ down = true := by
  unfold Keypad.isPressed Key.ofByte at h
  split at h
  · next lt =>
    cases h
    constructor
    · rintro ⟨key, number, held⟩
      obtain rfl : key = ⟨_, lt⟩ := Fin.ext number
      exact held
    · intro held
      exact ⟨⟨_, lt⟩, rfl, held⟩
  · cases h

end

variable [EventSource σ] {m n m' : Machine σ} {op : Opcode} {byte : UInt8} {target : Advance}

/-! ## One instruction -/

/-- A conditional instruction skips just if its condition holds. -/
theorem skipIf_of_perform {i : Instruction} (conditional : i.Conditional) (selects : i.Selects op)
    (h : m.perform op byte i = .ok target n) :
    ∃ condition, target = .skipIf condition ∧ (condition = true ↔ m.Skips op) := by
  rcases conditional with rfl | rfl | rfl | rfl | rfl | rfl
  · cases h
    exact ⟨_, rfl, by rw [skips_iff_eqByte selects, beq_iff_eq]⟩
  · cases h
    exact ⟨_, rfl, by rw [skips_iff_neByte selects, bne_iff_ne]⟩
  · cases h
    exact ⟨_, rfl, by rw [skips_iff_eqReg selects, beq_iff_eq]⟩
  · cases h
    exact ⟨_, rfl, by rw [skips_iff_neReg selects, bne_iff_ne]⟩
  · obtain ⟨down, pressed, go⟩ := attempt_eq_ok h
    cases go
    exact ⟨_, rfl, by rw [skips_iff_held selects, holds_iff pressed]⟩
  · obtain ⟨down, pressed, go⟩ := attempt_eq_ok h
    cases go
    refine ⟨_, rfl, ?_⟩
    rw [skips_iff_notHeld selects, holds_iff pressed, Bool.not_eq_true', Bool.not_eq_true]

omit [EventSource σ] in
theorem conditional_of_skips (skips : m.Skips op) : (Instruction.decode op).Conditional := by
  unfold Skips at skips
  split at skips
  · next is => exact Instruction.conditional_of_selects (i := .skipEqByte) (by decide) is
  · next is => exact Instruction.conditional_of_selects (i := .skipNeByte) (by decide) is
  · next is => exact Instruction.conditional_of_selects (i := .skipEqReg) (by decide) is
  · next is => exact Instruction.conditional_of_selects (i := .skipNeReg) (by decide) is
  · next is =>
    rcases skips with ⟨last, -⟩ | ⟨last, -⟩
    · exact Instruction.conditional_of_selects (i := .skipHeld) (by decide) ⟨is, last⟩
    · exact Instruction.conditional_of_selects (i := .skipNotHeld) (by decide) ⟨is, last⟩
  · exact skips.elim

/-- A word whose condition holds skips. -/
theorem target_of_skips (skips : m.Skips op)
    (h : m.perform op byte (Instruction.decode op) = .ok target n) : target = .skip := by
  obtain ⟨condition, rfl, holds⟩ :=
    skipIf_of_perform (conditional_of_skips skips) (Instruction.selects_decode op) h
  exact if_pos (holds.2 skips)

/-- A word that neither jumps nor skips goes on to the next instruction. -/
theorem target_of_perform {i : Instruction} (selects : i.Selects op) (stays : ¬ op.Jumps)
    (passes : ¬ m.Skips op) (h : m.perform op byte i = .ok target n) : target = .next := by
  by_cases conditional : i.Conditional
  · obtain ⟨condition, rfl, holds⟩ := skipIf_of_perform conditional selects h
    exact if_neg (mt holds.1 passes)
  cases i
  case ret => exact absurd (.inl selects) stays
  case jump => exact absurd (.inr (.inl selects)) stays
  case call => exact absurd (.inr (.inr (.inl selects))) stays
  case jumpOffset => exact absurd (.inr (.inr (.inr selects))) stays
  case skipEqByte | skipNeByte | skipEqReg | skipNeReg | skipHeld | skipNotHeld =>
    exact absurd (by decide) conditional
  case storeDigits | saveRegs | restoreRegs => exact (nextUnless_eq_ok h).1
  case glyph | draw | awaitKey =>
    simp only [perform] at h
    split at h <;> cases h
    all_goals rfl
  all_goals
    cases h
    rfl

/-- No instruction moves the program counter itself. -/
theorem pc_of_perform {i : Instruction} (h : m.perform op byte i = .ok target n) : n.pc = m.pc := by
  cases i
  case ret | call | skipHeld | skipNotHeld =>
    obtain ⟨_, _, go⟩ := attempt_eq_ok h
    cases go
    rfl
  case storeDigits | saveRegs | restoreRegs =>
    obtain ⟨_, rfl⟩ := nextUnless_eq_ok h
    rfl
  case glyph | draw | awaitKey =>
    simp only [perform] at h
    split at h <;> cases h
    all_goals rfl
  all_goals
    cases h
    rfl

/-! ## Steps -/

/-- Where control is after a word that has been carried out. All sums are exact. -/
structure Directed (m : Machine σ) (op : Opcode) (m' : Machine σ) : Prop where
  jump : op.family = 0x1 ∨ op.family = 0x2 → m'.pc = op.nnn
  offset : op.family = 0xB → m'.pc.toNat = op.nnn.toNat + (m.v.get Registers.first).toNat
  ret : op.toNat = 0x00EE → ∃ live, m.stack.live = m'.pc :: live
  skip : m.Skips op → m'.pc.toNat = m.pc.toNat + 4
  /-- This includes the words that are no instruction, and a wait for a key that a quit ends. -/
  next : ¬ op.Jumps → ¬ m.Skips op → m'.pc.toNat = m.pc.toNat + 2

theorem directed_of_perform (word : m.Reads op)
    (h : m.perform op byte (Instruction.decode op) = .ok target n) :
    m.Directed op (n.advance target) := by
  have selects := Instruction.selects_decode op
  have moves := moves_of_perform h
  constructor
  case jump =>
    rintro (is | is)
    · rw [Instruction.decode_of_selects (i := .jump) (by decide) is] at h
      cases h
      rfl
    · rw [Opcode.family_eq_two_iff.1 is] at h
      obtain ⟨_, _, go⟩ := attempt_eq_ok h
      cases go
      rfl
  case offset =>
    intro is
    rw [Instruction.decode_of_selects (i := .jumpOffset) (by decide) is] at h
    cases h
    exact toNat_offset m op
  case ret =>
    intro is
    rw [Instruction.decode_of_selects (i := .ret) (by decide) is] at moves
    cases moves with
    | ret live => exact ⟨_, live⟩
    | other hr => exact absurd rfl hr
  case skip =>
    intro skips
    obtain rfl := target_of_skips skips h
    rw [← pc_of_perform h]
    exact toNat_pc_add (by rw [pc_of_perform h]; have := word.pc_le; omega) (by decide)
  case next =>
    intro stays passes
    obtain rfl := target_of_perform selects stays passes h
    rw [← word.toNat_next, ← pc_of_perform h]
    rfl

/-- **Where a step goes.** -/
theorem directed_of_stepAt {moment : Moment} (word : m.Reads op)
    (h : m.stepAt moment = .ok () m') : m.Directed op m' := by
  obtain ⟨op', target, n, hf, done, rfl⟩ := perform_of_step h
  obtain rfl : op' = op := word.unique (fetch_eq_ok_iff.1 hf)
  have directed := directed_of_perform (m := m.elapse moment.ticks) word done
  exact ⟨directed.jump, directed.offset, directed.ret, directed.skip, directed.next⟩

/-! ## Opposed words -/

/-- Only a number that is no key is in the way of a conditional instruction. -/
theorem exists_stepAt_of_conditional (word : m.Reads op)
    (conditional : (Instruction.decode op).Conditional)
    (key : op.family = 0xE → (m.v.get op.x).toNat ≤ 0xF) (moment : Moment) :
    ∃ m', m.stepAt moment = .ok () m' := by
  cases hs : m.stepAt moment with
  | ok _ m' => exact ⟨m', rfl⟩
  | error fault k =>
    have fetched : (m.elapse moment.ticks).fetch = .ok op := fetch_eq_ok_iff.2 word
    rcases step_eq_error_iff.1 hs with ⟨failed, -⟩ | ⟨op', hf, refused⟩
    · rw [fetched] at failed
      cases failed
    · obtain rfl : op = op' := Except.ok.inj (fetched.symm.trans hf)
      have selects := Instruction.selects_decode op
      generalize Instruction.decode op = i at conditional refused selects
      rcases conditional with rfl | rfl | rfl | rfl | rfl | rfl <;> cases refused
      · next h => exact absurd (key selects.1) (Nat.not_le.2 h)
      · next h => exact absurd (key selects.1) (Nat.not_le.2 h)

theorem stays_of_opposed {op' : Opcode} (h : op.Opposed op') : ¬ op.Jumps ∧ ¬ op'.Jumps := by
  unfold Opcode.Jumps
  rcases h with ⟨is, is', -, -⟩ | ⟨is, is', -, -⟩ | ⟨⟨is, -⟩, ⟨is', -⟩, -⟩
  all_goals
    unfold Opcode.family at is is' ⊢
    omega

omit [EventSource σ] in
/-- Opposed words ask opposite questions, wherever they are in memory. -/
theorem skips_iff_of_opposed {op' : Opcode} (memory : Memory) (h : op.Opposed op') :
    m.Skips op ↔ ¬ Skips { m with memory } op' := by
  rcases h with ⟨is, is', x, kk⟩ | ⟨is, is', x, y⟩ | ⟨is, is', x⟩
  · rw [skips_iff_eqByte is, skips_iff_neByte is', x, kk]
    exact not_not.symm
  · rw [skips_iff_eqReg is, skips_iff_neReg is', x, y]
    exact not_not.symm
  · rw [skips_iff_held is, skips_iff_notHeld is', x]
    exact not_not.symm

theorem conditional_of_opposed {op' : Opcode} (h : op.Opposed op') :
    (Instruction.decode op).Conditional ∧ (Instruction.decode op').Conditional := by
  rcases h with ⟨is, is', -, -⟩ | ⟨is, is', -, -⟩ | ⟨is, is', -⟩
  · exact ⟨Instruction.conditional_of_selects (i := .skipEqByte) (by decide) is,
      Instruction.conditional_of_selects (i := .skipNeByte) (by decide) is'⟩
  · exact ⟨Instruction.conditional_of_selects (i := .skipEqReg) (by decide) is,
      Instruction.conditional_of_selects (i := .skipNeReg) (by decide) is'⟩
  · exact ⟨Instruction.conditional_of_selects (i := .skipHeld) (by decide) is,
      Instruction.conditional_of_selects (i := .skipNotHeld) (by decide) is'⟩

omit [EventSource σ] in
theorem key_of_opposed {op' : Opcode} (h : op.Opposed op')
    (key : op.family = 0xE → (m.v.get op.x).toNat ≤ 0xF) :
    op'.family = 0xE → (m.v.get op'.x).toNat ≤ 0xF := by
  intro family
  rcases h with ⟨-, is', -, -⟩ | ⟨-, is', -, -⟩ | ⟨is, -, x⟩
  · rw [family] at is'
    cases is'
  · rw [family] at is'
    cases is'
  · rw [x]
    exact key is.1

/-- **Control flow.** A step that succeeds goes where its word directs it, and no sum on the way
wraps. Two opposed words both succeed on the same operands, if these name a key where a key is asked for,
and exactly one of them skips. -/
theorem control_flow (m : Machine σ) :
    (∀ moment m', m.stepAt moment = .ok () m' → ∃ op, m.Reads op ∧ m.Directed op m') ∧
    ∀ (memory : Memory) (op op' : Opcode), m.Reads op → Reads { m with memory } op' →
      op.Opposed op' → (op.family = 0xE → (m.v.get op.x).toNat ≤ 0xF) →
        ∀ moment moment', ∃ n n', m.stepAt moment = .ok () n ∧
          stepAt { m with memory } moment' = .ok () n' ∧
            ((n.pc.toNat = m.pc.toNat + 4 ∧ n'.pc.toNat = m.pc.toNat + 2) ∨
              (n.pc.toNat = m.pc.toNat + 2 ∧ n'.pc.toNat = m.pc.toNat + 4)) := by
  constructor
  · intro moment m' h
    obtain ⟨op, hf⟩ := fetch_of_stepAt h
    have word : m.Reads op := fetch_eq_ok_iff.1 hf
    exact ⟨op, word, directed_of_stepAt word h⟩
  · intro memory op op' word word' opposed key moment moment'
    obtain ⟨conditional, conditional'⟩ := conditional_of_opposed opposed
    have key' := key_of_opposed opposed key
    obtain ⟨n, hn⟩ := exists_stepAt_of_conditional word conditional key moment
    obtain ⟨n', hn'⟩ := exists_stepAt_of_conditional word' conditional' key' moment'
    have directed := directed_of_stepAt word hn
    have directed' := directed_of_stepAt word' hn'
    obtain ⟨stays, stays'⟩ := stays_of_opposed opposed
    refine ⟨n, n', hn, hn', ?_⟩
    by_cases skips : m.Skips op
    · have passes' := (skips_iff_of_opposed memory opposed).1 skips
      exact .inl ⟨directed.skip skips, directed'.next stays' passes'⟩
    · have skips' := not_not.1 (mt (skips_iff_of_opposed memory opposed).2 skips)
      exact .inr ⟨directed.next stays skips, directed'.skip skips'⟩

/-- A machine that is about to ask whether the key `0` is down. -/
def asking : Machine Script :=
  { new (Script.ofEvents []) with
    memory := (Memory.initial.store Memory.programStart [0xE0, 0x9E]).1 }

/-- No key is down, so `E09E` goes on to the next instruction and `E0A1` in its place skips. -/
theorem control_flow_asking : ∃ (memory : Memory) (n n' : Machine Script),
    asking.stepAt ⟨0, 0⟩ = .ok () n ∧ stepAt { asking with memory } ⟨0, 0⟩ = .ok () n' ∧
      n.pc.toNat = 0x202 ∧ n'.pc.toNat = 0x204 := by
  have word : asking.Reads (Opcode.ofBytes 0xE0 0x9E) :=
    reads_of_store (k := 0) rfl (by decide) rfl rfl rfl
  let memory := (Memory.initial.store Memory.programStart [0xE0, 0xA1]).1
  have word' : Reads { asking with memory } (Opcode.ofBytes 0xE0 0xA1) :=
    reads_of_store (k := 0) rfl (by decide) rfl rfl rfl
  have opposed : (Opcode.ofBytes 0xE0 0x9E).Opposed (Opcode.ofBytes 0xE0 0xA1) :=
    .key ⟨by decide, by decide⟩ ⟨by decide, by decide⟩ (by decide)
  obtain ⟨directed, opposite⟩ := control_flow asking
  obtain ⟨n, n', hn, hn', apart⟩ := opposite memory _ _ word word' opposed (by decide) ⟨0, 0⟩ ⟨0, 0⟩
  have up : ¬ asking.Skips (Opcode.ofBytes 0xE0 0x9E) := by
    rw [skips_iff_held ⟨by decide, by decide⟩]
    rintro ⟨key, -, held⟩
    exact absurd held (by simp [asking, new, Keypad.new])
  obtain ⟨op, read, goes⟩ := directed _ _ hn
  obtain rfl := word.unique read
  have next : n.pc.toNat = 0x202 := goes.next (stays_of_opposed opposed).1 up
  rcases apart with ⟨skipped, -⟩ | ⟨-, skipped⟩
  · rw [next] at skipped
    exact absurd skipped (by decide)
  · exact ⟨memory, n, n', hn, hn', next, skipped⟩

end Machine

end Chip8
