import Chip8.Proofs.Calls

/-!
# What an instruction changes

* `Opcode.Stores`, `Opcode.Assigns`: the addresses and the registers that a word may change.
* `Machine.Frame`: whatever is different in a machine is something that the word may change.
* `frame_of_perform`, **`frame_of_stepAt`**: so it is after every instruction and step that succeeds.
* `keypad_of_perform`: only a wait for a key touches the keypad and the quit flag.
* `window_of_perform`: a word that stores and succeeds has all its addresses inside memory.
* **`stored_of_follow`**: a byte that steps have changed is one that a step among them stored.
* **`footprint`**: all of this together.
-/

namespace Chip8

namespace Opcode

/-- The addresses that `Fx33` and `Fx55` store to from an address on. The sums are exact. -/
def Stores (op : Opcode) (i a : Nat) : Prop :=
  (op.Is 0xF 0x33 ∧ i ≤ a ∧ a ≤ i + 2) ∨ (op.Is 0xF 0x55 ∧ i ≤ a ∧ a ≤ i + op.x)

/-- The words that put a byte into `Vx`, and into no other register. -/
def PutsByte (op : Opcode) : Prop :=
  op.family = 0x6 ∨ op.family = 0x7 ∨ (op.family = 0x8 ∧ op.n ≤ 0x3) ∨ op.family = 0xC ∨
    op.Is 0xF 0x07 ∨ op.Is 0xF 0x0A

/-- The words that put a result into `Vx` and its flag into `VF`. -/
def PutsResult (op : Opcode) : Prop :=
  op.family = 0x8 ∧ ((0x4 ≤ op.n ∧ op.n ≤ 0x7) ∨ op.n = 0xE)

/-- The registers that a word may change. -/
inductive Assigns (op : Opcode) : Fin 16 → Prop
  | byte (is : op.PutsByte) : Assigns op op.x
  | result (is : op.PutsResult) : Assigns op op.x
  | carry (is : op.PutsResult) : Assigns op Registers.flag
  | collision (is : op.family = 0xD) : Assigns op Registers.flag
  | restored (is : op.Is 0xF 0x65) {r : Fin 16} (le : r ≤ op.x) : Assigns op r

theorem PutsResult.assigns {op : Opcode} {r : Fin 16} (is : op.PutsResult)
    (h : r = op.x ∨ r = Registers.flag) : op.Assigns r := by
  rcases h with rfl | rfl
  · exact .result is
  · exact .carry is

end Opcode

/-! ## Registers and bytes that differ -/

section

variable {v : Registers} {x r : Fin 16} {byte : UInt8} {raised : Bool}

theorem Registers.eq_of_put (h : (v.put x byte).get r ≠ v.get r) : r = x := by
  by_contra ne
  exact h (get_put_of_ne v ne byte)

theorem Registers.eq_of_putFlagFirst (h : (v.putFlagFirst x byte raised).get r ≠ v.get r) :
    r = x ∨ r = flag := by
  by_contra ne
  rw [not_or] at ne
  apply h
  rw [putFlagFirst, get_put_of_ne _ ne.1, get_put_of_ne _ ne.2]

theorem Registers.eq_of_putFlagLast (h : (v.putFlagLast x byte raised).get r ≠ v.get r) :
    r = x ∨ r = flag := by
  by_contra ne
  rw [not_or] at ne
  apply h
  rw [putFlagLast, get_put_of_ne _ ne.2, get_put_of_ne _ ne.1]

theorem Registers.le_of_fill {memory : Memory} {address : UInt16}
    (h : (v.fill (memory.slice address (x + 1)).1).get r ≠ v.get r) : r ≤ x := by
  by_contra lt
  apply h
  rw [get_fill, List.getD_eq_getElem?_getD, Memory.getElem?_slice, dif_neg (by omega),
    Option.getD_none]

end

theorem Memory.between_of_store {memory : Memory} {address : UInt16} {bytes : List UInt8}
    {a : Fin 4096} (h : (memory.store address bytes).1.get a ≠ memory.get a) :
    address.toNat ≤ a ∧ a < address.toNat + bytes.length := by
  rw [get_store] at h
  by_cases le : address.toNat ≤ a
  · refine ⟨le, ?_⟩
    by_contra past
    have none : bytes[a - address.toNat]? = none := List.getElem?_eq_none (by omega)
    rw [if_pos le, List.getD_eq_getElem?_getD, none] at h
    exact h rfl
  · rw [if_neg le] at h
    exact absurd rfl h

namespace Machine

variable {σ : Type}

/-! ## One instruction -/

/-- Every part of a machine that differs is one that the word may change. -/
structure Frame (m : Machine σ) (op : Opcode) (n : Machine σ) : Prop where
  v : ∀ r, n.v.get r ≠ m.v.get r → op.Assigns r
  i : n.i ≠ m.i → op.family = 0xA ∨ op.Is 0xF 0x1E ∨ op.Is 0xF 0x29
  stack : n.stack ≠ m.stack → op.family = 0x2 ∨ op.toNat = 0x00EE
  memory : ∀ a, n.memory.get a ≠ m.memory.get a → op.Stores m.i.toNat a
  screen : n.screen ≠ m.screen → op.toNat = 0x00E0 ∨ op.family = 0xD
  timer : n.timer ≠ m.timer → op.Is 0xF 0x15
  keypad : n.keypad ≠ m.keypad → op.Is 0xF 0x0A
  quit : n.quit ≠ m.quit → op.Is 0xF 0x0A

theorem Frame.refl (m : Machine σ) (op : Opcode) : m.Frame op m where
  v _ h := absurd rfl h
  i h := absurd rfl h
  stack h := absurd rfl h
  memory _ h := absurd rfl h
  screen h := absurd rfl h
  timer h := absurd rfl h
  keypad h := absurd rfl h
  quit h := absurd rfl h

/-- The program counter is not part of the frame. -/
theorem Frame.advance {m n : Machine σ} {op : Opcode} (h : m.Frame op n) (target : Advance) :
    m.Frame op (n.advance target) := by
  cases target <;> exact { h with }

theorem Frame.put {m : Machine σ} {op : Opcode} (is : op.PutsByte) (byte : UInt8) :
    m.Frame op { m with v := m.v.put op.x byte } := by
  refine { Frame.refl m op with v := ?_ }
  intro r h
  obtain rfl := Registers.eq_of_put h
  exact .byte is

theorem Frame.putResult {m n : Machine σ} {op : Opcode} (is : op.PutsResult) {a : Arithmetic.Result}
    {target : Advance} (h : m.putResult op.x a = .ok target n) : m.Frame op n := by
  cases h
  refine { Frame.refl m op with v := ?_ }
  intro r h
  exact is.assigns (Registers.eq_of_putFlagFirst h)

theorem storeBytes_of_room {m : Machine σ} {bytes : List UInt8}
    (room : m.i.toNat + bytes.length ≤ 4096) :
    m.storeBytes bytes = .ok .next { m with memory := (m.memory.store m.i bytes).1 } := by
  simp only [Machine.storeBytes, Memory.store_of_room m.memory room]
  rfl

theorem stored_of_storeBytes {m n : Machine σ} {bytes : List UInt8} (hne : bytes ≠ [])
    {target : Advance} (h : m.storeBytes bytes = .ok target n) :
    m.i.toNat + bytes.length ≤ 4096 ∧ n = { m with memory := (m.memory.store m.i bytes).1 } := by
  constructor
  · by_contra past
    have failed := (storeBytes_eq_error_iff hne).2 ⟨Nat.not_le.1 past, rfl, rfl⟩
    rw [failed] at h
    cases h
  · exact (nextUnless_eq_ok h).2

theorem Frame.storeBytes {m n : Machine σ} {op : Opcode} {bytes : List UInt8} (hne : bytes ≠ [])
    (stores : ∀ a, m.i.toNat ≤ a → a < m.i.toNat + bytes.length → op.Stores m.i.toNat a)
    {target : Advance} (h : m.storeBytes bytes = .ok target n) : m.Frame op n := by
  obtain ⟨-, rfl⟩ := stored_of_storeBytes hne h
  refine { Frame.refl m op with memory := ?_ }
  intro a differs
  obtain ⟨le, lt⟩ := Memory.between_of_store differs
  exact stores a le lt

/-- What an instruction that succeeds changes, told by the words that select it. -/
theorem frame_of_perform [EventSource σ] {m n : Machine σ} {op : Opcode} {byte : UInt8}
    {i : Instruction} {target : Advance} (selects : i.Selects op)
    (h : m.perform op byte i = .ok target n) : m.Frame op n := by
  have same := Frame.refl m op
  cases i
  case ret =>
    obtain ⟨⟨address, stack⟩, _, go⟩ := attempt_eq_ok h
    cases go
    exact { same with stack := fun _ => .inr selects }
  case call =>
    obtain ⟨stack, _, go⟩ := attempt_eq_ok h
    cases go
    exact { same with stack := fun _ => .inl selects }
  case skipHeld | skipNotHeld =>
    obtain ⟨down, _, go⟩ := attempt_eq_ok h
    cases go
    exact same
  case loadByte =>
    cases h
    exact .put (.inl selects) _
  case addByte =>
    cases h
    exact .put (.inr (.inl selects)) _
  case copy | or | and | xor =>
    have le : op.n ≤ 0x3 := Nat.le_trans (Nat.le_of_eq selects.2) (by decide)
    cases h
    exact .put (.inr (.inr (.inl ⟨selects.1, le⟩))) _
  case random =>
    cases h
    exact .put (.inr (.inr (.inr (.inl selects)))) _
  case readTimer =>
    cases h
    exact .put (.inr (.inr (.inr (.inr (.inl selects))))) _
  case sub | subFrom | shiftRight =>
    have between : 0x4 ≤ op.n ∧ op.n ≤ 0x7 := by rw [selects.2]; decide
    exact .putResult ⟨selects.1, .inl between⟩ h
  case shiftLeft => exact .putResult ⟨selects.1, .inr selects.2⟩ h
  case add =>
    have between : 0x4 ≤ op.n ∧ op.n ≤ 0x7 := by rw [selects.2]; decide
    have is : op.PutsResult := ⟨selects.1, .inl between⟩
    -- here the flag comes last
    cases h
    refine { same with v := ?_ }
    intro r differs
    exact is.assigns (Registers.eq_of_putFlagLast differs)
  case loadIndex =>
    cases h
    exact { same with i := fun _ => .inl selects }
  case addIndex =>
    cases h
    exact { same with i := fun _ => .inr (.inl selects) }
  case glyph =>
    simp only [perform] at h
    split at h <;> cases h
    exact { same with i := fun _ => .inr (.inr selects) }
  case storeDigits =>
    refine .storeBytes (List.cons_ne_nil _ _) ?_ h
    intro a le lt
    exact .inl ⟨selects, le, Nat.le_of_lt_succ lt⟩
  case saveRegs =>
    have length := m.v.length_upTo op.x
    refine .storeBytes (List.ne_nil_of_length_eq_add_one length) ?_ h
    intro a le lt
    rw [length] at lt
    exact .inr ⟨selects, le, Nat.le_of_lt_succ lt⟩
  case restoreRegs =>
    obtain ⟨-, rfl⟩ := nextUnless_eq_ok h
    refine { same with v := ?_ }
    intro r differs
    exact .restored selects (Registers.le_of_fill differs)
  case clear =>
    cases h
    exact { same with screen := fun _ => .inl selects }
  case draw =>
    simp only [perform] at h
    split at h <;> cases h
    refine { same with v := ?_, screen := fun _ => .inr selects }
    intro r differs
    obtain rfl := Registers.eq_of_put differs
    exact .collision selects
  case awaitKey =>
    simp only [perform] at h
    split at h
    · next key keypad eq =>
      cases h
      have put : m.Frame op { m with v := m.v.put op.x (UInt8.ofNat key) } :=
        .put (.inr (.inr (.inr (.inr (.inr selects))))) _
      exact { put with keypad := fun _ => selects }
    · cases h
      exact { same with keypad := fun _ => selects, quit := fun _ => selects }
  case setTimer =>
    cases h
    exact { same with timer := fun _ => selects }
  all_goals
    cases h
    exact same

/-- An instruction that succeeds leaves the keypad and the quit flag alone, or it waits for a key. Then the
flag is raised if there is none. -/
theorem keypad_of_perform [EventSource σ] {m n : Machine σ} {op : Opcode} {byte : UInt8}
    {target : Advance} (h : m.perform op byte (Instruction.decode op) = .ok target n) :
    (n.keypad = m.keypad ∧ n.quit = m.quit) ∨ (op.Is 0xF 0x0A ∧ n.keypad = m.keypad.awaitKey.2 ∧
      n.quit = (m.quit || m.keypad.awaitKey.1.isNone)) := by
  have selects := Instruction.selects_decode op
  by_cases hi : Instruction.decode op = .awaitKey
  · rw [hi] at h selects
    refine .inr ⟨selects, ?_⟩
    simp only [perform] at h
    split at h
    · next key keypad eq =>
      cases h
      rw [eq]
      exact ⟨rfl, (Bool.or_false m.quit).symm⟩
    · next keypad eq =>
      cases h
      rw [eq]
      exact ⟨rfl, (Bool.or_true m.quit).symm⟩
  · have frame := frame_of_perform selects h
    have other : ¬ op.Is 0xF 0x0A := fun is => hi (Instruction.decode_of_selects (by decide) is)
    refine .inl ⟨?_, ?_⟩
    · by_contra differs
      exact other (frame.keypad differs)
    · by_contra differs
      exact other (frame.quit differs)

/-- A word that stores and succeeds has all its addresses inside memory. -/
theorem window_of_perform [EventSource σ] {m n : Machine σ} {op : Opcode} {byte : UInt8}
    {target : Advance} (h : m.perform op byte (Instruction.decode op) = .ok target n) {a : Nat}
    (stores : op.Stores m.i.toNat a) : a < 0x1000 := by
  rcases stores with ⟨is, _, le⟩ | ⟨is, _, le⟩
  · have decoded : Instruction.decode op = .storeDigits := Instruction.decode_of_selects nofun is
    rw [decoded] at h
    have room : m.i.toNat + 3 ≤ 4096 := (stored_of_storeBytes (List.cons_ne_nil _ _) h).1
    omega
  · have decoded : Instruction.decode op = .saveRegs := Instruction.decode_of_selects nofun is
    have length := m.v.length_upTo op.x
    rw [decoded] at h
    have room := (stored_of_storeBytes (List.ne_nil_of_length_eq_add_one length) h).1
    rw [length] at room
    omega

/-! ## Steps -/

variable [EventSource σ] {m m' : Machine σ} {op : Opcode} {moment : Moment}

/-- **What a step changes**, besides the ticks that go by before it. -/
theorem frame_of_stepAt (word : m.Reads op) (h : m.stepAt moment = .ok () m') :
    (m.elapse moment.ticks).Frame op m' := by
  obtain ⟨op', target, n, hf, done, rfl⟩ := perform_of_step h
  obtain rfl : op' = op := word.unique (fetch_eq_ok_iff.1 hf)
  exact (frame_of_perform (Instruction.selects_decode op') done).advance target

theorem window_of_stepAt (word : m.Reads op) (h : m.stepAt moment = .ok () m') {a : Nat}
    (stores : op.Stores m.i.toNat a) : a < 0x1000 := by
  obtain ⟨op', target, n, hf, done, rfl⟩ := perform_of_step h
  obtain rfl : op' = op := word.unique (fetch_eq_ok_iff.1 hf)
  exact window_of_perform done stores

theorem stepAt_of_storeDigits (word : m.Reads op) (is : op.Is 0xF 0x33)
    (room : m.i.toNat + 3 ≤ 4096) (moment : Moment) :
    m.stepAt moment = .ok () { m.elapse moment.ticks with
      memory := (m.memory.store m.i (Arithmetic.decimal (m.v.get op.x))).1
      pc := m.pc + 2 } := by
  have done : (m.elapse moment.ticks).perform op moment.byte .storeDigits = .ok .next
      { m.elapse moment.ticks with
        memory := (m.memory.store m.i (Arithmetic.decimal (m.v.get op.x))).1 } := by
    change (m.elapse moment.ticks).storeBytes (Arithmetic.decimal (m.v.get op.x)) = _
    exact storeBytes_of_room (m := m.elapse moment.ticks) room
  exact stepAt_of_selects word moment done is (by decide)

@[simp] theorem memory_pollIf (m : Machine σ) (polled : Bool) :
    (m.pollIf polled).memory = m.memory := by
  cases polled <;> rfl

/-- **What steps in a row store.** A byte that differs after them lies where one of them stored. -/
theorem stored_of_follow {turns : List Turn} (h : m.follow turns = .ok () m') {a : Fin 4096}
    (differs : m'.memory.get a ≠ m.memory.get a) :
    ∃ first turn last n n' op, turns = first ++ turn :: last ∧ m.follow first = .ok () n ∧
      n.stepAt turn.moment = .ok () n' ∧ n.Reads op ∧ op.Stores n.i.toNat a := by
  induction turns generalizing m with
  | nil =>
    cases h
    exact absurd rfl differs
  | cons turn turns ih =>
    obtain ⟨k, op, hf, hs, rest⟩ := stepAt_of_follow h
    have word : m.Reads op := fetch_eq_ok_iff.1 hf
    by_cases now : k.memory.get a = m.memory.get a
    · -- the first step did not, so one of the others did
      have later : m'.memory.get a ≠ (k.pollIf turn.polled).memory.get a := by
        rw [memory_pollIf, now]
        exact differs
      obtain ⟨first, turn', last, n, n', op', rfl, before, step, read, stores⟩ := ih rest later
      exact ⟨turn :: first, turn', last, n, n', op', rfl, (follow_cons hs first).trans before, step,
        read, stores⟩
    · have stores := (frame_of_stepAt word hs).memory a now
      exact ⟨[], turn, turns, m, k, op, rfl, rfl, hs, word, stores⟩

/-- **Footprints.** A step that succeeds changes only what its word may change, and stores only
inside memory; a word that is no instruction moves the program counter and does nothing else. After any
number of steps a byte of memory differs only if one of them stored there. -/
theorem footprint (m : Machine σ) :
    (∀ moment m', m.stepAt moment = .ok () m' → ∃ op, m.Reads op ∧
      (m.elapse moment.ticks).Frame op m' ∧ (∀ a, op.Stores m.i.toNat a → a < 0x1000) ∧
        (Instruction.decode op = .unknown →
          m' = { m.elapse moment.ticks with pc := m.pc + 2 })) ∧
    ∀ turns m', m.follow turns = .ok () m' → ∀ a, m'.memory.get a ≠ m.memory.get a →
      ∃ first turn last n n' op, turns = first ++ turn :: last ∧ m.follow first = .ok () n ∧
        n.stepAt turn.moment = .ok () n' ∧ n.Reads op ∧ op.Stores n.i.toNat a := by
  refine ⟨?_, fun turns m' h a differs => stored_of_follow h differs⟩
  intro moment m' h
  obtain ⟨op, hf⟩ := fetch_of_stepAt h
  have word : m.Reads op := fetch_eq_ok_iff.1 hf
  refine ⟨op, word, frame_of_stepAt word h, fun a => window_of_stepAt word h, ?_⟩
  intro unknown
  rw [stepAt_of_unknown word unknown] at h
  cases h
  rfl

/-- A machine that is about to store the digits of 193 at the last three addresses. -/
def digitsAtEnd : Machine Script :=
  { digitTooMany with i := 0xFFD }

theorem footprint_digitsAtEnd : ∃ turn m', digitsAtEnd.follow [turn] = .ok () m' ∧
    digitsAtEnd.memory.get 0xFFE = 0 ∧ m'.memory.get 0xFFE = 9 ∧
      (digitsAtEnd.elapse turn.moment.ticks).Frame 0xF033 m' ∧
        ∃ (n : Machine Script) (op : Opcode), n.Reads op ∧ op.Stores n.i.toNat 0xFFE := by
  have word : digitsAtEnd.Reads 0xF033 := reads_digitTooMany
  have hs := stepAt_of_storeDigits word ⟨rfl, rfl⟩ (by decide) ⟨0, 0⟩
  have followed := follow_concat false follow_nil hs
  have before : digitsAtEnd.memory.get 0xFFE = 0 := by
    simp only [digitsAtEnd, digitTooMany, Memory.get_store, Memory.get_initial]
    rfl
  generalize hn : mk _ _ _ _ _ _ _ _ _ = n at hs followed
  have after : n.memory.get 0xFFE = 9 := by
    rw [← hn]
    change (digitsAtEnd.memory.store 0xFFD [1, 9, 3]).1.get 0xFFE = 9
    rw [Memory.get_store]
    rfl
  have differs : n.memory.get 0xFFE ≠ digitsAtEnd.memory.get 0xFFE := by
    rw [before, after]
    decide
  obtain ⟨op, read, frame, -, -⟩ := (footprint digitsAtEnd).1 _ _ hs
  obtain rfl := word.unique read
  obtain ⟨-, -, -, k, -, op, -, -, -, read', stores⟩ :=
    (footprint digitsAtEnd).2 _ _ followed 0xFFE differs
  exact ⟨_, n, followed, before, after, frame, k, op, read', stores⟩

end Machine

end Chip8
