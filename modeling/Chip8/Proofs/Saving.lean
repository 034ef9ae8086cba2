import Chip8.Proofs.Footprint

/-!
# Registers saved and restored

* `slice_store`, `slice_of_kept`, `store_slice`: bytes that are stored are read again, and storing what
  was read changes nothing.
* `get_fill_upTo`, `upTo_fill`: the first registers as bytes, and bytes as the first registers.
* `room_of_stepAt`, `stepAt_of_saveRegs`, `stepAt_of_restoreRegs`: when `Fx55` and `Fx65` succeed, and what
  they leave.
* `Machine.Recalls`: a machine that is about to restore what another one has saved.
  `restored_of_recalls`: it gets these registers back.
* `perform_saveRegs_self`: to save registers over bytes that are equal to them changes nothing.
* **`save_restore`**: saving and restoring undo each other.
-/

namespace Chip8

/-! ## Bytes in memory -/

namespace Memory

variable (m : Memory) {address : UInt16}

theorem length_slice_of_room {count : Nat} (room : address.toNat + count ≤ 4096) :
    (m.slice address count).1.length = count := by
  apply Nat.le_antisymm
  · rw [← List.getElem?_eq_none_iff, getElem?_slice, dif_neg fun h => Nat.lt_irrefl _ h.1]
  · by_contra short
    have inside := getElem?_slice m address count (m.slice address count).1.length
    rw [List.getElem?_eq_none (Nat.le_refl _), dif_pos ⟨by omega, by omega⟩] at inside
    cases inside

/-- Memories with the same bytes at some addresses have the same slice there. -/
theorem slice_congr {m m' : Memory} {count : Nat}
    (same : ∀ a : Fin 4096, address.toNat ≤ a → (a : Nat) < address.toNat + count →
      m'.get a = m.get a) : (m'.slice address count).1 = (m.slice address count).1 := by
  apply List.ext_getElem?
  intro k
  rw [getElem?_slice, getElem?_slice]
  by_cases h : k < count ∧ address.toNat + k < 4096
  · rw [dif_pos h, dif_pos h,
      same ⟨address.toNat + k, h.2⟩ (Nat.le_add_right _ _) (Nat.add_lt_add_left h.1 _)]
  · rw [dif_neg h, dif_neg h]

/-- The first of some bytes that were stored are read where they were stored. -/
theorem slice_store {bytes : List UInt8} (room : address.toNat + bytes.length ≤ 4096) {count : Nat}
    (le : count ≤ bytes.length) :
    ((m.store address bytes).1.slice address count).1 = bytes.take count := by
  apply List.ext_getElem?
  intro k
  rw [getElem?_slice, List.getElem?_take]
  by_cases h : k < count
  · have stored := get_store m address bytes ⟨address.toNat + k, by omega⟩
    rw [if_pos (Nat.le_add_right _ _)] at stored
    simp only [Nat.add_sub_cancel_left] at stored
    rw [dif_pos ⟨h, by omega⟩, if_pos h, stored, List.getD_eq_getElem?_getD,
      List.getElem?_eq_getElem (by omega), Option.getD_some]
  · rw [dif_neg fun and => h and.1, if_neg h]

/-- So they are later, as long as their addresses keep them. -/
theorem slice_of_kept {m m' : Memory} {bytes : List UInt8}
    (room : address.toNat + bytes.length ≤ 4096) {count : Nat} (le : count ≤ bytes.length)
    (kept : ∀ a : Fin 4096, address.toNat ≤ a → (a : Nat) < address.toNat + count →
      m'.get a = (m.store address bytes).1.get a) :
    (m'.slice address count).1 = bytes.take count := by
  rw [slice_congr kept, slice_store m room le]

/-- Storing the bytes that are there changes nothing. -/
theorem store_slice (count : Nat) : (m.store address (m.slice address count).1).1 = m := by
  apply ext_get
  intro a
  rw [get_store]
  by_cases h : address.toNat ≤ a
  · rw [if_pos h, List.getD_eq_getElem?_getD, getElem?_slice]
    by_cases inside : a - address.toNat < count
    · have place : address.toNat + (a - address.toNat) = a := by omega
      have lt := a.isLt
      rw [dif_pos ⟨inside, by omega⟩, Option.getD_some]
      simp only [place]
    · rw [dif_neg fun and => inside and.1, Option.getD_none]
  · rw [if_neg h]

end Memory

/-! ## Bytes in registers -/

namespace Registers

variable (v w : Registers) {x r : Fin 16}

/-- The first registers go over to others as bytes. -/
theorem get_fill_upTo : (w.fill (v.upTo x)).get r = if r ≤ x then v.get r else w.get r := by
  rw [get_fill, List.getD_eq_getElem?_getD]
  by_cases h : r ≤ x
  · rw [getElem?_upTo v h, Option.getD_some, if_pos h]
  · have none : (v.upTo x)[(r : Nat)]? = none := List.getElem?_eq_none (by rw [length_upTo]; omega)
    rw [none, Option.getD_none, if_neg h]

theorem upTo_fill {bytes : List UInt8} (length : bytes.length = x + 1) :
    (w.fill bytes).upTo x = bytes := by
  apply List.ext_getElem?
  intro k
  by_cases h : k < x + 1
  · have lt : k < bytes.length := length ▸ h
    have le : (⟨k, by omega⟩ : Fin 16) ≤ x := Nat.le_of_lt_succ h
    have filled := getElem?_upTo (w.fill bytes) le
    rw [get_fill, List.getD_eq_getElem?_getD, List.getElem?_eq_getElem lt, Option.getD_some] at filled
    rw [List.getElem?_eq_getElem lt]
    exact filled
  · rw [List.getElem?_eq_none (by rw [length_upTo]; omega), List.getElem?_eq_none (by omega)]

theorem take_upTo {y : Fin 16} (le : y ≤ x) : (v.upTo x).take (y + 1) = v.upTo y := by
  rw [upTo, upTo, List.take_take, Nat.min_eq_left (Nat.succ_le_succ le)]

end Registers

namespace Machine

/-! ## Steps -/

variable {σ : Type} [EventSource σ] {m m' : Machine σ} {op : Opcode} {moment : Moment}

/-- Registers that are saved or restored by a step that succeeds have their addresses inside memory. -/
theorem room_of_stepAt (word : m.Reads op) (is : op.Is 0xF 0x55 ∨ op.Is 0xF 0x65)
    (h : m.stepAt moment = .ok () m') : m.i.toNat + (op.x + 1) ≤ 4096 := by
  by_contra past
  have last : 0xFFF < (m.elapse moment.ticks).i.toNat + op.x := by
    change 0xFFF < m.i.toNat + op.x
    omega
  exact not_refuses_of_step h _ (.bulk word is last)

theorem perform_saveRegs_of_room (room : m.i.toNat + (op.x + 1) ≤ 4096) (byte : UInt8) :
    m.perform op byte .saveRegs =
      .ok .next { m with memory := (m.memory.store m.i (m.v.upTo op.x)).1 } := by
  change m.storeBytes (m.v.upTo op.x) = _
  exact storeBytes_of_room (by rw [Registers.length_upTo]; exact room)

theorem stepAt_of_saveRegs (word : m.Reads op) (is : op.Is 0xF 0x55)
    (room : m.i.toNat + (op.x + 1) ≤ 4096) (moment : Moment) :
    m.stepAt moment = .ok () { m.elapse moment.ticks with
      memory := (m.memory.store m.i (m.v.upTo op.x)).1
      pc := m.pc + 2 } :=
  stepAt_of_selects word moment
    (perform_saveRegs_of_room (m := m.elapse moment.ticks) room moment.byte) is (by decide)

theorem stepAt_of_restoreRegs (word : m.Reads op) (is : op.Is 0xF 0x65)
    (room : m.i.toNat + (op.x + 1) ≤ 4096) (moment : Moment) :
    m.stepAt moment = .ok () { m.elapse moment.ticks with
      v := m.v.fill (m.memory.slice m.i (op.x + 1)).1
      pc := m.pc + 2 } := by
  have done : (m.elapse moment.ticks).perform op moment.byte .restoreRegs = .ok .next
      { m.elapse moment.ticks with v := m.v.fill (m.memory.slice m.i (op.x + 1)).1 } := by
    simp only [perform, elapse, Memory.slice_of_room m.memory room]
    rfl
  exact (stepAt_of_selects word moment done is (by decide) :)

/-- A restoring step leaves the registers that it names equal to the bytes in memory. -/
theorem left_of_restoreRegs (word : m.Reads op) (is : op.Is 0xF 0x65)
    (h : m.stepAt moment = .ok () m') : m'.i = m.i ∧ m'.memory = m.memory ∧
      m'.v.upTo op.x = (m'.memory.slice m'.i (op.x + 1)).1 := by
  have room := room_of_stepAt word (.inr is) h
  injection h.symm.trans (stepAt_of_restoreRegs word is room moment) with _ left
  subst left
  exact ⟨rfl, rfl, m.v.upTo_fill (m.memory.length_slice_of_room room)⟩

/-- Saving registers that are equal to the bytes in memory changes nothing at all. -/
theorem perform_saveRegs_self (room : m.i.toNat + (op.x + 1) ≤ 4096)
    (same : m.v.upTo op.x = (m.memory.slice m.i (op.x + 1)).1) (byte : UInt8) :
    m.perform op byte .saveRegs = .ok .next m := by
  rw [perform_saveRegs_of_room room, same, Memory.store_slice]

/-! ## Saving and restoring -/

/-- The machine `t` is about to restore, with the word `op'`, some of the registers that `op` has stored
from the same address on. The machine `m'` is the one that `op` has left. -/
structure Recalls (m : Machine σ) (op : Opcode) (m' t : Machine σ) (op' : Opcode) : Prop where
  word : t.Reads op'
  is : op'.Is 0xF 0x65
  le : op'.x ≤ op.x
  i : t.i = m.i
  bytes : ∀ a : Fin 4096, m.i.toNat ≤ a → (a : Nat) ≤ m.i.toNat + op.x →
    t.memory.get a = m'.memory.get a

omit [EventSource σ] in
/-- The bytes to be restored are the registers that were saved. -/
theorem slice_of_recalls {t : Machine σ} {op' : Opcode} (room : m.i.toNat + (op.x + 1) ≤ 4096)
    (stored : m'.memory = (m.memory.store m.i (m.v.upTo op.x)).1) (h : m.Recalls op m' t op') :
    (t.memory.slice t.i (op'.x + 1)).1 = m.v.upTo op'.x := by
  have le : (op'.x : Nat) ≤ op.x := h.le
  have length := m.v.length_upTo op.x
  have kept : ∀ a : Fin 4096, m.i.toNat ≤ a → (a : Nat) < m.i.toNat + (op'.x + 1) →
      t.memory.get a = (m.memory.store m.i (m.v.upTo op.x)).1.get a := by
    intro a from_i below
    rw [← stored]
    exact h.bytes a from_i (by omega)
  rw [h.i, Memory.slice_of_kept (length ▸ room) (by omega) kept, m.v.take_upTo h.le]

theorem restored_of_recalls {t : Machine σ} {op' : Opcode} (word : m.Reads op) (is : op.Is 0xF 0x55)
    (saved : m.stepAt moment = .ok () m') (h : m.Recalls op m' t op') (moment' : Moment) :
    t.stepAt moment' = .ok () { t.elapse moment'.ticks with
      v := t.v.fill (m.v.upTo op'.x)
      pc := t.pc + 2 } := by
  have room := room_of_stepAt word (.inl is) saved
  have le : (op'.x : Nat) ≤ op.x := h.le
  injection saved.symm.trans (stepAt_of_saveRegs word is room moment) with _ left
  subst left
  rw [← slice_of_recalls room rfl h]
  exact stepAt_of_restoreRegs h.word h.is (by rw [h.i]; omega) moment'

/-- **Saving and restoring.** Registers that were saved are restored by a later step from the same
address, as many of them as it names, as long as their bytes have stayed; the other registers, memory and
the address register are left alone. And to save the registers that were just restored changes nothing in
memory, nor in anything else. -/
theorem save_restore (word : m.Reads op) (h : m.stepAt moment = .ok () m') :
    (op.Is 0xF 0x55 → ∀ t op', m.Recalls op m' t op' → ∀ moment', ∃ t',
      t.stepAt moment' = .ok () t' ∧ (∀ r, r ≤ op'.x → t'.v.get r = m.v.get r) ∧
        (∀ r, op'.x < r → t'.v.get r = t.v.get r) ∧ t'.memory = t.memory ∧ t'.i = t.i) ∧
    (op.Is 0xF 0x65 → ∀ op', op'.Is 0xF 0x55 → op'.x = op.x →
      (∀ byte, m'.execute op' byte (Instruction.decode op') = .ok .next m') ∧
        (m'.Reads op' → ∀ moment', ∃ n, m'.stepAt moment' = .ok () n ∧ n.memory = m.memory)) := by
  refine ⟨fun is t op' recalls moment' => ?_, fun is op' is' x => ?_⟩
  · refine ⟨_, restored_of_recalls word is h recalls moment', ?_, ?_, rfl, rfl⟩
    · intro r le
      exact (Registers.get_fill_upTo _ _).trans (if_pos le)
    · intro r lt
      exact (Registers.get_fill_upTo _ _).trans (if_neg (Fin.not_le.2 lt))
  · have room := room_of_stepAt word (.inr is) h
    obtain ⟨i, memory, same⟩ := left_of_restoreRegs word is h
    rw [← i, ← x] at room
    rw [← x] at same
    have decoded : Instruction.decode op' = .saveRegs :=
      Instruction.decode_of_selects (by decide) is'
    refine ⟨fun byte => ?_, fun word' moment' => ?_⟩
    · rw [execute_decode, decoded]
      exact perform_saveRegs_self room same byte
    · have done := perform_saveRegs_self (m := m'.elapse moment'.ticks) room same moment'.byte
      exact ⟨_, stepAt_of_selects word' moment' done is' (by decide), memory⟩

/-- A machine that is about to save two registers at the last two addresses. -/
def savingTwo : Machine Script :=
  { new (Script.ofEvents []) with
    v := Registers.zero.fill [7, 9]
    memory := (Memory.initial.store Memory.programStart [0xF1, 0x55, 0xF0, 0x65]).1
    i := 0xFFE }

/-- The registers are cleared in between, and one of them is restored and saved again. -/
theorem save_restore_two : ∃ m' t t', savingTwo.stepAt ⟨0, 0⟩ = .ok () m' ∧
    t = { m' with v := .zero } ∧ savingTwo.Recalls 0xF155 m' t 0xF065 ∧
      t.stepAt ⟨0, 0⟩ = .ok () t' ∧ t'.v.get Registers.first = 7 ∧
        t'.execute 0xF055 0 (Instruction.decode 0xF055) = .ok .next t' := by
  have word : savingTwo.Reads 0xF155 := by
    refine ⟨by decide, ?_⟩
    simp only [savingTwo, Memory.get_store]
    rfl
  have hs := stepAt_of_saveRegs word ⟨by decide, by decide⟩ (by decide) ⟨0, 0⟩
  generalize hm : mk _ _ _ _ _ _ _ _ _ = m' at hs
  have word' : Reads { m' with v := .zero } 0xF065 := by
    rw [← hm]
    refine ⟨by decide, ?_⟩
    simp only [savingTwo, Memory.get_store]
    rfl
  have recalls : savingTwo.Recalls 0xF155 m' { m' with v := .zero } 0xF065 := by
    refine ⟨word', ⟨by decide, by decide⟩, by decide, ?_, fun _ _ _ => rfl⟩
    rw [← hm]
    rfl
  obtain ⟨t', ht, low, -, -, -⟩ :=
    (save_restore word hs).1 ⟨by decide, by decide⟩ _ _ recalls ⟨0, 0⟩
  obtain ⟨again, -⟩ := (save_restore word' ht).2 ⟨by decide, by decide⟩ 0xF055
    ⟨by decide, by decide⟩ (by decide)
  refine ⟨m', _, t', hs, rfl, recalls, ht, ?_, again 0⟩
  rw [low Registers.first (by decide), savingTwo, Registers.get_fill]
  rfl

end Machine

end Chip8
