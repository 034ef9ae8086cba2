import Chip8.Instruction.Pattern

/-!
# Words and their instructions

* `land_split`: a mask acts on the first digit apart; `toNat_land_F000`, `toNat_land_F00F`, `toNat_land_F0FF`
  say what the masks of the patterns keep.
* `Opcode.Is`: the words with a first digit and a second byte.
* `Instruction.Selects`: the words of an instruction, told by their digits.
* `matches_iff_selects`: the pattern table and the digits pick the same words.
* `selects_decode`, `decode_of_selects`: a word decodes to the instruction that its digits select.
-/

namespace Chip8

/-! ## Masks -/

/-- A mask acts on the first digit and on the other three apart. -/
theorem land_split (a b : Nat) :
    a &&& b = 4096 * (a / 4096 &&& b / 4096) + (a % 4096 &&& b % 4096) := by
  have high : (a &&& b) / 4096 = a / 4096 &&& b / 4096 := Nat.and_div_two_pow (n := 12)
  have low : (a &&& b) % 4096 = a % 4096 &&& b % 4096 := Nat.and_mod_two_pow (n := 12)
  rw [← high, ← low, Nat.div_add_mod]

namespace Opcode

theorem family_land (op : Opcode) : op.family &&& 15 = op.family :=
  Nat.and_two_pow_sub_one_of_lt_two_pow (n := 4) op.family_lt

theorem toNat_land_F000 (op : Opcode) : (op &&& 0xF000).toNat = 4096 * op.family := by
  have high : op.toNat / 4096 &&& 15 = op.family := op.family_land
  rw [UInt16.toNat_and, land_split]
  change 4096 * (op.toNat / 4096 &&& 15) + (op.toNat % 4096 &&& 0) = _
  rw [high, Nat.and_zero, Nat.add_zero]

theorem toNat_land_F00F (op : Opcode) : (op &&& 0xF00F).toNat = 4096 * op.family + op.n := by
  have high : op.toNat / 4096 &&& 15 = op.family := op.family_land
  have low : op.toNat % 4096 &&& 15 = op.n := by
    rw [show 15 = 2 ^ 4 - 1 from rfl, Nat.and_two_pow_sub_one_eq_mod, n]
    omega
  rw [UInt16.toNat_and, land_split]
  change 4096 * (op.toNat / 4096 &&& 15) + (op.toNat % 4096 &&& 15) = _
  rw [high, low]

theorem toNat_land_F0FF (op : Opcode) : (op &&& 0xF0FF).toNat = 4096 * op.family + op.kk.toNat := by
  have high : op.toNat / 4096 &&& 15 = op.family := op.family_land
  have low : op.toNat % 4096 &&& 255 = op.kk.toNat := by
    rw [show 255 = 2 ^ 8 - 1 from rfl, Nat.and_two_pow_sub_one_eq_mod, toNat_kk]
    omega
  rw [UInt16.toNat_and, land_split]
  change 4096 * (op.toNat / 4096 &&& 15) + (op.toNat % 4096 &&& 255) = _
  rw [high, low]

theorem land_FFFF (op : Opcode) : op &&& 0xFFFF = op := by
  rw [← UInt16.toNat_inj, UInt16.toNat_and]
  exact Nat.and_two_pow_sub_one_of_lt_two_pow (n := 16) op.toNat_lt

/-- The words with a first digit and a second byte, such as `Fx33`. -/
def Is (op : Opcode) (digit byte : Nat) : Prop := op.family = digit ∧ op.kk.toNat = byte

end Opcode

/-! ## Digits -/

namespace Instruction

/-- The words of each instruction by their digits. -/
def Selects (i : Instruction) (op : Opcode) : Prop :=
  match i with
  | clear => op.toNat = 0x00E0
  | ret => op.toNat = 0x00EE
  | jump => op.family = 0x1
  | call => op.family = 0x2
  | skipEqByte => op.family = 0x3
  | skipNeByte => op.family = 0x4
  | skipEqReg => op.family = 0x5
  | loadByte => op.family = 0x6
  | addByte => op.family = 0x7
  | copy => op.family = 0x8 ∧ op.n = 0x0
  | or => op.family = 0x8 ∧ op.n = 0x1
  | and => op.family = 0x8 ∧ op.n = 0x2
  | xor => op.family = 0x8 ∧ op.n = 0x3
  | add => op.family = 0x8 ∧ op.n = 0x4
  | sub => op.family = 0x8 ∧ op.n = 0x5
  | shiftRight => op.family = 0x8 ∧ op.n = 0x6
  | subFrom => op.family = 0x8 ∧ op.n = 0x7
  | shiftLeft => op.family = 0x8 ∧ op.n = 0xE
  | skipNeReg => op.family = 0x9
  | loadIndex => op.family = 0xA
  | jumpOffset => op.family = 0xB
  | random => op.family = 0xC
  | draw => op.family = 0xD
  | skipHeld => op.Is 0xE 0x9E
  | skipNotHeld => op.Is 0xE 0xA1
  | readTimer => op.Is 0xF 0x07
  | awaitKey => op.Is 0xF 0x0A
  | setTimer => op.Is 0xF 0x15
  | addIndex => op.Is 0xF 0x1E
  | glyph => op.Is 0xF 0x29
  | storeDigits => op.Is 0xF 0x33
  | saveRegs => op.Is 0xF 0x55
  | restoreRegs => op.Is 0xF 0x65
  | unknown => True

theorem matches_iff_selects (i : Instruction) (op : Opcode) : i.Matches op ↔ i.Selects op := by
  have := op.family_lt
  have := op.n_lt
  have := op.kk.toNat_lt
  unfold Matches Pattern.Matches
  cases i <;>
    simp only [pattern, Selects, Opcode.Is, ← UInt16.toNat_inj, Opcode.toNat_land_F000,
      Opcode.toNat_land_F00F, Opcode.toNat_land_F0FF, Opcode.land_FFFF, UInt16.toNat_ofNat]
  case unknown => simp
  all_goals simp only [Nat.reducePow, Nat.reduceMod]
  all_goals omega

theorem selects_decode (op : Opcode) : (decode op).Selects op := by
  unfold decode
  repeat' split
  all_goals trivial

theorem decode_of_selects {i : Instruction} {op : Opcode} (hi : i ≠ unknown) (h : i.Selects op) :
    decode op = i := by
  cases i <;> simp_all [Selects, Opcode.Is, decode]
  · simp [Opcode.family, h]
  · simp [Opcode.family, h]

end Instruction

end Chip8
