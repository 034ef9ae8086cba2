import Chip8.Instruction

/-!
# Patterns and names of instructions

* `Pattern`: the bits of a word that are fixed, and their value.
* `Instruction.pattern`: the pattern of each instruction; that of `unknown` fixes nothing.
* `Instruction.Matches`: a word has the fixed bits of an instruction.
* `Instruction.name`: the pattern and mnemonic in the usual notation.
-/

namespace Chip8

/-- The words that have the bits `value` under `mask`. -/
structure Pattern where
  mask : UInt16
  value : UInt16
  deriving DecidableEq, Repr

/-- The word agrees with the pattern on the masked bits. -/
def Pattern.Matches (p : Pattern) (op : Opcode) : Prop := op &&& p.mask = p.value

instance (p : Pattern) (op : Opcode) : Decidable (p.Matches op) :=
  inferInstanceAs (Decidable (op &&& p.mask = p.value))

namespace Instruction

/-- The words of an instruction. `unknown` leaves every bit open. -/
def pattern : Instruction → Pattern
  | clear => ⟨0xFFFF, 0x00E0⟩
  | ret => ⟨0xFFFF, 0x00EE⟩
  | jump => ⟨0xF000, 0x1000⟩
  | call => ⟨0xF000, 0x2000⟩
  | skipEqByte => ⟨0xF000, 0x3000⟩
  | skipNeByte => ⟨0xF000, 0x4000⟩
  | skipEqReg => ⟨0xF000, 0x5000⟩
  | loadByte => ⟨0xF000, 0x6000⟩
  | addByte => ⟨0xF000, 0x7000⟩
  | copy => ⟨0xF00F, 0x8000⟩
  | or => ⟨0xF00F, 0x8001⟩
  | and => ⟨0xF00F, 0x8002⟩
  | xor => ⟨0xF00F, 0x8003⟩
  | add => ⟨0xF00F, 0x8004⟩
  | sub => ⟨0xF00F, 0x8005⟩
  | shiftRight => ⟨0xF00F, 0x8006⟩
  | subFrom => ⟨0xF00F, 0x8007⟩
  | shiftLeft => ⟨0xF00F, 0x800E⟩
  | skipNeReg => ⟨0xF000, 0x9000⟩
  | loadIndex => ⟨0xF000, 0xA000⟩
  | jumpOffset => ⟨0xF000, 0xB000⟩
  | random => ⟨0xF000, 0xC000⟩
  | draw => ⟨0xF000, 0xD000⟩
  | skipHeld => ⟨0xF0FF, 0xE09E⟩
  | skipNotHeld => ⟨0xF0FF, 0xE0A1⟩
  | readTimer => ⟨0xF0FF, 0xF007⟩
  | awaitKey => ⟨0xF0FF, 0xF00A⟩
  | setTimer => ⟨0xF0FF, 0xF015⟩
  | addIndex => ⟨0xF0FF, 0xF01E⟩
  | glyph => ⟨0xF0FF, 0xF029⟩
  | storeDigits => ⟨0xF0FF, 0xF033⟩
  | saveRegs => ⟨0xF0FF, 0xF055⟩
  | restoreRegs => ⟨0xF0FF, 0xF065⟩
  | unknown => ⟨0x0000, 0x0000⟩

/-- The word has the pattern of the instruction. -/
abbrev Matches (i : Instruction) (op : Opcode) : Prop := i.pattern.Matches op

/-- Every word has the pattern of `unknown`. -/
theorem matches_unknown (op : Opcode) : unknown.Matches op := by
  simp [Matches, Pattern.Matches, pattern]

/-- The pattern of the words and the mnemonic. -/
def name : Instruction → String
  | clear => "00E0 CLS"
  | ret => "00EE RET"
  | jump => "1nnn JP addr"
  | call => "2nnn CALL addr"
  | skipEqByte => "3xkk SE Vx, byte"
  | skipNeByte => "4xkk SNE Vx, byte"
  | skipEqReg => "5xy0 SE Vx, Vy"
  | loadByte => "6xkk LD Vx, byte"
  | addByte => "7xkk ADD Vx, byte"
  | copy => "8xy0 LD Vx, Vy"
  | or => "8xy1 OR Vx, Vy"
  | and => "8xy2 AND Vx, Vy"
  | xor => "8xy3 XOR Vx, Vy"
  | add => "8xy4 ADD Vx, Vy"
  | sub => "8xy5 SUB Vx, Vy"
  | shiftRight => "8xy6 SHR Vx"
  | subFrom => "8xy7 SUBN Vx, Vy"
  | shiftLeft => "8xyE SHL Vx"
  | skipNeReg => "9xy0 SNE Vx, Vy"
  | loadIndex => "Annn LD I, addr"
  | jumpOffset => "Bnnn JP V0, addr"
  | random => "Cxkk RND Vx, byte"
  | draw => "Dxyn DRW Vx, Vy, nibble"
  | skipHeld => "Ex9E SKP Vx"
  | skipNotHeld => "ExA1 SKNP Vx"
  | readTimer => "Fx07 LD Vx, DT"
  | awaitKey => "Fx0A LD Vx, K"
  | setTimer => "Fx15 LD DT, Vx"
  | addIndex => "Fx1E ADD I, Vx"
  | glyph => "Fx29 LD F, Vx"
  | storeDigits => "Fx33 LD B, Vx"
  | saveRegs => "Fx55 LD [I], Vx"
  | restoreRegs => "Fx65 LD Vx, [I]"
  | unknown => "unknown"

end Instruction

end Chip8
