import Chip8.Opcode

/-!
# The instruction set

* `Instruction`: the thirty-three instructions, and `unknown` for every other word.
* `Instruction.decode`: the instruction of a word. The first digit selects a family; the families
  0, 8, E and F look at a further digit or byte.
-/

namespace Chip8

/-- What a word asks for, its operands left out. -/
inductive Instruction
  /-- `00E0`: blank the screen -/
  | clear
  /-- `00EE`: return from a subroutine -/
  | ret
  /-- `1nnn`: go to an address -/
  | jump
  /-- `2nnn`: enter a subroutine -/
  | call
  /-- `3xkk`: skip if a register equals a byte -/
  | skipEqByte
  /-- `4xkk`: skip if a register differs from a byte -/
  | skipNeByte
  /-- `5xy0`: skip if two registers are equal -/
  | skipEqReg
  /-- `6xkk`: put a byte into a register -/
  | loadByte
  /-- `7xkk`: add a byte to a register, without a flag -/
  | addByte
  /-- `8xy0`: copy a register -/
  | copy
  /-- `8xy1`: bitwise or -/
  | or
  /-- `8xy2`: bitwise and -/
  | and
  /-- `8xy3`: bitwise exclusive or -/
  | xor
  /-- `8xy4`: sum, with the carry as flag -/
  | add
  /-- `8xy5`: difference `Vx - Vy`, with a flag -/
  | sub
  /-- `8xy6`: shift right, the bit shifted out is the flag -/
  | shiftRight
  /-- `8xy7`: difference `Vy - Vx`, with a flag -/
  | subFrom
  /-- `8xyE`: shift left, the bit shifted out is the flag -/
  | shiftLeft
  /-- `9xy0`: skip if two registers differ -/
  | skipNeReg
  /-- `Annn`: put an address into the address register -/
  | loadIndex
  /-- `Bnnn`: go to an address plus `V0` -/
  | jumpOffset
  /-- `Cxkk`: a random byte, masked -/
  | random
  /-- `Dxyn`: draw a sprite -/
  | draw
  /-- `Ex9E`: skip if a key is held -/
  | skipHeld
  /-- `ExA1`: skip if a key is not held -/
  | skipNotHeld
  /-- `Fx07`: read the delay timer -/
  | readTimer
  /-- `Fx0A`: wait for a key -/
  | awaitKey
  /-- `Fx15`: set the delay timer -/
  | setTimer
  /-- `Fx1E`: add a register to the address register -/
  | addIndex
  /-- `Fx29`: point the address register at a glyph of the font -/
  | glyph
  /-- `Fx33`: store the three decimal digits of a register -/
  | storeDigits
  /-- `Fx55`: store `V0` to `Vx` -/
  | saveRegs
  /-- `Fx65`: fill `V0` to `Vx` -/
  | restoreRegs
  /-- any other word; it does nothing -/
  | unknown
  deriving DecidableEq, Repr

namespace Instruction

/-- All instructions, in the order of their words, and `unknown` last. -/
def all : List Instruction :=
  [clear, ret, jump, call, skipEqByte, skipNeByte, skipEqReg, loadByte, addByte, copy, or, and, xor,
    add, sub, shiftRight, subFrom, shiftLeft, skipNeReg, loadIndex, jumpOffset, random, draw,
    skipHeld, skipNotHeld, readTimer, awaitKey, setTimer, addIndex, glyph, storeDigits, saveRegs,
    restoreRegs, unknown]

theorem mem_all (i : Instruction) : i ∈ all := by
  cases i <;> decide

/-- The instruction of a word. -/
def decode (op : Opcode) : Instruction :=
  match op.family with
  | 0x0 =>
    match op.toNat with
    | 0x00E0 => clear
    | 0x00EE => ret
    | _ => unknown
  | 0x1 => jump
  | 0x2 => call
  | 0x3 => skipEqByte
  | 0x4 => skipNeByte
  | 0x5 => skipEqReg
  | 0x6 => loadByte
  | 0x7 => addByte
  | 0x8 =>
    match op.n with
    | 0x0 => copy
    | 0x1 => or
    | 0x2 => and
    | 0x3 => xor
    | 0x4 => add
    | 0x5 => sub
    | 0x6 => shiftRight
    | 0x7 => subFrom
    | 0xE => shiftLeft
    | _ => unknown
  | 0x9 => skipNeReg
  | 0xA => loadIndex
  | 0xB => jumpOffset
  | 0xC => random
  | 0xD => draw
  | 0xE =>
    match op.kk.toNat with
    | 0x9E => skipHeld
    | 0xA1 => skipNotHeld
    | _ => unknown
  | 0xF =>
    match op.kk.toNat with
    | 0x07 => readTimer
    | 0x0A => awaitKey
    | 0x15 => setTimer
    | 0x1E => addIndex
    | 0x29 => glyph
    | 0x33 => storeDigits
    | 0x55 => saveRegs
    | 0x65 => restoreRegs
    | _ => unknown
  | _ => unknown

end Instruction

end Chip8
