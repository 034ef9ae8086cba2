import Chip8.Hex
import Chip8.Instruction.Pattern

/-!
# Faults

* `Fault`: everything that can stop the machine, by cause.
* `Fault.message`: the text of a fault.
-/

namespace Chip8

/-- Why an operation was refused. -/
inductive Fault
  /-- an address past the end of memory -/
  | outOfBounds (address : UInt16)
  /-- an instruction was to be carried out on a word that does not have its pattern -/
  | mismatch (op : Opcode) (expected : Instruction)
  /-- a call when sixteen calls are open -/
  | stackOverflow
  /-- a return when no call is open -/
  | stackUnderflow
  /-- a key number that the keypad does not have -/
  | invalidKey (key : UInt8)
  /-- a number without a glyph in the font -/
  | noGlyph (index : UInt8)
  /-- a program of `size` bytes where `room` bytes fit -/
  | programTooLarge (size room : Nat)
  /-- the frame could not be shown -/
  | render (reason : String)
  /-- a file could not be read -/
  | io (reason : String)
  deriving DecidableEq, Repr

namespace Fault

/-- A number after `0x`, in `width` digits or more. -/
def hex (width n : Nat) : String :=
  "0x" ++ String.ofList (Hex.field width n)

/-- The text of a fault. Addresses and words have four digits, keys and glyph numbers two. -/
def message : Fault → String
  | outOfBounds address => "memory access out of bounds at address " ++ hex 4 address.toNat
  | mismatch op expected =>
    "handler for " ++ expected.name ++ " received mismatched opcode " ++ hex 4 op.toNat
  | stackOverflow => "stack overflow: more than 16 nested calls"
  | stackUnderflow => "stack underflow: return with an empty call stack"
  | invalidKey key => "invalid key " ++ hex 2 key.toNat ++ ", keypad only has keys 0x0-0xF"
  | noGlyph index => "no font glyph for " ++ hex 2 index.toNat
  | programTooLarge size room =>
    "program is " ++ toString size ++ " bytes, at most " ++ toString room ++ " bytes fit in memory"
  | render reason => "render failed: " ++ reason
  | io reason => "io error: " ++ reason

end Fault

end Chip8
