import Chip8.Machine

/-!
# The post-mortem text

* `PostMortem`: registers, open calls, address register, program counter and stack pointer.
* `PostMortem.render`: its text in three lines. Registers have two hexadecimal digits, addresses three
  or more, and the stack pointer is decimal.
* `Machine.dump`: the post-mortem text of a machine.
-/

namespace Chip8

/-- What is looked at when a machine has stopped. -/
@[ext]
structure PostMortem where
  v : Registers
  /-- the return addresses of the open calls -/
  live : List UInt16
  i : UInt16
  pc : UInt16
  sp : Nat
  deriving DecidableEq

namespace PostMortem

/-- Hexadecimal numbers, each with a blank after it. -/
def fields (width : Nat) (ns : List Nat) : List Char :=
  ns.flatMap fun n => Hex.field width n ++ [' ']

/-- The characters of the text. -/
def chars (p : PostMortem) : List Char :=
  "V: [ ".toList ++ fields 2 (p.v.toList.map UInt8.toNat) ++
    "]\nstack: [ ".toList ++ fields 3 (p.live.map UInt16.toNat) ++
    "]\nI: ".toList ++ Hex.field 3 p.i.toNat ++
    "  PC: ".toList ++ Hex.field 3 p.pc.toNat ++
    "  SP: ".toList ++ Nat.toDigits 10 p.sp

/-- The text. -/
def render (p : PostMortem) : String := String.ofList p.chars

end PostMortem

namespace Machine

variable {σ : Type}

/-- What is looked at when the machine has stopped. -/
def postMortem (m : Machine σ) : PostMortem where
  v := m.v
  live := m.stack.live
  i := m.i
  pc := m.pc
  sp := m.stack.sp

/-- The post-mortem text. -/
def dump (m : Machine σ) : String := m.postMortem.render

end Machine

end Chip8
