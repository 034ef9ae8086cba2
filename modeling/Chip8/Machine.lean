import Chip8.CallStack
import Chip8.DelayTimer
import Chip8.Keypad
import Chip8.Memory
import Chip8.Registers
import Chip8.Screen

/-!
# The machine

* `Machine`: registers, call stack, memory, screen, timer and keypad, on a host that reports events.
* `Machine.new`: nothing is loaded; control starts at `0x200`.
* `Outcome`: what an operation leaves, a fault being no reason to forget the machine.
* `Machine.load`, `Machine.loadFile`: a program is put into memory and nothing else changes.
* `Machine.fetch`: the word at the program counter.
* `Machine.push`, `Machine.pop`, `Machine.elapse`: the call stack and the timer from outside.
-/

namespace Chip8

/-- Everything the machine remembers. -/
@[ext]
structure Machine (σ : Type) where
  /-- the registers `V0` to `VF` -/
  v : Registers
  /-- the address register -/
  i : UInt16
  /-- the program counter -/
  pc : UInt16
  stack : CallStack
  memory : Memory
  screen : Screen
  timer : DelayTimer
  keypad : Keypad σ
  /-- the host asked to quit while the machine waited for a key -/
  quit : Bool

/-- What an operation leaves: an answer or a fault, and the machine. -/
abbrev Outcome (σ α : Type) := EStateM.Result Fault (Machine σ) α

namespace Machine

variable {σ : Type}

/-- A machine without a program. -/
def new (host : σ) : Machine σ where
  v := .zero
  i := 0
  pc := Memory.programStart
  stack := .empty
  memory := .initial
  screen := .blank
  timer := .new
  keypad := .new host
  quit := false

/-- Goes on with the result of an operation that leaves the machine alone when it is refused. -/
def attempt {α β : Type} (m : Machine σ) (result : Except Fault α) (go : α → Outcome σ β) :
    Outcome σ β :=
  match result with
  | .ok a => go a
  | .error fault => .error fault m

/-- Puts a program into memory. Registers and control stay as they are. -/
def load (m : Machine σ) (program : List UInt8) : Outcome σ Unit :=
  m.attempt (m.memory.load program) fun memory => .ok () { m with memory }

/-- Puts the content of a file into memory, if the file could be read. -/
def loadFile (m : Machine σ) (content : Except Fault (List UInt8)) : Outcome σ Unit :=
  m.attempt content m.load

/-- The word at the program counter. -/
def fetch (m : Machine σ) : Except Fault Opcode := do
  let high ← m.memory.read m.pc
  let low ← m.memory.read (m.pc + 1)
  return Opcode.ofBytes high low

/-- Opens a call. -/
def push (m : Machine σ) (address : UInt16) : Outcome σ Unit :=
  m.attempt (m.stack.push address) fun stack => .ok () { m with stack }

/-- Closes the innermost call. -/
def pop (m : Machine σ) : Outcome σ UInt16 :=
  m.attempt m.stack.pop fun (address, stack) => .ok address { m with stack }

/-- Lets ticks of the timer go by. -/
def elapse (m : Machine σ) (ticks : Nat) : Machine σ := { m with timer := m.timer.elapse ticks }

/-- The content of the register with the low digit of a number. -/
def register (m : Machine σ) (number : UInt8) : UInt8 :=
  m.v.get ⟨number.toNat % 16, Nat.mod_lt _ (by decide)⟩

end Machine

end Chip8
