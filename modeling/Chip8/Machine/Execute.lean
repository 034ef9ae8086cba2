import Chip8.Arithmetic
import Chip8.Machine

/-!
# Carrying out instructions

* `Advance`: where control goes after an instruction.
* `Machine.perform`: what each instruction does to the machine.
* `Machine.execute`: the same, for words that have the pattern of the instruction.
* `Machine.step`: one instruction, from the word at the program counter to the next one.

Instructions that move several bytes go address by address. If one of the addresses is refused, what
was moved before it stays moved.
-/

namespace Chip8

/-- Where control goes. -/
inductive Advance
  /-- to the next instruction -/
  | next
  /-- to the one after the next -/
  | skip
  /-- to an address -/
  | jump (address : UInt16)
  deriving DecidableEq, Repr

/-- Passes over an instruction if the condition holds. -/
def Advance.skipIf (condition : Bool) : Advance := if condition then skip else next

namespace Machine

variable {σ : Type}

/-- Goes on to the next instruction, unless there was a fault on the way. -/
def nextUnless (m : Machine σ) : Option Fault → Outcome σ Advance
  | none => .ok .next m
  | some fault => .error fault m

/-- Stores bytes from the address register on. -/
def storeBytes (m : Machine σ) (bytes : List UInt8) : Outcome σ Advance :=
  let (memory, fault?) := m.memory.store m.i bytes
  { m with memory }.nextUnless fault?

/-- Puts a result into a register and its flag into `VF`, the result last. -/
def putResult (m : Machine σ) (x : Fin 16) (r : Arithmetic.Result) : Outcome σ Advance :=
  .ok .next { m with v := m.v.putFlagFirst x r.byte r.raised }

/-- Puts a byte into a register. -/
def putByte (m : Machine σ) (x : Fin 16) (byte : UInt8) : Outcome σ Advance :=
  .ok .next { m with v := m.v.put x byte }

/-- Carries out an instruction on the operands of a word. `byte` is a random byte. -/
def perform [EventSource σ] (m : Machine σ) (op : Opcode) (byte : UInt8) (instruction : Instruction) :
    Outcome σ Advance :=
  let vx := m.v.get op.x
  let vy := m.v.get op.y
  match instruction with
  -- control
  | .ret => m.attempt m.stack.pop fun (address, stack) => .ok (.jump address) { m with stack }
  | .jump => .ok (.jump op.nnn) m
  | .call => m.attempt (m.stack.push (m.pc + 2)) fun stack => .ok (.jump op.nnn) { m with stack }
  | .jumpOffset => .ok (.jump (op.nnn + (m.v.get Registers.first).toUInt16)) m
  | .skipEqByte => .ok (.skipIf (vx == op.kk)) m
  | .skipNeByte => .ok (.skipIf (vx != op.kk)) m
  | .skipEqReg => .ok (.skipIf (vx == vy)) m
  | .skipNeReg => .ok (.skipIf (vx != vy)) m
  | .unknown => .ok .next m
  -- registers
  | .loadByte => m.putByte op.x op.kk
  | .addByte => m.putByte op.x (vx + op.kk)
  | .copy => m.putByte op.x vy
  | .or => m.putByte op.x (vx ||| vy)
  | .and => m.putByte op.x (vx &&& vy)
  | .xor => m.putByte op.x (vx ^^^ vy)
  | .add =>
    let sum := Arithmetic.add vx vy
    .ok .next { m with v := m.v.putFlagLast op.x sum.byte sum.raised }
  | .sub => m.putResult op.x (Arithmetic.sub vx vy)
  | .subFrom => m.putResult op.x (Arithmetic.sub vy vx)
  | .shiftRight => m.putResult op.x (Arithmetic.shiftRight vx)
  | .shiftLeft => m.putResult op.x (Arithmetic.shiftLeft vx)
  | .random => m.putByte op.x (byte &&& op.kk)
  -- the address register and memory
  | .loadIndex => .ok .next { m with i := op.nnn }
  | .addIndex => .ok .next { m with i := m.i + vx.toUInt16 }
  | .glyph =>
    if vx.toNat < 16 then .ok .next { m with i := UInt16.ofNat (Font.height * vx.toNat) }
    else .error (.noGlyph vx) m
  | .storeDigits => m.storeBytes (Arithmetic.decimal vx)
  | .saveRegs => m.storeBytes (m.v.upTo op.x)
  | .restoreRegs =>
    let (bytes, fault?) := m.memory.slice m.i (op.x + 1)
    { m with v := m.v.fill bytes }.nextUnless fault?
  -- the screen
  | .clear => .ok .next { m with screen := .blank }
  | .draw =>
    match m.memory.slice m.i op.n with
    | (_, some fault) => .error fault m
    | (sprite, none) =>
      let (hit, screen) := m.screen.draw vx.toNat vy.toNat sprite
      .ok .next { m with screen, v := m.v.put Registers.flag hit.toUInt8 }
  -- the keypad and the timer
  | .skipHeld => m.attempt (m.keypad.isPressed vx) fun down => .ok (.skipIf down) m
  | .skipNotHeld => m.attempt (m.keypad.isPressed vx) fun down => .ok (.skipIf !down) m
  | .awaitKey =>
    match m.keypad.awaitKey with
    | (some key, keypad) => .ok .next { m with keypad, v := m.v.put op.x (UInt8.ofNat key) }
    | (none, keypad) => .ok .next { m with keypad, quit := true }
  | .readTimer => m.putByte op.x m.timer.value
  | .setTimer => .ok .next { m with timer := m.timer.set vx }

/-- Carries out an instruction on a word that has its pattern. -/
def execute [EventSource σ] (m : Machine σ) (op : Opcode) (byte : UInt8) (instruction : Instruction) :
    Outcome σ Advance :=
  if instruction.Matches op then m.perform op byte instruction
  else .error (.mismatch op instruction) m

/-- Moves the program counter. -/
def advance (m : Machine σ) : Advance → Machine σ
  | .next => { m with pc := m.pc + 2 }
  | .skip => { m with pc := m.pc + 4 }
  | .jump address => { m with pc := address }

/-- Fetches a word, carries it out and moves on. After a fault the program counter stays. -/
def step [EventSource σ] (m : Machine σ) (byte : UInt8) : Outcome σ Unit :=
  m.attempt m.fetch fun op =>
    match m.execute op byte (Instruction.decode op) with
    | .ok target m => .ok () (m.advance target)
    | .error fault m => .error fault m

end Machine

end Chip8
