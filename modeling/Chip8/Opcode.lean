/-!
# Instruction words

* `Opcode`: the two bytes of an instruction, the first byte in the high half.
* `Opcode.family`, `x`, `y`, `n`, `kk`, `nnn`: the fields that instructions read out of a word,
  given as quotients and remainders.
* `Opcode.ofBytes`: the word of two bytes, `toNat_ofBytes` its value.
-/

namespace Chip8

/-- An instruction word. -/
abbrev Opcode := UInt16

namespace Opcode

/-- The word whose first byte is `high` and whose second byte is `low`. -/
def ofBytes (high low : UInt8) : Opcode :=
  UInt16.ofNat (256 * high.toNat + low.toNat)

/-- The first hexadecimal digit, which selects a family of instructions. -/
def family (op : Opcode) : Nat := op.toNat / 4096

/-- The second digit, the number of a register. -/
def x (op : Opcode) : Fin 16 := ⟨op.toNat / 256 % 16, Nat.mod_lt _ (by decide)⟩

/-- The third digit, the number of a register. -/
def y (op : Opcode) : Fin 16 := ⟨op.toNat / 16 % 16, Nat.mod_lt _ (by decide)⟩

/-- The last digit. -/
def n (op : Opcode) : Nat := op.toNat % 16

/-- The second byte. -/
def kk (op : Opcode) : UInt8 := UInt8.ofNat (op.toNat % 256)

/-- The last three digits, an address. -/
def nnn (op : Opcode) : UInt16 := UInt16.ofNat (op.toNat % 4096)

theorem toNat_ofBytes (high low : UInt8) :
    (ofBytes high low).toNat = 256 * high.toNat + low.toNat := by
  have h := high.toNat_lt
  have l := low.toNat_lt
  simp only [ofBytes, UInt16.toNat_ofNat']
  omega

theorem family_lt (op : Opcode) : op.family < 16 := by
  have := op.toNat_lt
  unfold family
  omega

theorem n_lt (op : Opcode) : op.n < 16 := Nat.mod_lt _ (by decide)

theorem val_x (op : Opcode) : (op.x : Nat) = op.toNat / 256 % 16 := rfl

theorem val_y (op : Opcode) : (op.y : Nat) = op.toNat / 16 % 16 := rfl

theorem toNat_kk (op : Opcode) : op.kk.toNat = op.toNat % 256 := by
  simp only [kk, UInt8.toNat_ofNat']
  omega

theorem toNat_nnn (op : Opcode) : op.nnn.toNat = op.toNat % 4096 := by
  simp only [nnn, UInt16.toNat_ofNat']
  omega

theorem nnn_lt (op : Opcode) : op.nnn.toNat < 4096 := by
  rw [toNat_nnn]
  exact Nat.mod_lt _ (by decide)

end Opcode

end Chip8
