/-!
# Arithmetic on bytes

* `Arithmetic.Result`: a byte and a flag.
* `Arithmetic.add`, `sub`, `shiftRight`, `shiftLeft`: modulo 256, with the carry, the strict order or
  the bit shifted out as flag.
* `add_exact`, `shiftRight_exact`, `shiftLeft_exact`: result and flag together lose nothing.
* `sub_exact`: a difference is exact modulo 256; `sub_flag_iff`: its flag is raised by a strictly larger
  first operand.
* `Arithmetic.decimal`: three digits; `toNat_decimal`, `decimal_exact`: they spell the byte.
-/

namespace Chip8.Arithmetic

/-- A byte and a flag. -/
structure Result where
  byte : UInt8
  raised : Bool
  deriving DecidableEq, Repr

/-- The sum, with the carry. -/
def add (a b : UInt8) : Result := ⟨a + b, 256 ≤ a.toNat + b.toNat⟩

/-- The difference; the flag says that the first operand is larger. -/
def sub (a b : UInt8) : Result := ⟨a - b, b < a⟩

/-- Half, with the low bit. -/
def shiftRight (a : UInt8) : Result := ⟨a >>> 1, a.toNat % 2 = 1⟩

/-- Double, with the high bit. -/
def shiftLeft (a : UInt8) : Result := ⟨a <<< 1, 128 ≤ a.toNat⟩

/-- The decimal digits of a byte, hundreds first. -/
def decimal (a : UInt8) : List UInt8 := [a / 100, a / 10 % 10, a % 10]

/-- Sum and carry are the exact sum. -/
theorem add_exact (a b : UInt8) :
    a.toNat + b.toNat = 256 * (add a b).raised.toNat + (add a b).byte.toNat := by
  have := a.toNat_lt
  have := b.toNat_lt
  simp only [add, UInt8.toNat_add]
  by_cases h : 256 ≤ a.toNat + b.toNat <;> simp [h] <;> omega

/-- Half and low bit are the exact operand. -/
theorem shiftRight_exact (a : UInt8) :
    a.toNat = 2 * (shiftRight a).byte.toNat + (shiftRight a).raised.toNat := by
  simp only [shiftRight, UInt8.toNat_shiftRight]
  by_cases h : a.toNat % 2 = 1 <;> simp [h, Nat.shiftRight_eq_div_pow] <;> omega

/-- Double and high bit are the exact double. -/
theorem shiftLeft_exact (a : UInt8) :
    2 * a.toNat = 256 * (shiftLeft a).raised.toNat + (shiftLeft a).byte.toNat := by
  have := a.toNat_lt
  simp only [shiftLeft, UInt8.toNat_shiftLeft]
  by_cases h : 128 ≤ a.toNat <;> simp [h, Nat.shiftLeft_eq] <;> omega

/-- The difference is the exact one modulo 256. -/
theorem sub_exact (a b : UInt8) :
    ((sub a b).byte.toNat : Int) = ((a.toNat : Int) - b.toNat) % 256 := by
  have := a.toNat_lt
  have := b.toNat_lt
  simp only [sub, UInt8.toNat_sub]
  omega

theorem sub_flag_iff (a b : UInt8) : (sub a b).raised = true ↔ b.toNat < a.toNat := by
  simp [sub, UInt8.lt_iff_toNat_lt]

/-- The digits as numbers. -/
theorem toNat_decimal (a : UInt8) :
    (decimal a).map UInt8.toNat = [a.toNat / 100, a.toNat / 10 % 10, a.toNat % 10] := by
  simp [decimal]

/-- The digits spell the byte. -/
theorem decimal_exact (a : UInt8) :
    ∃ h t u : UInt8, decimal a = [h, t, u] ∧ h.toNat ≤ 9 ∧ t.toNat ≤ 9 ∧ u.toNat ≤ 9 ∧
      100 * h.toNat + 10 * t.toNat + u.toNat = a.toNat := by
  have := a.toNat_lt
  refine ⟨_, _, _, rfl, ?_, ?_, ?_, ?_⟩ <;> simp <;> omega

end Chip8.Arithmetic
