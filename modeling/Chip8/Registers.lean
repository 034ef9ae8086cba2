/-!
# Registers

* `Registers`: the sixteen registers `V0` to `VF`.
* `Registers.get`, `Registers.put`: one register; `Registers.first` is `V0` and `Registers.flag` is `VF`.
* `Registers.fill`, `Registers.upTo`: the first registers as bytes.
* `Registers.putFlagFirst`, `Registers.putFlagLast`: a result together with a flag. The order tells
  which of the two stays where the result goes to `VF` itself.
* `get_put`, `get_fill`: what `get` reads afterwards; `put_put`, `fill_toList`: the last content stays.
* `toUInt8_binary`, `toUInt8_eq_one_iff`, `toNat_toUInt8`: a flag as a byte.
-/

namespace Chip8

theorem toUInt8_binary (b : Bool) : b.toUInt8 = 0 ∨ b.toUInt8 = 1 := by
  cases b <;> decide

theorem toUInt8_eq_one_iff (b : Bool) : b.toUInt8 = 1 ↔ b = true := by
  cases b <;> decide

theorem toNat_toUInt8 (b : Bool) : b.toUInt8.toNat = b.toNat := by
  cases b <;> rfl

/-- The registers `V0` to `VF`. -/
abbrev Registers := Vector UInt8 16

namespace Registers

/-- All registers are zero. -/
def zero : Registers := Vector.replicate 16 0

/-- The register that flags go to. -/
def flag : Fin 16 := 15

/-- The first register, `V0`. -/
def first : Fin 16 := 0

/-- The content of a register. -/
def get (v : Registers) (x : Fin 16) : UInt8 := v[x]

/-- The registers with another content of one of them. -/
def put (v : Registers) (x : Fin 16) (value : UInt8) : Registers := v.set x value

/-- Puts a flag and then a result, so that a result for `VF` stays. -/
def putFlagFirst (v : Registers) (x : Fin 16) (result : UInt8) (raised : Bool) : Registers :=
  (v.put flag raised.toUInt8).put x result

/-- Puts a result and then a flag, so that the flag stays. -/
def putFlagLast (v : Registers) (x : Fin 16) (result : UInt8) (raised : Bool) : Registers :=
  (v.put x result).put flag raised.toUInt8

/-- The registers `V0` to `Vx`. -/
def upTo (v : Registers) (x : Fin 16) : List UInt8 := v.toList.take (x + 1)

/-- The registers with bytes put into `V0` and those after it. -/
def fill (v : Registers) (bytes : List UInt8) : Registers :=
  Vector.ofFn fun x : Fin 16 => bytes.getD x (v.get x)

theorem ext_get {v w : Registers} (h : ∀ x, v.get x = w.get x) : v = w :=
  Vector.ext fun i hi => h ⟨i, hi⟩

theorem get_put (v : Registers) (x y : Fin 16) (value : UInt8) :
    (v.put x value).get y = if y = x then value else v.get y := by
  split
  · subst y; simp [get, put]
  · simp [get, put, Fin.val_ne_of_ne (Ne.symm ‹y ≠ x›)]

@[simp] theorem get_put_self (v : Registers) (x : Fin 16) (value : UInt8) :
    (v.put x value).get x = value := by
  simp [get_put]

theorem get_put_of_ne (v : Registers) {x y : Fin 16} (h : y ≠ x) (value : UInt8) :
    (v.put x value).get y = v.get y := by
  simp [get_put, h]

theorem put_put (v : Registers) (x : Fin 16) (a b : UInt8) : (v.put x a).put x b = v.put x b := by
  apply ext_get
  intro y
  rw [get_put, get_put, get_put]
  split <;> rfl

theorem get_fill (v : Registers) (bytes : List UInt8) (x : Fin 16) :
    (v.fill bytes).get x = bytes.getD x (v.get x) := by
  simp [fill, get]

theorem fill_toList (v w : Registers) : w.fill v.toList = v := by
  apply ext_get
  intro x
  rw [get_fill, List.getD_eq_getElem?_getD, Vector.getElem?_toList]
  simp [get]

theorem length_upTo (v : Registers) (x : Fin 16) : (v.upTo x).length = x + 1 := by
  have := x.isLt
  rw [upTo, List.length_take, Vector.length_toList]
  omega

theorem getElem?_upTo (v : Registers) {x y : Fin 16} (h : y ≤ x) :
    (v.upTo x)[(y : Nat)]? = some (v.get y) := by
  have : (y : Nat) < x + 1 := Nat.lt_succ_of_le h
  simp [upTo, this, get]

end Registers

end Chip8
