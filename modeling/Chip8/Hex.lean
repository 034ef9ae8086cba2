/-!
# Hexadecimal text

* `Hex.digits`: the shortest numeral in base sixteen, capital letters.
* `Hex.field`: a numeral with zeros in front up to a least width.
* `Hex.toNat_digits`, `Hex.toNat_field`: reading a numeral gives the number back, with any number
  of zeros in front.
-/

namespace Chip8.Hex

/-- The digit of a number below sixteen. -/
def digit (d : Nat) : Char :=
  if d < 10 then Char.ofNat (48 + d) else Char.ofNat (55 + d)

/-- The numeral of a number, without zeros in front. -/
def digits (n : Nat) : List Char :=
  if n < 16 then [digit n] else digits (n / 16) ++ [digit (n % 16)]

/-- The numeral of a number with zeros in front, `width` digits or more. -/
def field (width n : Nat) : List Char :=
  (digits n).leftpad width '0'

/-- The value of a digit, zero for any other character. -/
def value (c : Char) : Nat :=
  if c.toNat < 58 then c.toNat - 48 else c.toNat - 55

/-- The number that a numeral stands for. -/
def toNat (cs : List Char) : Nat :=
  cs.foldl (fun n c => 16 * n + value c) 0

theorem value_digit {d : Nat} (h : d < 16) : value (digit d) = d := by
  have : ∀ d : Fin 16, value (digit d) = d := by decide
  exact this ⟨d, h⟩

theorem toNat_append_singleton (cs : List Char) (c : Char) :
    toNat (cs ++ [c]) = 16 * toNat cs + value c := by
  simp [toNat]

/-- Reading a numeral gives the number back. -/
theorem toNat_digits (n : Nat) : toNat (digits n) = n := by
  fun_induction digits n with
  | case1 n h => simp [toNat, value_digit h]
  | case2 n h ih =>
    rw [toNat_append_singleton, ih, value_digit (Nat.mod_lt _ (by decide))]
    omega

theorem toNat_zeros (k : Nat) (cs : List Char) :
    toNat (List.replicate k '0' ++ cs) = toNat cs := by
  have zero : toNat (List.replicate k '0') = 0 := by
    induction k with
    | zero => rfl
    | succ k ih => rw [List.replicate_succ', toNat_append_singleton, ih]; rfl
  simpa [toNat] using congrArg (cs.foldl fun n c => 16 * n + value c) zero

/-- Zeros in front do not change the number. -/
theorem toNat_field (width n : Nat) : toNat (field width n) = n := by
  rw [field, List.leftpad, toNat_zeros, toNat_digits]

end Chip8.Hex
