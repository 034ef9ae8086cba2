import Chip8.Proofs.Footprint

/-!
# Results and their flags

* `Opcode.Computes`: a result and a flag as exact numbers, for each word that has both.
* `Opcode.result`, `Opcode.calculate`: the result and the flag of a word, and the registers it leaves.
* `computes_result`: result and flag are exact.
* `Opcode.Calculates`: where the two go, also where both go to `VF`; `calculates_calculate`.
* `stepAt_of_putsResult`: a step on such a word succeeds and leaves those registers.
* **`arithmetic_exact`**: so its results are exact, and those of shifts do not depend on `Vy`.
-/

namespace Chip8

/-! ## Registers with a result and a flag -/

namespace Registers

variable (v : Registers) {x r : Fin 16} (result : UInt8) (raised : Bool)

theorem get_putFlagFirst_self : (v.putFlagFirst x result raised).get x = result :=
  get_put_self _ x result

theorem get_putFlagFirst_flag (h : x ≠ flag) :
    (v.putFlagFirst x result raised).get flag = raised.toUInt8 := by
  rw [putFlagFirst, get_put_of_ne _ h.symm, get_put_self]

theorem get_putFlagLast_self (h : x ≠ flag) : (v.putFlagLast x result raised).get x = result := by
  rw [putFlagLast, get_put_of_ne _ h, get_put_self]

theorem get_putFlagLast_flag : (v.putFlagLast x result raised).get flag = raised.toUInt8 :=
  get_put_self _ flag _

end Registers

namespace Opcode

/-! ## Exact numbers -/

/-- The result and the flag of a word on the numbers `a` in `Vx` and `b` in `Vy`. -/
inductive Computes (op : Opcode) (a b result flag : Nat) : Prop
  | add (is : op.n = 0x4) (sum : a + b = 256 * flag + result)
  | sub (is : op.n = 0x5) (difference : (result : Int) = ((a : Int) - b) % 256)
    (order : flag = if b < a then 1 else 0)
  | shiftRight (is : op.n = 0x6) (half : a = 2 * result + flag)
  | subFrom (is : op.n = 0x7) (difference : (result : Int) = ((b : Int) - a) % 256)
    (order : flag = if a < b then 1 else 0)
  | shiftLeft (is : op.n = 0xE) (double : 2 * a = 256 * flag + result)

/-- The result and the flag of a word. -/
def result (op : Opcode) (a b : UInt8) : Arithmetic.Result :=
  match op.n with
  | 0x4 => Arithmetic.add a b
  | 0x5 => Arithmetic.sub a b
  | 0x6 => Arithmetic.shiftRight a
  | 0x7 => Arithmetic.sub b a
  | _ => Arithmetic.shiftLeft a

theorem PutsResult.cases {op : Opcode} (is : op.PutsResult) :
    op.n = 0x4 ∨ op.n = 0x5 ∨ op.n = 0x6 ∨ op.n = 0x7 ∨ op.n = 0xE := by
  obtain ⟨-, ⟨le, ge⟩ | last⟩ := is <;> omega

theorem toNat_raised_sub (a b : UInt8) :
    (Arithmetic.sub a b).raised.toNat = if b.toNat < a.toNat then 1 else 0 := by
  have order := Arithmetic.sub_flag_iff a b
  split
  · next lt => rw [order.2 lt, Bool.toNat_true]
  · next not => rw [Bool.eq_false_iff.2 (mt order.1 not), Bool.toNat_false]

/-- The words compute exactly. -/
theorem computes_result {op : Opcode} (is : op.PutsResult) (a b : UInt8) :
    op.Computes a.toNat b.toNat (op.result a b).byte.toNat (op.result a b).raised.toNat := by
  unfold result
  rcases is.cases with n | n | n | n | n <;> rw [n]
  · exact .add n (Arithmetic.add_exact a b)
  · exact .sub n (Arithmetic.sub_exact a b) (toNat_raised_sub a b)
  · exact .shiftRight n (Arithmetic.shiftRight_exact a)
  · exact .subFrom n (Arithmetic.sub_exact b a) (toNat_raised_sub b a)
  · exact .shiftLeft n (Arithmetic.shiftLeft_exact a)

/-! ## Where result and flag go -/

/-- The registers after a word. Only the sum is put before its flag. -/
def calculate (op : Opcode) (v : Registers) : Registers :=
  let r := op.result (v.get op.x) (v.get op.y)
  if op.n = 0x4 then v.putFlagLast op.x r.byte r.raised else v.putFlagFirst op.x r.byte r.raised

/-- The registers `w` hold what a word computes on the registers `v`. -/
structure Calculates (op : Opcode) (v w : Registers) : Prop where
  apart : op.x ≠ Registers.flag →
    op.Computes (v.get op.x).toNat (v.get op.y).toNat (w.get op.x).toNat
      (w.get Registers.flag).toNat ∧ (w.get Registers.flag = 0 ∨ w.get Registers.flag = 1)
  /-- Of a sum for `VF` the carry stays, of anything else the result. -/
  together : op.x = Registers.flag → ∃ result flag,
    op.Computes (v.get op.x).toNat (v.get op.y).toNat result flag ∧ result < 256 ∧ flag ≤ 1 ∧
      (w.get Registers.flag).toNat = if op.n = 0x4 then flag else result
  others : ∀ r, r ≠ op.x → r ≠ Registers.flag → w.get r = v.get r

theorem calculates_calculate {op : Opcode} (is : op.PutsResult) (v : Registers) :
    op.Calculates v (op.calculate v) := by
  have computes := computes_result is (v.get op.x) (v.get op.y)
  generalize hr : op.result (v.get op.x) (v.get op.y) = r at computes
  constructor
  case apart =>
    intro apart
    have byte : (op.calculate v).get op.x = r.byte := by
      simp only [calculate, hr]
      split
      · exact v.get_putFlagLast_self _ _ apart
      · exact v.get_putFlagFirst_self _ _
    have raised : (op.calculate v).get Registers.flag = r.raised.toUInt8 := by
      simp only [calculate, hr]
      split
      · exact v.get_putFlagLast_flag _ _
      · exact v.get_putFlagFirst_flag _ _ apart
    rw [byte, raised, toNat_toUInt8]
    exact ⟨computes, toUInt8_binary _⟩
  case together =>
    intro same
    refine ⟨_, _, computes, r.byte.toNat_lt, Bool.toNat_le r.raised, ?_⟩
    simp only [calculate, hr]
    rw [same]
    split
    · rw [v.get_putFlagLast_flag, toNat_toUInt8]
    · rw [v.get_putFlagFirst_self]
  case others =>
    intro s hx hf
    simp only [calculate, hr]
    by_contra differs
    split at differs
    · exact (Registers.eq_of_putFlagLast differs).elim hx hf
    · exact (Registers.eq_of_putFlagFirst differs).elim hx hf

/-- A shift looks at `Vx` only. -/
theorem calculate_congr {op op' : Opcode} (shift : op.n = 0x6 ∨ op.n = 0xE) (n : op'.n = op.n)
    (x : op'.x = op.x) (v : Registers) : op'.calculate v = op.calculate v := by
  rcases shift with six | last
  · simp only [calculate, result, n, x, six]
  · simp only [calculate, result, n, x, last]

end Opcode

/-! ## Steps -/

namespace Machine

variable {σ : Type} [EventSource σ] {m : Machine σ} {op : Opcode}

theorem perform_of_putsResult (is : op.PutsResult) (m : Machine σ) (byte : UInt8) :
    m.perform op byte (Instruction.decode op) = .ok .next { m with v := op.calculate m.v } := by
  rcases is.cases with n | n | n | n | n
  · rw [Instruction.decode_of_selects (i := .add) (by decide) ⟨is.1, n⟩]
    simp only [perform, Opcode.calculate, Opcode.result, n, if_pos]
  · rw [Instruction.decode_of_selects (i := .sub) (by decide) ⟨is.1, n⟩]
    simp [perform, putResult, Opcode.calculate, Opcode.result, n]
  · rw [Instruction.decode_of_selects (i := .shiftRight) (by decide) ⟨is.1, n⟩]
    simp [perform, putResult, Opcode.calculate, Opcode.result, n]
  · rw [Instruction.decode_of_selects (i := .subFrom) (by decide) ⟨is.1, n⟩]
    simp [perform, putResult, Opcode.calculate, Opcode.result, n]
  · rw [Instruction.decode_of_selects (i := .shiftLeft) (by decide) ⟨is.1, n⟩]
    simp [perform, putResult, Opcode.calculate, Opcode.result, n]

theorem stepAt_of_putsResult (word : m.Reads op) (is : op.PutsResult) (moment : Moment) :
    m.stepAt moment = .ok ()
      { m.elapse moment.ticks with v := op.calculate m.v, pc := m.pc + 2 } :=
  stepAt_of_perform word moment (perform_of_putsResult is (m.elapse moment.ticks) moment.byte)

/-- **Arithmetic.** A word with a result and a flag succeeds and computes exactly, whatever registers it
names. Two shifts of the same register leave the same registers. -/
theorem arithmetic_exact (word : m.Reads op) (is : op.PutsResult) (moment : Moment) :
    ∃ m', m.stepAt moment = .ok () m' ∧ op.Calculates m.v m'.v ∧
      ∀ (memory : Memory) (op' : Opcode), Reads { m with memory } op' → op'.family = 0x8 →
        op'.n = op.n → op'.x = op.x → op.n = 0x6 ∨ op.n = 0xE → ∀ moment', ∃ n,
          stepAt { m with memory } moment' = .ok () n ∧ n.v = m'.v := by
  refine ⟨_, stepAt_of_putsResult word is moment, Opcode.calculates_calculate is m.v, ?_⟩
  intro memory op' word' family n x shift moment'
  have is' : op'.PutsResult := ⟨family, n ▸ is.2⟩
  exact ⟨_, stepAt_of_putsResult word' is' moment', Opcode.calculate_congr shift n x m.v⟩

/-- A machine that is about to add `VF` to itself. -/
def doubling : Machine Script :=
  { new (Script.ofEvents []) with
    v := Registers.zero.put Registers.flag 200
    memory := (Memory.initial.store Memory.programStart [0x8F, 0xF4]).1 }

/-- Twice 200 is 400, and of the sum and its carry the carry stays. -/
theorem arithmetic_exact_doubling : (Opcode.ofBytes 0x8F 0xF4).PutsResult ∧
    ∃ m', doubling.stepAt ⟨0, 0⟩ = .ok () m' ∧ (m'.v.get Registers.flag).toNat = 1 := by
  have word : doubling.Reads (Opcode.ofBytes 0x8F 0xF4) :=
    reads_of_store (k := 0) rfl (by decide) rfl rfl rfl
  have is : (Opcode.ofBytes 0x8F 0xF4).PutsResult := ⟨by decide, by decide⟩
  obtain ⟨m', hs, calculates, -⟩ := arithmetic_exact word is ⟨0, 0⟩
  obtain ⟨result, flag, computes, lt, -, stays⟩ := calculates.together (by decide)
  refine ⟨is, m', hs, ?_⟩
  rw [stays, if_pos (by decide)]
  cases computes with
  | add _ sum =>
    have sum : 400 = 256 * flag + result := sum
    omega
  | _ n => exact absurd n (by decide)

end Machine

end Chip8
