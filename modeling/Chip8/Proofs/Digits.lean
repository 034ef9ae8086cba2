import Chip8.Proofs.Glyphs
import Chip8.Proofs.Saving

/-!
# Decimal digits from a register to the screen

* `slice_of_digits`: the digits that `Fx33` stores are read again.
* `Machine.Spells`: the first three registers hold the digits of a number. `spells_of_restored`: so they do
  after an `F265` on the stored digits.
* **`digits_restored`**: the whole way, up to the glyphs of the three digits.
-/

namespace Chip8.Machine

variable {σ : Type}

/-! ## Digits in registers -/

section

variable {m m' t : Machine σ} {a : UInt8}

theorem slice_of_digits (room : m.i.toNat ≤ 0xFFD)
    (stored : m'.memory = (m.memory.store m.i (Arithmetic.decimal a)).1) (i : t.i = m.i)
    (bytes : ∀ b : Fin 4096, m.i.toNat ≤ b → (b : Nat) ≤ m.i.toNat + 2 →
      t.memory.get b = m'.memory.get b) :
    (t.memory.slice t.i 3).1 = Arithmetic.decimal a := by
  have length : (Arithmetic.decimal a).length = 3 := rfl
  have kept : ∀ b : Fin 4096, m.i.toNat ≤ b → (b : Nat) < m.i.toNat + 3 →
      t.memory.get b = (m.memory.store m.i (Arithmetic.decimal a)).1.get b := by
    intro b from_i below
    rw [← stored]
    exact bytes b from_i (by omega)
  rw [i, Memory.slice_of_kept (by omega) (Nat.le_of_eq length.symm) kept]
  rfl

/-- The first three registers hold the decimal digits of a byte. -/
structure Spells (m : Machine σ) (a : UInt8) : Prop where
  digit : ∀ r : Fin 16, (r : Nat) ≤ 2 → (m.v.get r).toNat ≤ 9
  number : 100 * (m.register 0).toNat + 10 * (m.register 1).toNat + (m.register 2).toNat = a.toNat

theorem spells_of_fill {v : Registers} (h : m.v = v.fill (Arithmetic.decimal a)) : m.Spells a := by
  obtain ⟨hundreds, tens, ones, digits, le₀, le₁, le₂, number⟩ := Arithmetic.decimal_exact a
  have get : ∀ r : Fin 16, m.v.get r = [hundreds, tens, ones].getD r (v.get r) := by
    intro r
    rw [h, Registers.get_fill, digits]
  constructor
  case digit =>
    intro r le
    rw [get]
    have place : (r : Nat) = 0 ∨ (r : Nat) = 1 ∨ (r : Nat) = 2 := by omega
    rcases place with first | second | third
    · rw [first]
      exact le₀
    · rw [second]
      exact le₁
    · rw [third]
      exact le₂
  case number =>
    rw [register, register, register, get, get, get]
    exact number

end

/-! ## The whole way -/

variable [EventSource σ] {m t : Machine σ} {op : Opcode}

theorem spells_of_restored {a : UInt8} (word : t.Reads 0xF265) (room : t.i.toNat ≤ 0xFFD)
    (digits : (t.memory.slice t.i 3).1 = Arithmetic.decimal a) (moment : Moment) :
    ∃ t', t.stepAt moment = .ok () t' ∧ t'.Spells a := by
  have three : (Opcode.x 0xF265 : Nat) + 1 = 3 := rfl
  refine ⟨_, stepAt_of_restoreRegs word ⟨rfl, rfl⟩ (by omega) moment, spells_of_fill (v := t.v) ?_⟩
  rw [three, digits]

/-- **Digits.** `Fx33` succeeds with room for three bytes and changes no others. An `F265` on these bytes
succeeds, leaves digits in the first three registers, and they spell the number that was in `Vx`. As long
as a register still holds its digit, `Fx29` on it succeeds and points at the glyph. -/
theorem digits_restored (word : m.Reads op) (is : op.Is 0xF 0x33) (room : m.i.toNat ≤ 0xFFD)
    (moment : Moment) : ∃ m', m.stepAt moment = .ok () m' ∧
      (∀ b, m'.memory.get b ≠ m.memory.get b → m.i.toNat ≤ b ∧ (b : Nat) ≤ m.i.toNat + 2) ∧
      ∀ t : Machine σ, t.Reads 0xF265 → t.i = m.i →
        (∀ b : Fin 4096, m.i.toNat ≤ b → (b : Nat) ≤ m.i.toNat + 2 →
          t.memory.get b = m'.memory.get b) →
        ∀ moment', ∃ t', t.stepAt moment' = .ok () t' ∧ t'.Spells (m.v.get op.x) ∧
          ∀ (u : Machine σ) (op' : Opcode), u.Reads op' → op'.Is 0xF 0x29 → (op'.x : Nat) ≤ 2 →
            u.v.get op'.x = t'.v.get op'.x → ∀ moment'', ∃ u', u.stepAt moment'' = .ok () u' ∧
              u'.i.toNat = 5 * (t'.v.get op'.x).toNat := by
  refine ⟨_, stepAt_of_storeDigits word is (by omega) moment, ?_, ?_⟩
  · intro b differs
    obtain ⟨le, lt⟩ := Memory.between_of_store differs
    exact ⟨le, Nat.le_of_lt_succ lt⟩
  · intro t word' i bytes moment'
    have digits := slice_of_digits room rfl i bytes
    obtain ⟨t', ht, spells⟩ := spells_of_restored word' (i ▸ room) digits moment'
    refine ⟨t', ht, spells, ?_⟩
    intro u op' word'' is' le same moment''
    have digit := spells.digit op'.x le
    obtain ⟨u', hu, glyph, -⟩ :=
      stepAt_of_glyph word'' is' (by omega) (congrArg UInt8.toNat same) moment''
    exact ⟨u', hu, glyph⟩

/-- A machine that is about to store the digits of 193 at the last three addresses, to take them into
registers and to point at the glyph of the second one. -/
def secondDigit : Machine Script :=
  { new (Script.ofEvents []) with
    v := Registers.zero.put Registers.first 193
    memory := (Memory.initial.store Memory.programStart [0xF0, 0x33, 0xF2, 0x65, 0xF1, 0x29]).1
    i := 0xFFD }

theorem digits_restored_second : ∃ m' t' u', secondDigit.stepAt ⟨0, 0⟩ = .ok () m' ∧
    m'.stepAt ⟨0, 0⟩ = .ok () t' ∧ t'.Spells 193 ∧ t'.stepAt ⟨0, 0⟩ = .ok () u' ∧
      u'.i.toNat = 45 := by
  let moment : Moment := ⟨0, 0⟩
  have word : secondDigit.Reads 0xF033 := by
    refine ⟨by decide, ?_⟩
    simp only [secondDigit, Memory.get_store]
    rfl
  have hm := stepAt_of_storeDigits word ⟨rfl, rfl⟩ (by decide) moment
  generalize eq_m : mk _ _ _ _ _ _ _ _ _ = m' at hm
  have word' : m'.Reads 0xF265 := by
    rw [← eq_m]
    refine ⟨by decide, ?_⟩
    simp only [secondDigit, Memory.get_store]
    rfl
  have ht := stepAt_of_restoreRegs word' ⟨rfl, rfl⟩ (by rw [← eq_m]; decide) moment
  generalize eq_t : mk _ _ _ _ _ _ _ _ _ = t' at ht
  have word'' : t'.Reads 0xF129 := by
    rw [← eq_t, ← eq_m]
    refine ⟨by decide, ?_⟩
    simp only [secondDigit, elapse, Memory.get_store]
    rfl
  obtain ⟨k, hk, -, restores⟩ := digits_restored word ⟨rfl, rfl⟩ (by decide) moment
  rw [hm] at hk
  cases hk
  obtain ⟨k, hk, spells, points⟩ := restores m' word' (by rw [← eq_m]; rfl) (fun _ _ _ => rfl) moment
  rw [ht] at hk
  cases hk
  obtain ⟨u', hu, glyph⟩ := points t' 0xF129 word'' ⟨rfl, rfl⟩ (by decide) rfl moment
  refine ⟨m', t', u', hm, ht, spells, hu, ?_⟩
  have hundreds := spells.digit (Opcode.x 0xF033) (by decide)
  have tens := spells.digit (Opcode.x 0xF129) (by decide)
  have ones := spells.digit (Opcode.x 0xF265) (by decide)
  have number : 100 * (t'.v.get (Opcode.x 0xF033)).toNat + 10 * (t'.v.get (Opcode.x 0xF129)).toNat +
      (t'.v.get (Opcode.x 0xF265)).toNat = 193 := spells.number
  omega

end Chip8.Machine
