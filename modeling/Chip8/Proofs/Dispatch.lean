import Chip8.Proofs.Faults

/-!
# Patterns and the instructions carried out

* `decode_eq_iff_matches`, `decode_eq_unknown_iff`: a word decodes to an instruction just if it has its
  pattern, and to none just if it has no pattern.
* `eq_of_matches`: no word has two patterns. `matches_value`: every pattern is that of some word.
* `execute_eq_mismatch_iff`: the pattern is the only thing that a mismatch can come of.
* **`decode_dispatches`**: the decoder, the patterns and what is carried out agree on every word.
-/

namespace Chip8

namespace Instruction

/-! ## Decoder and patterns -/

variable {i j : Instruction} {op : Opcode}

theorem decode_eq_iff_matches (known : i ≠ unknown) : decode op = i ↔ i.Matches op := by
  rw [matches_iff_selects]
  constructor
  · rintro rfl
    exact selects_decode op
  · exact decode_of_selects known

/-- The patterns of known instructions do not overlap. -/
theorem eq_of_matches (hi : i ≠ unknown) (hj : j ≠ unknown) (mi : i.Matches op)
    (mj : j.Matches op) : i = j := by
  rw [← (decode_eq_iff_matches hi).2 mi, ← (decode_eq_iff_matches hj).2 mj]

theorem decode_eq_unknown_iff : decode op = unknown ↔ ∀ i, i ≠ unknown → ¬ i.Matches op := by
  constructor
  · intro h i known hit
    exact known (((decode_eq_iff_matches known).2 hit).symm.trans h)
  · intro h
    by_cases known : decode op = unknown
    · exact known
    · exact absurd ((decode_eq_iff_matches known).1 rfl) (h _ known)

/-- The fixed bits of a pattern lie under its mask, so the pattern has a word. -/
theorem matches_value (i : Instruction) : i.Matches i.pattern.value := by
  cases i <;> rfl

end Instruction

namespace Machine

/-! ## Carrying out -/

variable {σ : Type} [EventSource σ] {m m' : Machine σ}

/-- A mismatch comes of a word without the pattern, and of nothing that an instruction does. -/
theorem execute_eq_mismatch_iff {op op' : Opcode} {byte : UInt8} {i j : Instruction} :
    m.execute op byte i = .error (.mismatch op' j) m' ↔
      ¬ i.Matches op ∧ op' = op ∧ j = i ∧ m' = m := by
  by_cases hit : i.Matches op
  · rw [execute, if_pos hit]
    refine ⟨fun failed => ?_, fun unmatched => absurd hit unmatched.1⟩
    cases refused_of_perform failed
  · rw [execute, if_neg hit]
    constructor
    · rintro ⟨⟩
      exact ⟨hit, rfl, rfl, rfl⟩
    · rintro ⟨-, rfl, rfl, rfl⟩
      rfl

/-- **Words and instructions.** A word decodes to a known instruction just if it has its pattern. So the
patterns of known instructions are disjoint, though none is empty, and a word decodes to `unknown` just
if it has none of them. A machine carries out what a word decodes to without a mismatch. -/
theorem decode_dispatches (m : Machine σ) (op : Opcode) (byte : UInt8) :
    (∀ i : Instruction, i ≠ .unknown → (Instruction.decode op = i ↔ i.Matches op)) ∧
      (∀ i j : Instruction, i ≠ .unknown → j ≠ .unknown → i ≠ j →
        ¬ (i.Matches op ∧ j.Matches op)) ∧
      (∀ i : Instruction, i ≠ .unknown → Instruction.decode i.pattern.value = i) ∧
      (Instruction.decode op = .unknown ↔ ∀ i : Instruction, i ≠ .unknown → ¬ i.Matches op) ∧
      (Instruction.decode op).Matches op ∧
      m.execute op byte (Instruction.decode op) = m.perform op byte (Instruction.decode op) ∧
      ∀ op' i m', m.execute op byte (Instruction.decode op) ≠ .error (.mismatch op' i) m' := by
  have hit : (Instruction.decode op).Matches op :=
    (Instruction.matches_iff_selects _ _).2 (Instruction.selects_decode op)
  refine ⟨fun i known => Instruction.decode_eq_iff_matches known, ?_, ?_,
    Instruction.decode_eq_unknown_iff, hit, m.execute_decode op byte, ?_⟩
  · rintro i j hi hj ne ⟨mi, mj⟩
    exact ne (Instruction.eq_of_matches hi hj mi mj)
  · intro i known
    exact (Instruction.decode_eq_iff_matches known).2 i.matches_value
  · intro op' i m' failed
    exact (execute_eq_mismatch_iff.1 failed).1 hit

/-- `87B4` is a sum and not a difference, and `8128` is neither that nor anything else. -/
theorem decode_dispatches_sum : ∃ m : Machine Script,
    Instruction.decode 0x87B4 = .add ∧ ¬ Instruction.sub.Matches 0x87B4 ∧
      Instruction.decode 0x8128 = .unknown ∧
        ∀ op i m', m.execute 0x8128 0 (Instruction.decode 0x8128) ≠ .error (.mismatch op i) m' := by
  let m : Machine Script := new (Script.ofEvents [])
  have sum : Instruction.add.Matches 0x87B4 := by decide
  obtain ⟨decodes, apart, -⟩ := decode_dispatches m 0x87B4 0
  obtain ⟨-, -, -, unknown, -, -, never⟩ := decode_dispatches m 0x8128 0
  have none : ∀ i, i ≠ .unknown → ¬ Instruction.Matches i 0x8128 := by
    intro i known
    cases i <;> first | exact absurd rfl known | decide
  refine ⟨m, (decodes .add (by decide)).2 sum, ?_, unknown.2 none, never⟩
  intro difference
  exact apart .add .sub (by decide) (by decide) (by decide) ⟨sum, difference⟩

end Machine

end Chip8
