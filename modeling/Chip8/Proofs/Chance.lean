import Chip8.Proofs.Runs

/-!
# Random bytes behind their masks

* `Opcode.Sealed`: the words that let no bit of a random byte through, which are all but `Cxkk` with a
  `kk` other than zero.
* `Turn.SameButByte`, `Setting.SameButBytes`: turns, and settings of a run, that differ in their random
  bytes only.
* `perform_of_sealed`, `step_of_sealed`: a sealed word does the same with any random byte;
  `step_eq_error_of_step`: a step that fails does so with any.
* **`follow_of_sealed`**, **`session_of_sealed`**: sealed words in a row do the same with any random bytes,
  one step after the other or in a run.
* `Machine.Blurred`: machines that differ in the masked bits of a register only.
* `stepAt_of_random`, `blurred_of_random`: what `Cxkk` lets through.
* **`chance_masked`**: all of this together.
-/

namespace Chip8

variable {σ ρ : Type}

/-! ## Words that take no random bit -/

/-- The word lets no bit of a random byte through: if it is a `Cxkk`, then its `kk` is zero. -/
def Opcode.Sealed (op : Opcode) : Prop := op.family = 0xC → op.kk = 0

namespace Machine

variable [EventSource σ] {m m' : Machine σ} {op : Opcode}

theorem perform_of_ne_random {i : Instruction} (h : i ≠ .random) (a b : UInt8) :
    m.perform op a i = m.perform op b i := by
  cases i
  case random => exact absurd rfl h
  all_goals rfl

/-- Only `Cxkk` takes a random byte, and no bit of it is left under a mask of zero. -/
theorem perform_of_sealed (h : op.Sealed) (a b : UInt8) :
    m.perform op a (Instruction.decode op) = m.perform op b (Instruction.decode op) := by
  by_cases random : Instruction.decode op = .random
  · have family := Instruction.selects_decode op
    rw [random] at family ⊢
    change m.putByte op.x (a &&& op.kk) = m.putByte op.x (b &&& op.kk)
    rw [h family, UInt8.and_zero, UInt8.and_zero]
  · exact perform_of_ne_random random a b

theorem step_of_sealed (h : ∀ op, m.fetch = .ok op → op.Sealed) (a b : UInt8) :
    m.step a = m.step b := by
  unfold step
  cases hf : m.fetch with
  | error fault => rfl
  | ok op =>
    simp only [attempt, execute_decode]
    rw [perform_of_sealed (h op hf) a b]

/-- Whether and how a step fails does not depend on its random byte. -/
theorem step_eq_error_of_step {a : UInt8} {fault : Fault} (h : m.step a = .error fault m')
    (b : UInt8) : m.step b = .error fault m' :=
  step_eq_error_iff.2 (step_eq_error_iff.1 h)

theorem stepAt_of_sealed {moment moment' : Moment} (ticks : moment.ticks = moment'.ticks)
    (h : ∀ op, m.fetch = .ok op → op.Sealed) : m.stepAt moment = m.stepAt moment' := by
  rw [stepAt, stepAt, ← ticks]
  exact step_of_sealed (m := m.elapse moment.ticks) h _ _

theorem stepAt_eq_error_of_stepAt {moment moment' : Moment} (ticks : moment.ticks = moment'.ticks)
    {fault : Fault} (h : m.stepAt moment = .error fault m') :
    m.stepAt moment' = .error fault m' := by
  rw [stepAt, ← ticks]
  exact step_eq_error_of_step h _

end Machine

/-! ## Rows of steps -/

/-- Turns that differ in their random bytes only. -/
structure Turn.SameButByte (turn turn' : Turn) : Prop where
  ticks : turn.moment.ticks = turn'.moment.ticks
  polled : turn.polled = turn'.polled

section

variable [EventSource σ] {m : Machine σ} {turns turns' : List Turn}

/-- **Sealed words in a row.** They do the same whatever the random bytes are. -/
theorem Machine.follow_of_sealed (same : List.Forall₂ Turn.SameButByte turns turns')
    (closed : ∀ op ∈ m.words turns, op.Sealed) : m.follow turns = m.follow turns' := by
  induction same generalizing m with
  | nil => rfl
  | @cons turn turn' turns turns' same _ ih =>
    cases hs : m.stepAt turn.moment with
    | error fault m' =>
      -- the word of a failing step is not among those carried out, but its fault takes no byte either
      rw [follow, follow, hs, stepAt_eq_error_of_stepAt same.ticks hs]
    | ok _ m' =>
      obtain ⟨word, hf⟩ := fetch_of_stepAt hs
      rw [words_cons hf hs, List.forall_mem_cons] at closed
      have hs' : m.stepAt turn'.moment = .ok () m' := by
        rw [← stepAt_of_sealed same.ticks, hs]
        intro op hop
        obtain rfl : word = op := Except.ok.inj (hf.symm.trans hop)
        exact closed.1
      rw [follow_cons hs, follow_cons hs', ← same.polled]
      exact ih closed.2

/-- The machines on the way are the same as well. -/
theorem Machine.follow_take_of_sealed (same : List.Forall₂ Turn.SameButByte turns turns')
    (closed : ∀ op ∈ m.words turns, op.Sealed) (k : Nat) :
    m.follow (turns.take k) = m.follow (turns'.take k) := by
  apply follow_of_sealed (List.forall₂_take k same)
  intro op mem
  rw [words_take] at mem
  exact closed op (List.mem_of_mem_take mem)

end

/-! ## Runs -/

/-- Settings of a run that differ in their random bytes only. -/
structure Setting.SameButBytes (c d : Setting ρ) : Prop where
  render : c.render = d.render
  start : c.start = d.start
  ticks : ∀ k, (c.moments k).ticks = (d.moments k).ticks

namespace Setting

variable [EventSource σ] {c d : Setting ρ} {m : Machine σ} {count : Nat}

/-- The words that the first `count` cycles of a run carry out are sealed. -/
def Closed (c : Setting ρ) (m : Machine σ) (count : Nat) : Prop :=
  ∀ k < count, (c.session m k).status = .running →
    ∀ op, (c.session m k).machine.Reads op → op.Sealed

/-- **A run of sealed words.** It does the same whatever the random bytes are. -/
theorem session_of_sealed (same : c.SameButBytes d) (closed : c.Closed m count) :
    c.session m count = d.session m count := by
  apply session_induction (r := Eq)
  · change Session.mk _ _ c.start = Session.mk _ _ d.start
    rw [same.start]
  · exact congrArg Session.status
  · intro k lt goes before
    have step : (c.session m k).machine.stepAt (c.moments k) = _ :=
      Machine.stepAt_of_sealed (same.ticks k) fun op hf =>
        closed k lt goes op (Machine.fetch_eq_ok_iff.1 hf)
    rw [Session.cycle, Session.cycle, step, same.render, before]

end Setting

/-! ## What a mask lets through -/

namespace Machine

/-- The machines are equal but for one register, and there all bits outside a mask are zero. -/
structure Blurred (m n : Machine σ) (x : Fin 16) (mask : UInt8) : Prop where
  rest : n = { m with v := m.v.put x (n.v.get x) }
  zero : ∀ bit, mask.toNat.testBit bit = false →
    (m.v.get x).toNat.testBit bit = false ∧ (n.v.get x).toNat.testBit bit = false

variable [EventSource σ] {m : Machine σ} {op : Opcode}

theorem stepAt_of_random (word : m.Reads op) (is : op.family = 0xC) (moment : Moment) :
    m.stepAt moment = .ok () (advance
      { m.elapse moment.ticks with v := m.v.put op.x (moment.byte &&& op.kk) } .next) :=
  stepAt_of_selects (i := .random) word moment rfl is (by decide)

omit [EventSource σ] in
theorem testBit_masked (v : Registers) (x : Fin 16) (byte mask : UInt8) {bit : Nat}
    (clear : mask.toNat.testBit bit = false) :
    ((v.put x (byte &&& mask)).get x).toNat.testBit bit = false := by
  rw [Registers.get_put_self, UInt8.toNat_and, Nat.testBit_and, clear, Bool.and_false]

/-- **What `Cxkk` lets through.** Two random bytes make a difference in bits of `kk` only. -/
theorem blurred_of_random (word : m.Reads op) (is : op.family = 0xC) (ticks : Nat) (a b : UInt8) :
    ∃ n n', m.stepAt ⟨ticks, a⟩ = .ok () n ∧ m.stepAt ⟨ticks, b⟩ = .ok () n' ∧
      n.Blurred n' op.x op.kk := by
  refine ⟨_, _, stepAt_of_random word is _, stepAt_of_random word is _, ?_, fun bit clear => ?_⟩
  · simp only [advance, Registers.get_put_self, Registers.put_put]
  · exact ⟨testBit_masked m.v op.x a op.kk clear, testBit_masked m.v op.x b op.kk clear⟩

/-- **Random bytes behind their masks.** If each `Cxkk` that is carried out has a `kk` of zero, then rows of
steps, and runs, that differ in their random bytes only go through the same machines and end alike. And two
random bytes for one `Cxkk` give machines that differ in the bits of `kk` in `Vx` only, where all other bits
are zero. -/
theorem chance_masked (m : Machine σ) :
    (∀ turns turns', List.Forall₂ Turn.SameButByte turns turns' → (∀ op ∈ m.words turns, op.Sealed) →
      m.follow turns = m.follow turns' ∧ ∀ k, m.follow (turns.take k) = m.follow (turns'.take k)) ∧
    (∀ {ρ : Type} (c d : Setting ρ) (count : Nat), c.SameButBytes d → c.Closed m count →
      ∀ k ≤ count, c.session m k = d.session m k) ∧
    ∀ op, m.Reads op → op.family = 0xC → ∀ ticks a b, ∃ n n', m.stepAt ⟨ticks, a⟩ = .ok () n ∧
      m.stepAt ⟨ticks, b⟩ = .ok () n' ∧ n.Blurred n' op.x op.kk := by
  refine ⟨fun turns turns' same closed => ⟨?_, fun k => ?_⟩, ?_, ?_⟩
  · exact follow_of_sealed same closed
  · exact follow_take_of_sealed same closed k
  · intro ρ c d count same closed k le
    exact Setting.session_of_sealed same fun j lt => closed j (Nat.lt_of_lt_of_le lt le)
  · intro op word is ticks a b
    exact blurred_of_random word is ticks a b

/-- A machine with two throws of dice to come, the first of which is masked by zero. -/
def dice : Machine Script :=
  { new (Script.ofEvents []) with
    memory := (Memory.initial.store Memory.programStart [0xC3, 0x00, 0xC4, 0x0F]).1 }

/-- The same machine before the second throw. -/
def secondThrow : Machine Script := { dice with pc := 0x202 }

/-- A run in which all random bytes are equal. -/
def loaded (byte : UInt8) : Setting Unit := ⟨fun _ r => .ok () r, (), fun _ => ⟨1, byte⟩⟩

theorem chance_masked_dice :
    dice.Reads (Opcode.ofBytes 0xC3 0x00) ∧
      dice.follow [⟨⟨1, 5⟩, true⟩] = dice.follow [⟨⟨1, 10⟩, true⟩] ∧
      (loaded 5).session dice 1 = (loaded 10).session dice 1 ∧
      ∃ n n', secondThrow.stepAt ⟨1, 5⟩ = .ok () n ∧ secondThrow.stepAt ⟨1, 10⟩ = .ok () n' ∧
        n.Blurred n' (Opcode.ofBytes 0xC4 0x0F).x 0x0F ∧ n.v ≠ n'.v := by
  have word : dice.Reads (Opcode.ofBytes 0xC3 0x00) :=
    reads_of_store (k := 0) rfl (by decide) rfl rfl rfl
  have word' : secondThrow.Reads (Opcode.ofBytes 0xC4 0x0F) :=
    reads_of_store (k := 2) rfl (by decide) rfl rfl rfl
  have closed : ∀ op, dice.Reads op → op.Sealed := by
    intro op h
    obtain rfl := word.unique h
    exact fun _ => by decide
  have first : dice.stepAt (Turn.mk ⟨1, 5⟩ true).moment = .ok () _ :=
    stepAt_of_random word (by decide) ⟨1, 5⟩
  have once : ∀ op ∈ dice.words [⟨⟨1, 5⟩, true⟩], op.Sealed := by
    intro op mem
    rw [words_cons (fetch_eq_ok_iff.2 word) first] at mem
    obtain rfl := List.mem_singleton.1 mem
    exact closed _ word
  have shut : (loaded 5).Closed dice 1 := by
    intro k lt _ op h
    obtain rfl := Nat.lt_one_iff.1 lt
    exact closed op h
  obtain ⟨rows, runs, -⟩ := chance_masked dice
  obtain ⟨-, -, throws⟩ := chance_masked secondThrow
  have ⟨rolled, _⟩ := rows [⟨⟨1, 5⟩, true⟩] [⟨⟨1, 10⟩, true⟩] (.cons ⟨rfl, rfl⟩ .nil) once
  refine ⟨word, rolled, ?_, ?_⟩
  · exact runs (loaded 5) (loaded 10) 1 ⟨rfl, rfl, fun _ => rfl⟩ shut 1 (Nat.le_refl 1)
  · obtain ⟨n, n', hn, hn', blurred⟩ := throws _ word' (by decide) 1 5 10
    refine ⟨n, n', hn, hn', blurred, ?_⟩
    injection (stepAt_of_random word' (by decide) ⟨1, 5⟩).symm.trans hn with _ left
    injection (stepAt_of_random word' (by decide) ⟨1, 10⟩).symm.trans hn' with _ left'
    rw [← left, ← left']
    decide

end Machine

end Chip8
