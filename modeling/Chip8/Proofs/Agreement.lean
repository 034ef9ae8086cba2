import Chip8.Machine.Run

/-!
# Machines side by side

* `Tie`: what is asked of the stacks, keypads and quit flags of two machines; all else is equal in
  machines that agree.
* `Machine.Agree`, `Outcome.Agree`: machines, and outcomes, that agree up to a tie.
* `Tie.Stacks`, `Tie.Keys`: the tie is kept by calls and returns, and by the keypad.
* **`perform_agree`**: an instruction takes machines that agree to outcomes that agree.
* **`stepAt_agree`**: so does a step.
-/

namespace Chip8

/-- How those parts of two machines are tied that need not be equal. -/
structure Tie (σ τ : Type) where
  stack : CallStack → CallStack → Prop
  keypad : Keypad σ → Keypad τ → Prop
  quit : Bool → Bool → Prop

variable {σ τ : Type}

/-- Two machines are equal but for the tied parts. -/
structure Machine.Agree (t : Tie σ τ) (m : Machine σ) (n : Machine τ) : Prop where
  v : m.v = n.v
  i : m.i = n.i
  pc : m.pc = n.pc
  memory : m.memory = n.memory
  screen : m.screen = n.screen
  timer : m.timer = n.timer
  stack : t.stack m.stack n.stack
  keypad : t.keypad m.keypad n.keypad
  quit : t.quit m.quit n.quit

/-- The same answer or fault, and machines that agree. -/
inductive Outcome.Agree (t : Tie σ τ) {α : Type} : Outcome σ α → Outcome τ α → Prop
  | ok (a : α) {m : Machine σ} {n : Machine τ} (h : m.Agree t n) : Agree t (.ok a m) (.ok a n)
  | error (fault : Fault) {m : Machine σ} {n : Machine τ} (h : m.Agree t n) :
    Agree t (.error fault m) (.error fault n)

/-- The same fault, or results in a relation. -/
inductive Matched {α β : Type} (r : α → β → Prop) : Except Fault α → Except Fault β → Prop
  | ok {a : α} {b : β} (h : r a b) : Matched r (.ok a) (.ok b)
  | error (fault : Fault) : Matched r (.error fault) (.error fault)

theorem Matched.of_eq {α : Type} {r : α → α → Prop} (refl : ∀ a, r a a) (x : Except Fault α) :
    Matched r x x := by
  cases x with
  | ok a => exact .ok (refl a)
  | error fault => exact .error fault

/-- Calls and returns on tied stacks give tied stacks. -/
structure Tie.Stacks (t : Tie σ τ) : Prop where
  push : ∀ {s s'}, t.stack s s' → ∀ a, Matched t.stack (s.push a) (s'.push a)
  pop : ∀ {s s'}, t.stack s s' →
    Matched (fun p q => p.1 = q.1 ∧ t.stack p.2 q.2) s.pop s'.pop

/-- Tied keypads have the same keys down, and a wait gets the same key from both. -/
structure Tie.Keys [EventSource σ] [EventSource τ] (t : Tie σ τ) : Prop where
  held : ∀ {k k'}, t.keypad k k' → k.held = k'.held
  await : ∀ {k k'}, t.keypad k k' →
    k.awaitKey.1 = k'.awaitKey.1 ∧ t.keypad k.awaitKey.2 k'.awaitKey.2
  quit : t.quit true true

theorem Tie.stacks_of_eq (t : Tie σ τ) (h : t.stack = Eq) : t.Stacks := by
  constructor
  · intro s s' tied a
    rw [h] at tied ⊢
    exact tied ▸ .of_eq (fun _ => rfl) _
  · intro s s' tied
    rw [h] at tied ⊢
    exact tied ▸ .of_eq (fun _ => ⟨rfl, rfl⟩) _

theorem Tie.Keys.isPressed [EventSource σ] [EventSource τ] {t : Tie σ τ} (keys : t.Keys)
    {k : Keypad σ} {k' : Keypad τ} (h : t.keypad k k') (key : UInt8) :
    Matched Eq (k.isPressed key) (k'.isPressed key) := by
  rw [Keypad.isPressed, Keypad.isPressed, keys.held h]
  exact .of_eq (fun _ => rfl) _

/-- The instructions that look at the keypad. -/
def Instruction.AsksKeypad (i : Instruction) : Prop :=
  i = skipHeld ∨ i = skipNotHeld ∨ i = awaitKey

namespace Machine

variable {t : Tie σ τ} {m : Machine σ} {n : Machine τ}

theorem Agree.fetch_eq (h : m.Agree t n) : m.fetch = n.fetch := by
  rw [fetch, fetch, h.pc, h.memory]

theorem Agree.elapse (h : m.Agree t n) (ticks : Nat) : (m.elapse ticks).Agree t (n.elapse ticks) :=
  { h with timer := congrArg (·.elapse ticks) h.timer }

theorem Agree.advance (h : m.Agree t n) (target : Advance) :
    (m.advance target).Agree t (n.advance target) := by
  cases target with
  | next => exact { h with pc := congrArg (· + 2) h.pc }
  | skip => exact { h with pc := congrArg (· + 4) h.pc }
  | jump address => exact { h with pc := rfl }

theorem Agree.attempt (h : m.Agree t n) {α β γ : Type} {r : α → β → Prop} {x : Except Fault α}
    {y : Except Fault β} (hxy : Matched r x y) {go : α → Outcome σ γ} {go' : β → Outcome τ γ}
    (hgo : ∀ {a b}, r a b → (go a).Agree t (go' b)) :
    (m.attempt x go).Agree t (n.attempt y go') := by
  cases hxy with
  | ok hab => exact hgo hab
  | error fault => exact .error fault h

theorem Agree.nextUnless (h : m.Agree t n) (fault? : Option Fault) :
    (m.nextUnless fault?).Agree t (n.nextUnless fault?) := by
  cases fault? with
  | none => exact .ok _ h
  | some fault => exact .error fault h

variable [EventSource σ] [EventSource τ]

/-- **An instruction on machines that agree.** The keypads matter only to the instructions that look
at them. -/
theorem perform_agree (calls : t.Stacks) {i : Instruction} (keys : i.AsksKeypad → t.Keys)
    (h : m.Agree t n) (op : Opcode) (byte : UInt8) :
    (m.perform op byte i).Agree t (n.perform op byte i) := by
  obtain ⟨v, ix, pc, stack, memory, screen, timer, keypad, quit⟩ := m
  obtain ⟨v', ix', pc', stack', memory', screen', timer', keypad', quit'⟩ := n
  obtain ⟨rfl, rfl, rfl, rfl, rfl, rfl, hstack, hkeypad, hquit⟩ := h
  have h : Agree t ⟨v, ix, pc, stack, memory, screen, timer, keypad, quit⟩
      ⟨v, ix, pc, stack', memory, screen, timer, keypad', quit'⟩ :=
    ⟨rfl, rfl, rfl, rfl, rfl, rfl, hstack, hkeypad, hquit⟩
  cases i
  case ret =>
    refine h.attempt (calls.pop hstack) ?_
    rintro ⟨address, s⟩ ⟨_, s'⟩ ⟨rfl, tied⟩
    exact .ok _ { h with stack := tied }
  case call =>
    refine h.attempt (calls.push hstack _) ?_
    intro s s' tied
    exact .ok _ { h with stack := tied }
  case skipHeld =>
    refine h.attempt ((keys (.inl rfl)).isPressed hkeypad _) ?_
    rintro down _ rfl
    exact .ok _ h
  case skipNotHeld =>
    refine h.attempt ((keys (.inr (.inl rfl))).isPressed hkeypad _) ?_
    rintro down _ rfl
    exact .ok _ h
  case glyph =>
    simp only [perform]
    split
    · exact .ok _ { h with i := rfl }
    · exact .error _ h
  case storeDigits =>
    simp only [perform, storeBytes]
    apply Agree.nextUnless
    exact { h with v := rfl, memory := rfl }
  case saveRegs =>
    simp only [perform, storeBytes]
    apply Agree.nextUnless
    exact { h with v := rfl, memory := rfl }
  case restoreRegs =>
    simp only [perform]
    apply Agree.nextUnless
    exact { h with v := rfl, memory := rfl }
  case draw =>
    simp only [perform]
    split
    · exact .error _ h
    · exact .ok _ { h with v := rfl, screen := rfl }
  case awaitKey =>
    obtain ⟨pressed, tied⟩ := (keys (.inr (.inr rfl))).await hkeypad
    simp only [perform]
    cases hk : keypad.awaitKey with
    | mk key k =>
      cases hk' : keypad'.awaitKey with
      | mk key' k' =>
        rw [hk, hk'] at pressed tied
        obtain rfl : key = key' := pressed
        cases key with
        | none => exact .ok _ { h with keypad := tied, quit := (keys (.inr (.inr rfl))).quit }
        | some key => exact .ok _ { h with v := rfl, keypad := tied }
  all_goals exact .ok _ ⟨rfl, rfl, rfl, rfl, rfl, rfl, hstack, hkeypad, hquit⟩

theorem execute_agree (calls : t.Stacks) {i : Instruction} (keys : i.AsksKeypad → t.Keys)
    (h : m.Agree t n) (op : Opcode) (byte : UInt8) :
    (m.execute op byte i).Agree t (n.execute op byte i) := by
  unfold execute
  split
  · exact perform_agree calls keys h op byte
  · exact .error _ h

theorem step_agree (calls : t.Stacks)
    (keys : ∀ op, m.fetch = .ok op → (Instruction.decode op).AsksKeypad → t.Keys)
    (h : m.Agree t n) (byte : UInt8) : (m.step byte).Agree t (n.step byte) := by
  rw [step, step, ← h.fetch_eq]
  cases hf : m.fetch with
  | error fault => exact .error fault h
  | ok op =>
    have done := execute_agree calls (keys op hf) h op byte
    simp only [Machine.attempt]
    generalize m.execute op byte (Instruction.decode op) = x at done
    generalize n.execute op byte (Instruction.decode op) = y at done
    cases done with
    | ok target h => exact .ok () (h.advance target)
    | error fault h => exact .error fault h

/-- **A step on machines that agree.** -/
theorem stepAt_agree (calls : t.Stacks)
    (keys : ∀ op, m.fetch = .ok op → (Instruction.decode op).AsksKeypad → t.Keys)
    (h : m.Agree t n) (moment : Moment) : (m.stepAt moment).Agree t (n.stepAt moment) :=
  step_agree (m := m.elapse moment.ticks) calls keys (h.elapse moment.ticks) moment.byte

end Machine

end Chip8
