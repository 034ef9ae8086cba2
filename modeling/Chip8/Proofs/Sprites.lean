import Chip8.Proofs.Glyphs
import Chip8.Proofs.Layers

/-!
# Sprites drawn from memory

* `Machine.sprite`, `Machine.SetBit`: the rows that a word draws, and their set bits; `Machine.overdraw`:
  the sprite drawn over the screen.
* `Machine.Covers`: a set bit falls on a pixel. `covers_iff`: this is a hit of the sprite.
* `exists_stepAt_draw_iff`: when a word that draws succeeds.
* `Machine.Drawn`: what it leaves; **`drawn_of_stepAt`**.
* `Machine.Redraws`: a machine that is about to draw the same sprite over it.
* **`sprite_drawn`**: all of this, and the second drawing takes the first one back.
-/

namespace Chip8.Machine

variable {σ : Type}

/-! ## The rows of a word -/

/-- The rows that a word draws, as far as they are inside memory. -/
def sprite (m : Machine σ) (op : Opcode) : List UInt8 := (m.memory.slice m.i op.n).1

/-- The sprite of a word over the screen, and whether it collides there. -/
def overdraw (m : Machine σ) (op : Opcode) : Bool × Screen :=
  m.screen.draw (m.v.get op.x).toNat (m.v.get op.y).toNat (m.sprite op)

/-- A bit of the rows that a word draws is set. The high bit of a row is at place `0`. -/
def SetBit (m : Machine σ) (op : Opcode) (row : Nat) (p : Fin 8) : Prop :=
  row < op.n ∧ ∃ h : m.i.toNat + row < 4096,
    (m.memory.get ⟨m.i.toNat + row, h⟩).toNat.testBit (7 - p) = true

/-- A set bit falls on the pixel in column `px` and row `py`. -/
def Covers (m : Machine σ) (op : Opcode) (px : Fin 64) (py : Fin 32) : Prop :=
  ∃ row p, m.SetBit op row p ∧ ((m.v.get op.x).toNat + p) % 64 = px ∧
    ((m.v.get op.y).toNat + row) % 32 = py

section

variable {m : Machine σ} {op : Opcode}

theorem getElem?_sprite {row : Nat} {line : UInt8} : (m.sprite op)[row]? = some line ↔
    row < op.n ∧ ∃ h : m.i.toNat + row < 4096, m.memory.get ⟨m.i.toNat + row, h⟩ = line := by
  rw [sprite, Memory.getElem?_slice]
  split
  · next h => simp [h]
  · next h =>
    simp only [reduceCtorEq, false_iff]
    rintro ⟨lt, inside, -⟩
    exact h ⟨lt, inside⟩

theorem length_sprite_le (m : Machine σ) (op : Opcode) : (m.sprite op).length ≤ 32 := by
  have none : (m.sprite op)[op.n]? = none := by
    rw [sprite, Memory.getElem?_slice, dif_neg fun h => Nat.lt_irrefl _ h.1]
  have := List.getElem?_eq_none_iff.1 none
  have := op.n_lt
  omega

theorem setBit_iff {row : Nat} {p : Fin 8} : m.SetBit op row p ↔
    ∃ line, (m.sprite op)[row]? = some line ∧ line.toNat.testBit (7 - p) = true := by
  constructor
  · rintro ⟨lt, inside, set⟩
    exact ⟨_, getElem?_sprite.2 ⟨lt, inside, rfl⟩, set⟩
  · rintro ⟨line, at_row, set⟩
    obtain ⟨lt, inside, rfl⟩ := getElem?_sprite.1 at_row
    exact ⟨lt, inside, set⟩

theorem covers_iff {px : Fin 64} {py : Fin 32} : m.Covers op px py ↔
    1 ≤ Screen.hitsAt (m.v.get op.x).toNat (m.v.get op.y).toNat (m.sprite op) px py := by
  rw [Screen.one_le_hitsAt_iff]
  constructor
  · rintro ⟨row, p, set, hx, hy⟩
    obtain ⟨line, at_row, set⟩ := setBit_iff.1 set
    exact ⟨row, line, p, at_row, set, hx, hy⟩
  · rintro ⟨row, line, p, at_row, set, hx, hy⟩
    exact ⟨row, p, setBit_iff.2 ⟨line, at_row, set⟩, hx, hy⟩

end

/-! ## One drawing -/

/-- What a word that draws leaves of a machine, besides the program counter. -/
structure Drawn (m : Machine σ) (op : Opcode) (m' : Machine σ) : Prop where
  pixels : ∀ (px : Fin 64) (py : Fin 32),
    m'.screen.pixel px py ≠ m.screen.pixel px py ↔ m.Covers op px py
  collision : m'.v.get Registers.flag = 1 ↔
    ∃ (px : Fin 64) (py : Fin 32), m.Covers op px py ∧ m.screen.pixel px py = true
  flag : m'.v.get Registers.flag = 0 ∨ m'.v.get Registers.flag = 1
  nothing : op.n = 0 → m'.screen = m.screen ∧ m'.v.get Registers.flag = 0
  others : ∀ r, r ≠ Registers.flag → m'.v.get r = m.v.get r
  memory : m'.memory = m.memory
  i : m'.i = m.i

theorem xor_ne_iff (a b : Bool) : (a ^^ b) ≠ a ↔ b = true := by
  cases a <;> cases b <;> decide

section

variable {m n : Machine σ} {op : Opcode}

theorem pixel_overdraw (m : Machine σ) (op : Opcode) (px : Fin 64) (py : Fin 32) :
    (m.overdraw op).2.pixel px py ≠ m.screen.pixel px py ↔ m.Covers op px py := by
  have once := Screen.hitsAt_le_one (m.length_sprite_le op) (m.v.get op.x).toNat
    (m.v.get op.y).toNat px py
  rw [overdraw, Screen.pixel_draw, xor_ne_iff, decide_eq_true_iff, covers_iff]
  omega

theorem overdraw_iff (m : Machine σ) (op : Opcode) : (m.overdraw op).1 = true ↔
    ∃ (px : Fin 64) (py : Fin 32), m.Covers op px py ∧ m.screen.pixel px py = true := by
  rw [overdraw, Screen.draw_iff_hitsAt]
  refine exists_congr fun px => exists_congr fun py => ?_
  have once := Screen.hitsAt_le_one (m.length_sprite_le op) (m.v.get op.x).toNat
    (m.v.get op.y).toNat px py
  rw [covers_iff, and_comm]
  exact or_iff_left (by omega)

theorem drawn_of_overdraw (screen : n.screen = (m.overdraw op).2)
    (v : n.v = m.v.put Registers.flag (m.overdraw op).1.toUInt8) (memory : n.memory = m.memory)
    (i : n.i = m.i) : m.Drawn op n := by
  have flag : n.v.get Registers.flag = (m.overdraw op).1.toUInt8 := by
    rw [v, Registers.get_put_self]
  constructor
  case pixels =>
    intro px py
    rw [screen]
    exact pixel_overdraw m op px py
  case collision => rw [flag, toUInt8_eq_one_iff, overdraw_iff]
  case flag =>
    rw [flag]
    exact toUInt8_binary _
  case nothing =>
    intro none
    have blank : m.overdraw op = (false, m.screen) := by
      rw [overdraw, sprite, none]
      rfl
    rw [screen, flag, blank]
    exact ⟨rfl, rfl⟩
  case others =>
    intro r ne
    rw [v, Registers.get_put_of_ne _ ne]
  case memory => exact memory
  case i => exact i

end

variable [EventSource σ] {m m' : Machine σ} {op : Opcode} {moment : Moment}

theorem stepAt_of_whole (word : m.Reads op) (is : op.family = 0xD)
    (whole : (m.memory.slice m.i op.n).2 = none) (moment : Moment) :
    m.stepAt moment = .ok () { m.elapse moment.ticks with
      screen := (m.overdraw op).2
      v := m.v.put Registers.flag (m.overdraw op).1.toUInt8
      pc := m.pc + 2 } :=
  stepAt_of_draw word is whole rfl moment

theorem whole_of_stepAt (word : m.Reads op) (is : op.family = 0xD)
    (h : m.stepAt moment = .ok () m') : (m.memory.slice m.i op.n).2 = none := by
  obtain ⟨op', target, n, hf, done, -⟩ := perform_of_step h
  obtain rfl : op' = op := word.unique (fetch_eq_ok_iff.1 hf)
  rw [Instruction.decode_of_selects (i := .draw) (by decide) is] at done
  cases failed : (m.memory.slice m.i op'.n).2 with
  | none => rfl
  | some fault =>
    rw [draw_eq_error_iff (m := m.elapse moment.ticks).2 ⟨failed, rfl⟩] at done
    cases done

/-- A word that draws succeeds if its rows are inside memory. Without rows it always does. -/
theorem exists_stepAt_draw_iff (word : m.Reads op) (is : op.family = 0xD) (moment : Moment) :
    (∃ m', m.stepAt moment = .ok () m') ↔ op.n = 0 ∨ m.i.toNat + op.n - 1 ≤ 0xFFF := by
  have room : op.n = 0 ∨ m.i.toNat + op.n - 1 ≤ 0xFFF ↔ op.n = 0 ∨ m.i.toNat + op.n ≤ 4096 := by
    omega
  rw [room, ← Memory.slice_whole_iff m.memory]
  constructor
  · rintro ⟨m', h⟩
    exact whole_of_stepAt word is h
  · intro whole
    exact ⟨_, stepAt_of_whole word is whole moment⟩

/-- **One drawing.** -/
theorem drawn_of_stepAt (word : m.Reads op) (is : op.family = 0xD)
    (h : m.stepAt moment = .ok () m') : m.Drawn op m' := by
  rw [stepAt_of_whole word is (whole_of_stepAt word is h)] at h
  cases h
  exact drawn_of_overdraw rfl rfl rfl rfl

/-! ## Two drawings -/

/-- The machine `k` is about to draw what the word draws on `m`, at the same place of the same
screen. -/
structure Redraws (m : Machine σ) (op : Opcode) (k : Machine σ) : Prop where
  word : k.Reads op
  i : k.i = m.i
  memory : k.memory = m.memory
  x : k.v.get op.x = m.v.get op.x
  y : k.v.get op.y = m.v.get op.y
  screen : k.screen = m.screen

omit [EventSource σ] in
/-- Where `VF` is no coordinate, the first drawing leaves the place of the second one. -/
theorem overdraw_of_redraws {k : Machine σ} (hx : op.x ≠ Registers.flag)
    (hy : op.y ≠ Registers.flag) (drawn : m.Drawn op m') (screen : m'.screen = (m.overdraw op).2)
    (again : m'.Redraws op k) :
    k.overdraw op = (m.overdraw op).2.draw (m.v.get op.x).toNat (m.v.get op.y).toNat (m.sprite op) := by
  have sprite : k.sprite op = m.sprite op := by
    rw [sprite, sprite, again.i, again.memory, drawn.i, drawn.memory]
  rw [overdraw, sprite, again.screen, screen, again.x, again.y, drawn.others _ hx, drawn.others _ hy]

/-- **Drawing.** A word that draws succeeds just if its rows are inside memory. It changes over the
pixels that its set bits fall on, and `VF` tells whether one of them was lit. If `VF` is no coordinate,
drawing the same again restores the screen, and one of the two drawings collides unless no bit is set. -/
theorem sprite_drawn (word : m.Reads op) (is : op.family = 0xD) (moment : Moment) :
    ((∃ m', m.stepAt moment = .ok () m') ↔ op.n = 0 ∨ m.i.toNat + op.n - 1 ≤ 0xFFF) ∧
      ∀ m', m.stepAt moment = .ok () m' → m.Drawn op m' ∧
        (op.x ≠ Registers.flag → op.y ≠ Registers.flag → ∀ k, m'.Redraws op k → ∀ moment',
          ∃ k', k.stepAt moment' = .ok () k' ∧ k'.screen = m.screen ∧
            ((∃ row p, m.SetBit op row p) →
              m'.v.get Registers.flag = 1 ∨ k'.v.get Registers.flag = 1)) := by
  refine ⟨exists_stepAt_draw_iff word is moment, ?_⟩
  intro m' h
  have drawn := drawn_of_stepAt word is h
  have whole := whole_of_stepAt word is h
  rw [stepAt_of_whole word is whole] at h
  cases h
  refine ⟨drawn, ?_⟩
  intro hx hy k again moment'
  have whole' : (k.memory.slice k.i op.n).2 = none := by
    rw [again.memory, again.i]
    exact whole
  have second := overdraw_of_redraws hx hy drawn rfl again
  refine ⟨_, stepAt_of_whole again.word is whole' moment', ?_, ?_⟩
  · change (k.overdraw op).2 = m.screen
    rw [second]
    exact m.screen.draw_draw ⟨_, _, _⟩
  · rintro ⟨row, p, set⟩
    obtain ⟨line, at_row, set⟩ := setBit_iff.1 set
    have mem : line ∈ m.sprite op := List.mem_of_getElem? at_row
    rw [Registers.get_put_self, Registers.get_put_self, toUInt8_eq_one_iff, toUInt8_eq_one_iff,
      second]
    exact m.screen.draw_or_draw ⟨_, _, _⟩ mem set

/-- A machine that is about to draw the uppermost row of the digit `0` in the corner. -/
def rowOfZero : Machine Script :=
  { new (Script.ofEvents []) with
    memory := (Memory.initial.store Memory.programStart [0xD0, 0x11]).1 }

/-- The first drawing meets no lit pixel, so the second one does. -/
theorem sprite_drawn_rowOfZero : ∃ m' k', rowOfZero.stepAt ⟨0, 0⟩ = .ok () m' ∧
    stepAt { m' with pc := rowOfZero.pc } ⟨0, 0⟩ = .ok () k' ∧ k'.screen = .blank ∧
      m'.v.get Registers.flag = 0 ∧ k'.v.get Registers.flag = 1 := by
  have word : rowOfZero.Reads (Opcode.ofBytes 0xD0 0x11) :=
    reads_of_store (k := 0) rfl (by decide) rfl rfl rfl
  have row : rowOfZero.SetBit (Opcode.ofBytes 0xD0 0x11) 0 0 := by
    refine ⟨by decide, by decide, ?_⟩
    simp only [rowOfZero, Memory.get_store, Memory.get_initial]
    rfl
  obtain ⟨succeeds, draws⟩ := sprite_drawn word (by decide) ⟨0, 0⟩
  obtain ⟨m', hs⟩ := succeeds.2 (.inr (by decide))
  obtain ⟨drawn, again⟩ := draws m' hs
  have redraws : m'.Redraws (Opcode.ofBytes 0xD0 0x11) { m' with pc := rowOfZero.pc } := by
    refine ⟨reads_of_store (k := 0) drawn.memory (by decide) rfl rfl rfl, rfl, rfl, rfl, rfl, rfl⟩
  obtain ⟨k', hk, screen, struck⟩ := again (by decide) (by decide) _ redraws ⟨0, 0⟩
  have missed : m'.v.get Registers.flag ≠ 1 := by
    rw [ne_eq, drawn.collision]
    rintro ⟨px, py, -, lit⟩
    exact absurd lit (by simp [rowOfZero, new, Screen.pixel])
  exact ⟨m', k', hs, hk, screen, drawn.flag.resolve_right missed,
    (struck ⟨0, 0, row⟩).resolve_left missed⟩

end Chip8.Machine
