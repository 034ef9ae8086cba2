import Chip8.Screen
import Mathlib.Algebra.BigOperators.Fin
import Mathlib.Data.Nat.Count

/-!
# Drawn sprites

* `Screen.hitsAt`: how many set bits of a sprite fall on a pixel, whatever the order.
* `count_hits`: the hits contain a pixel that often.
* `get_toggleAll`: an odd number of toggles changes a cell over.
* `Screen.strikes`, `fst_toggleAll`: what counts as struck, told cell by cell.
* `hitsAt_le_one`: up to 32 rows no two bits meet. `two_le_hitsAt_tall`: with more rows they can.
* **`draw_exact`**: what drawing makes of every pixel, and when it reports a collision.
-/

namespace Chip8.Screen

/-! ## Hits -/

/-- The number of set bits of a sprite that fall on the pixel in column `px` and row `py`. A bit is
told by its row and its place in the row, the high bit at place `0`. -/
def hitsAt (x y : Nat) (sprite : List UInt8) (px : Fin 64) (py : Fin 32) : Nat :=
  (Finset.univ.filter fun bit : Fin sprite.length × Fin 8 =>
    sprite[bit.1].toNat.testBit (7 - bit.2) ∧ (x + bit.2) % 64 = px ∧ (y + bit.1) % 32 = py).card

theorem cell_eq_iff (x y : Nat) (px : Fin 64) (py : Fin 32) :
    cell x y = cell px py ↔ x % 64 = px ∧ y % 32 = py := by
  rw [Fin.ext_iff]
  simp only [cell]
  omega

theorem exists_cell (c : Cell) : ∃ (px : Fin 64) (py : Fin 32), cell px py = c := by
  refine ⟨⟨c % 64, Nat.mod_lt _ (by decide)⟩, ⟨c / 64, by omega⟩, Fin.ext ?_⟩
  simp only [cell]
  omega

theorem hitsAt_nil (x y : Nat) (px : Fin 64) (py : Fin 32) : hitsAt x y [] px py = 0 := by
  rw [hitsAt, Finset.card_eq_zero, Finset.filter_eq_empty_iff]
  exact fun bit => bit.1.elim0

theorem count_rowHits (x y : Nat) (line : UInt8) (px : Fin 64) (py : Fin 32) :
    (rowHits x y line).count (cell px py) = ∑ p : Fin 8,
      if line.toNat.testBit (7 - p) ∧ (x + p) % 64 = px ∧ y % 32 = py then 1 else 0 := by
  have falls : ∀ p, (cell (x + p) y == cell px py && line.toNat.testBit (7 - p)) =
      decide (line.toNat.testBit (7 - p) ∧ (x + p) % 64 = px ∧ y % 32 = py) := by
    intro p
    rw [Bool.and_comm, Bool.decide_and, Bool.decide_eq_true]
    exact congrArg _ (decide_eq_decide.2 (cell_eq_iff _ _ _ _))
  rw [rowHits, List.count, List.countP_map, List.countP_filter]
  simp only [Function.comp_apply, falls]
  change Nat.count _ 8 = _
  rw [Nat.count_eq_card_filter_range, Finset.card_filter, Finset.sum_range]

theorem hitsAt_cons (x y : Nat) (line : UInt8) (sprite : List UInt8) (px : Fin 64) (py : Fin 32) :
    hitsAt x y (line :: sprite) px py =
      (rowHits x y line).count (cell px py) + hitsAt x (y + 1) sprite px py := by
  have shift : ∀ row, y + 1 + row = y + (row + 1) := by omega
  simp only [hitsAt, Finset.card_filter, Fintype.sum_prod_type, count_rowHits, shift]
  exact Fin.sum_univ_succ _

theorem count_hits (x y : Nat) (sprite : List UInt8) (px : Fin 64) (py : Fin 32) :
    (hits x y sprite).count (cell px py) = hitsAt x y sprite px py := by
  induction sprite generalizing y with
  | nil => exact (hitsAt_nil x y px py).symm
  | cons line sprite ih => rw [hits_cons, List.count_append, ih, hitsAt_cons]

/-! ## Toggles -/

theorem get_toggleAll (s : Screen) (cells : List Cell) (c : Cell) :
    (s.toggleAll cells).2.get c = (s.get c ^^ decide (cells.count c % 2 = 1)) := by
  induction cells generalizing s with
  | nil => simp
  | cons d cells ih =>
    rw [toggleAll_cons, ih, get_toggle]
    by_cases h : c = d
    · subst h
      have parity : decide ((cells.count c + 1) % 2 = 1) = !decide (cells.count c % 2 = 1) := by
        rw [← decide_not, decide_eq_decide]
        omega
      rw [if_pos rfl, List.count_cons_self, parity, Bool.not_xor, Bool.xor_not]
    · rw [if_neg h, List.count_cons_of_ne (Ne.symm h)]

/-- How often a cell is lit when its turn to be toggled comes: every other time, the first one
included if the cell is lit at the start. -/
def strikes (s : Screen) (cells : List Cell) (c : Cell) : Nat :=
  (cells.count c + (s.get c).toNat) / 2

theorem strikes_nil (s : Screen) (c : Cell) : s.strikes [] c = 0 := by
  have := Bool.toNat_le (s.get c)
  rw [strikes, List.count_nil]
  omega

theorem strikes_cons (s : Screen) (d : Cell) (cells : List Cell) (c : Cell) :
    s.strikes (d :: cells) c =
      (if c = d then (s.get d).toNat else 0) + (s.toggle d).strikes cells c := by
  unfold strikes
  rw [get_toggle]
  by_cases h : c = d
  · subst h
    rw [if_pos rfl, if_pos rfl, List.count_cons_self]
    cases s.get c with
    | false => simp
    | true =>
      simp only [Bool.toNat_true, Bool.not_true, Bool.toNat_false]
      omega
  · rw [if_neg h, if_neg h, List.count_cons_of_ne (Ne.symm h), Nat.zero_add]

theorem strikes_ne_zero_iff (s : Screen) (cells : List Cell) (c : Cell) :
    s.strikes cells c ≠ 0 ↔ (s.get c = true ∧ 1 ≤ cells.count c) ∨ 2 ≤ cells.count c := by
  unfold strikes
  cases s.get c with
  | false =>
    simp only [Bool.toNat_false, reduceCtorEq, false_and, false_or]
    omega
  | true =>
    simp only [Bool.toNat_true, true_and]
    omega

theorem fst_toggleAll (s : Screen) (cells : List Cell) :
    (s.toggleAll cells).1 = ∑ c, s.strikes cells c := by
  induction cells generalizing s with
  | nil => rw [toggleAll_nil, Finset.sum_eq_zero fun c _ => s.strikes_nil c]
  | cons d cells ih =>
    rw [toggleAll_cons, ih, Finset.sum_congr rfl fun c _ => s.strikes_cons d cells c,
      Finset.sum_add_distrib, Finset.sum_ite_eq' Finset.univ d, if_pos (Finset.mem_univ d)]

/-- A cell is struck if it is lit at the start and toggled, or toggled twice. -/
theorem fst_toggleAll_ne_zero_iff (s : Screen) (cells : List Cell) :
    (s.toggleAll cells).1 ≠ 0 ↔
      ∃ c, (s.get c = true ∧ 1 ≤ cells.count c) ∨ 2 ≤ cells.count c := by
  simp only [fst_toggleAll, ← strikes_ne_zero_iff]
  rw [ne_eq, Finset.sum_eq_zero_iff]
  simp

theorem draw_iff_count (s : Screen) (x y : Nat) (sprite : List UInt8) :
    (s.draw x y sprite).1 = true ↔
      ∃ c, (s.get c = true ∧ 1 ≤ (hits x y sprite).count c) ∨ 2 ≤ (hits x y sprite).count c :=
  bne_iff_ne.trans (s.fst_toggleAll_ne_zero_iff _)

/-! ## Sprites that meet themselves -/

/-- The rows of a sprite of up to 32 rows come to lie on different rows of the screen. -/
theorem hitsAt_le_one {sprite : List UInt8} (short : sprite.length ≤ 32) (x y : Nat) (px : Fin 64)
    (py : Fin 32) : hitsAt x y sprite px py ≤ 1 := by
  refine Finset.card_le_one.2 fun bit mem bit' mem' => ?_
  obtain ⟨-, -, hx, hy⟩ := Finset.mem_filter.1 mem
  obtain ⟨-, -, hx', hy'⟩ := Finset.mem_filter.1 mem'
  refine Prod.ext (Fin.ext ?_) (Fin.ext ?_)
  · omega
  · omega

/-- In a sprite of more than 32 rows the first row comes to lie on a later one. -/
theorem two_le_hitsAt_tall {rows : Nat} (tall : 32 < rows) (x y : Nat) :
    2 ≤ hitsAt x y (List.replicate rows 0x80) ⟨x % 64, Nat.mod_lt _ (by decide)⟩
      ⟨y % 32, Nat.mod_lt _ (by decide)⟩ := by
  refine Finset.one_lt_card.2 ⟨(⟨0, by simp; omega⟩, 0), ?_, (⟨32, by simpa⟩, 0), ?_, by simp⟩
  · simp
    decide
  · simp
    decide

/-! ## Drawing -/

theorem pixel_draw (s : Screen) (x y : Nat) (sprite : List UInt8) (px : Fin 64) (py : Fin 32) :
    (s.draw x y sprite).2.pixel px py =
      (s.pixel px py ^^ decide (hitsAt x y sprite px py % 2 = 1)) := by
  rw [← count_hits]
  exact get_toggleAll s (hits x y sprite) (cell px py)

theorem draw_iff_hitsAt (s : Screen) (x y : Nat) (sprite : List UInt8) :
    (s.draw x y sprite).1 = true ↔ ∃ (px : Fin 64) (py : Fin 32),
      (s.pixel px py = true ∧ 1 ≤ hitsAt x y sprite px py) ∨ 2 ≤ hitsAt x y sprite px py := by
  simp only [draw_iff_count, ← count_hits]
  constructor
  · rintro ⟨c, struck⟩
    obtain ⟨px, py, rfl⟩ := exists_cell c
    exact ⟨px, py, struck⟩
  · rintro ⟨px, py, struck⟩
    exact ⟨cell px py, struck⟩

/-- **Drawing.** A pixel changes over if an odd number of set bits fall on it. There is a collision
if a lit pixel is hit, or any pixel twice. For the second the sprite needs more than 32 rows, and every
such number of rows is enough. -/
theorem draw_exact (s : Screen) (x y : Nat) (sprite : List UInt8) :
    (∀ (px : Fin 64) (py : Fin 32), (s.draw x y sprite).2.pixel px py =
      (s.pixel px py ^^ decide (hitsAt x y sprite px py % 2 = 1))) ∧
    (∀ b ∈ (s.draw x y sprite).2.bytes, b = 0 ∨ b = 1) ∧
    ((s.draw x y sprite).1 = true ↔ ∃ (px : Fin 64) (py : Fin 32),
      (s.pixel px py = true ∧ 1 ≤ hitsAt x y sprite px py) ∨ 2 ≤ hitsAt x y sprite px py) ∧
    (sprite.length ≤ 32 → ∀ px py, hitsAt x y sprite px py ≤ 1) ∧
    (32 < sprite.length → ∃ tall : List UInt8, tall.length = sprite.length ∧
      (blank.draw x y tall).1 = true) := by
  refine ⟨pixel_draw s x y sprite, bytes_binary _, draw_iff_hitsAt s x y sprite,
    fun short px py => hitsAt_le_one short x y px py, fun rows => ?_⟩
  have meets := two_le_hitsAt_tall rows x y
  exact ⟨_, List.length_replicate, (draw_iff_hitsAt _ _ _ _).2 ⟨_, _, .inr meets⟩⟩

/-- The first and the last of 33 rows leave a dark corner, and the sprite collides with itself. -/
theorem draw_exact_tall :
    (blank.draw 0 0 (List.replicate 33 0x80)).1 = true ∧
      (blank.draw 0 0 (List.replicate 33 0x80)).2.pixel 0 0 = false := by
  have corner : hitsAt 0 0 (List.replicate 33 0x80) 0 0 = 2 := by decide +kernel
  obtain ⟨pixels, -, collision, -⟩ := draw_exact blank 0 0 (List.replicate 33 0x80)
  have dark := pixels 0 0
  rw [corner, pixel, pixel, get_blank] at dark
  exact ⟨collision.2 ⟨0, 0, .inr corner.ge⟩, dark⟩

end Chip8.Screen
