import Chip8.Proofs.Layers

/-!
# Lit pixels

* `lit_toggle`, `lit_toggleAll`: toggles light a pixel each, unless they strike one that is lit.
* `Screen.setBits`: the set bits of a sprite. `card_setBits`: there are as many as it hits cells.
* `Screen.upTo`: a sprite without a bit and those drawn after it. `rowHits_leading`: what is left of a row.
* `Screen.struckBits`: the set bits that fall on a pixel lit when they are drawn. `card_struckBits`:
  these are the struck cells.
* **`lit_draw`**: how many pixels are lit after a drawing, and what this says about a collision.
-/

namespace Chip8.Screen

/-! ## Toggles -/

theorem lit_toggle (s : Screen) (c : Cell) : (s.toggle c).lit + 2 * (s.get c).toNat = s.lit + 1 := by
  have pixel : s.pixels[(c : Nat)] = s.get c := rfl
  rw [lit, toggle, Vector.count_set, pixel]
  cases h : s.get c with
  | false => rfl
  | true =>
    -- the pixel counts among the lit ones, so the subtraction is exact
    have mem : true ∈ s.pixels := h ▸ Vector.getElem_mem c.isLt
    have pos : 0 < s.pixels.count true := Vector.count_pos_iff.2 mem
    change s.pixels.count true - 1 + 0 + 2 * 1 = s.pixels.count true + 1
    omega

/-- Every toggle lights a pixel, but for the strikes, which put one out. -/
theorem lit_toggleAll (s : Screen) (cells : List Cell) :
    (s.toggleAll cells).2.lit + 2 * (s.toggleAll cells).1 = s.lit + cells.length := by
  induction cells generalizing s with
  | nil => rfl
  | cons c cells ih =>
    have first := s.lit_toggle c
    have rest := ih (s.toggle c)
    rw [toggleAll_cons, List.length_cons]
    simp only
    omega

/-! ## Set bits -/

/-- The set bits of a sprite, told by the row and the place in the row, the high bit at place `0`. -/
def setBits (sprite : List UInt8) : Finset (Fin sprite.length × Fin 8) :=
  Finset.univ.filter fun bit => (sprite.get bit.1).toNat.testBit (7 - bit.2) = true

theorem card_setBits_nil : (setBits []).card = 0 := by
  rw [setBits, Finset.card_eq_zero, Finset.filter_eq_empty_iff]
  exact fun bit => bit.1.elim0

theorem length_rowHits (x y : Nat) (line : UInt8) : (rowHits x y line).length =
    ∑ p : Fin 8, if line.toNat.testBit (7 - p) = true then 1 else 0 := by
  have bits : (fun p => line.toNat.testBit (7 - p)) =
      fun p => decide (line.toNat.testBit (7 - p) = true) := by
    funext p
    rw [Bool.decide_eq_true]
  rw [rowHits, List.length_map, ← List.countP_eq_length_filter, bits]
  change Nat.count _ 8 = _
  rw [Nat.count_eq_card_filter_range, Finset.card_filter, Finset.sum_range]

theorem card_setBits_cons (x y : Nat) (line : UInt8) (sprite : List UInt8) :
    (setBits (line :: sprite)).card = (rowHits x y line).length + (setBits sprite).card := by
  simp only [setBits, Finset.card_filter, Fintype.sum_prod_type, length_rowHits]
  exact Fin.sum_univ_succ _

/-- A sprite hits as many cells as it has set bits, one of them several times if they meet. -/
theorem card_setBits (x y : Nat) (sprite : List UInt8) :
    (setBits sprite).card = (hits x y sprite).length := by
  induction sprite generalizing y with
  | nil => exact card_setBits_nil
  | cons line sprite ih => rw [card_setBits_cons x y, ih (y + 1), hits_cons, List.length_append]

/-! ## Bits in turn -/

/-- The first `p` bits of a row, the others cleared. -/
def leading (line : UInt8) (p : Nat) : UInt8 :=
  UInt8.ofNat (line.toNat >>> (8 - p) <<< (8 - p))

/-- What is drawn of a sprite before one of its bits: the rows above, and the row up to it. -/
def upTo (sprite : List UInt8) (bit : Fin sprite.length × Fin 8) : List UInt8 :=
  sprite.take bit.1 ++ [leading (sprite.get bit.1) bit.2]

/-- The set bits of a sprite that fall on a pixel which is lit when their turn comes. -/
def struckBits (s : Screen) (x y : Nat) (sprite : List UInt8) :
    Finset (Fin sprite.length × Fin 8) :=
  (setBits sprite).filter fun bit =>
    (s.draw x y (upTo sprite bit)).2.pixel (x + bit.2) (y + bit.1) = true

theorem testBit_leading (line : UInt8) {p q : Nat} (hp : p ≤ 8) (hq : q < 8) :
    (leading line p).toNat.testBit (7 - q) = (line.toNat.testBit (7 - q) && decide (q < p)) := by
  have lt : line.toNat >>> (8 - p) <<< (8 - p) < 256 := by
    have := line.toNat_lt
    rw [Nat.shiftRight_eq_div_pow, Nat.shiftLeft_eq]
    exact Nat.lt_of_le_of_lt (Nat.div_mul_le_self _ _) this
  rw [leading, UInt8.toNat_ofNat', Nat.mod_eq_of_lt lt, Nat.testBit_shiftLeft, Nat.testBit_shiftRight]
  by_cases h : q < p
  · have place : 8 - p + (7 - q - (8 - p)) = 7 - q := by omega
    rw [decide_eq_true (show 7 - q ≥ 8 - p by omega), decide_eq_true h, place, Bool.true_and,
      Bool.and_true]
  · rw [decide_eq_false (show ¬ 7 - q ≥ 8 - p by omega), decide_eq_false h, Bool.false_and,
      Bool.and_false]

/-- Of a row up to a bit, the hits are those of the bits before it. -/
theorem rowHits_leading (x y : Nat) (line : UInt8) (p : Fin 8) : rowHits x y (leading line p) =
    ((List.range p).filter fun q => line.toNat.testBit (7 - q)).map fun q => cell (x + q) y := by
  have before : ∀ p : Fin 8,
      ((List.range 8).filter fun q => decide (q < (p : Nat))) = List.range p := by
    decide
  have bits : ∀ q ∈ List.range 8, (leading line p).toNat.testBit (7 - q) =
      (line.toNat.testBit (7 - q) && decide (q < p)) := fun q mem =>
    testBit_leading line (Nat.le_of_lt p.isLt) (List.mem_range.1 mem)
  rw [rowHits, List.filter_congr bits, ← List.filter_filter, before]

/-- What the chosen ones of some cells strike, each told when its turn comes. -/
theorem fst_toggleAll_range (s : Screen) (chosen : Nat → Bool) (place : Nat → Cell) (k : Nat) :
    (s.toggleAll (((List.range k).filter chosen).map place)).1 = ∑ p ∈ Finset.range k,
      if chosen p = true ∧
        (s.toggleAll (((List.range p).filter chosen).map place)).2.get (place p) = true
      then 1 else 0 := by
  induction k with
  | zero => rfl
  | succ k ih =>
    rw [List.range_succ, List.filter_append, List.map_append, toggleAll_append,
      Finset.sum_range_succ, ← ih]
    generalize (s.toggleAll (((List.range k).filter chosen).map place)).2 = t
    refine congrArg ((s.toggleAll (((List.range k).filter chosen).map place)).1 + ·) ?_
    by_cases h : chosen k = true
    · rw [List.filter_cons_of_pos h]
      simp only [List.filter_nil, List.map_cons, List.map_nil, toggleAll_cons, toggleAll_nil,
        Nat.add_zero, h, true_and]
      cases t.get (place k) <;> rfl
    · rw [List.filter_cons_of_neg h]
      simp [h]

theorem fst_toggleAll_rowHits (s : Screen) (x y : Nat) (line : UInt8) :
    (s.toggleAll (rowHits x y line)).1 = ∑ p : Fin 8, if line.toNat.testBit (7 - p) = true ∧
      (s.draw x y [leading line p]).2.pixel (x + p) y = true then 1 else 0 := by
  rw [rowHits, fst_toggleAll_range, Finset.sum_range]
  refine Finset.sum_congr rfl fun p _ => ?_
  rw [← rowHits_leading]
  simp only [draw, pixel, hits_cons, hits_nil, List.append_nil]

theorem snd_draw_cons (s : Screen) (x y : Nat) (line : UInt8) (sprite : List UInt8) :
    (s.draw x y (line :: sprite)).2 = ((s.draw x y [line]).2.draw x (y + 1) sprite).2 := by
  simp only [draw, hits_cons, hits_nil, List.append_nil, toggleAll_append]

theorem card_struckBits_cons (s : Screen) (x y : Nat) (line : UInt8) (sprite : List UInt8) :
    (s.struckBits x y (line :: sprite)).card = (s.toggleAll (rowHits x y line)).1 +
      ((s.draw x y [line]).2.struckBits x (y + 1) sprite).card := by
  have first : ∀ p, upTo (line :: sprite) (0, p) = [leading line p] := fun _ => rfl
  have later : ∀ row p, (s.draw x y (upTo (line :: sprite) (Fin.succ row, p))).2 =
      ((s.draw x y [line]).2.draw x (y + 1) (upTo sprite (row, p))).2 :=
    fun _ _ => s.snd_draw_cons x y line _
  have shift : ∀ row, y + 1 + row = y + (row + 1) := by omega
  simp only [struckBits, setBits, Finset.filter_filter, Finset.card_filter, Fintype.sum_prod_type,
    fst_toggleAll_rowHits]
  refine (Fin.sum_univ_succ _).trans ?_
  simp only [first, later, Fin.val_succ, shift]
  rfl

/-- The struck bits are as many as the strikes. -/
theorem card_struckBits (s : Screen) (x y : Nat) (sprite : List UInt8) :
    (s.struckBits x y sprite).card = (s.toggleAll (hits x y sprite)).1 := by
  induction sprite generalizing s y with
  | nil =>
    have none : (setBits []).card = 0 := card_setBits_nil
    rw [struckBits, Finset.card_eq_zero.1 none]
    rfl
  | cons line sprite ih =>
    rw [card_struckBits_cons, ih, hits_cons, toggleAll_append]
    simp only [draw, hits_cons, hits_nil, List.append_nil]

/-! ## Drawing -/

/-- **Lit pixels.** Every set bit lights a pixel, but for those that fall on one which is lit when their
turn comes: these put it out. So a drawing that does not collide adds as many lit pixels as there are set
bits, and one that collides falls short of this by two at least. -/
theorem lit_draw (s : Screen) (x y : Nat) (sprite : List UInt8) :
    (s.draw x y sprite).2.lit + 2 * (s.struckBits x y sprite).card =
        s.lit + (setBits sprite).card ∧
      ((s.draw x y sprite).1 = false ↔
        (s.draw x y sprite).2.lit = s.lit + (setBits sprite).card) ∧
      ((s.draw x y sprite).1 = true ↔
        ((s.draw x y sprite).2.lit : Int) ≤ s.lit + (setBits sprite).card - 2) := by
  have sum : (s.draw x y sprite).2.lit + 2 * (s.toggleAll (hits x y sprite)).1 =
      s.lit + (setBits sprite).card := by
    rw [card_setBits x y]
    exact s.lit_toggleAll _
  have collides : (s.draw x y sprite).1 = true ↔ (s.toggleAll (hits x y sprite)).1 ≠ 0 := bne_iff_ne
  rw [card_struckBits, ← Bool.not_eq_true, collides]
  omega

end Chip8.Screen
