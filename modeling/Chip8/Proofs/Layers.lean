import Chip8.Proofs.Drawing
import Mathlib.Algebra.BigOperators.Group.Finset.Lemmas

/-!
# Sprites drawn one after another

* `one_le_hitsAt_iff`, `exists_mem_hits`: a sprite with a set bit hits some cell.
* `toggleAll_append`, `toggleAll_perm`: toggles add up, and their order does not matter.
* `Layer`, `Layer.wrapped`: a sprite with its place, also with that place on the screen.
* `Screen.drawAll`: draws layers in turn, and tells whether one of them collided. `drawAll_eq`: this is
  toggling all their cells.
* `drawAll_perm`, `snd_drawAll_of_even`: the order does not matter, and equal layers cancel.
* **`layers_commute`**: both, and what comes of drawing one sprite twice.
-/

namespace Chip8

namespace Screen

/-! ## Set bits -/

theorem one_le_hitsAt_iff {x y : Nat} {sprite : List UInt8} {px : Fin 64} {py : Fin 32} :
    1 ≤ hitsAt x y sprite px py ↔ ∃ row line, ∃ p : Fin 8, sprite[row]? = some line ∧
      line.toNat.testBit (7 - p) = true ∧ (x + p) % 64 = px ∧ (y + row) % 32 = py := by
  rw [hitsAt, Nat.succ_le_iff, Finset.card_pos]
  constructor
  · rintro ⟨⟨row, p⟩, mem⟩
    obtain ⟨-, set, hx, hy⟩ := Finset.mem_filter.1 mem
    exact ⟨row, sprite[row], p, List.getElem?_eq_getElem row.isLt, set, hx, hy⟩
  · rintro ⟨row, line, p, at_row, set, hx, hy⟩
    obtain ⟨lt, rfl⟩ := List.getElem?_eq_some_iff.1 at_row
    exact ⟨⟨⟨row, lt⟩, p⟩, Finset.mem_filter.2 ⟨Finset.mem_univ _, set, hx, hy⟩⟩

/-- A sprite with a set bit hits some cell, wherever it is drawn. -/
theorem exists_mem_hits (x y : Nat) {sprite : List UInt8} {line : UInt8} (mem : line ∈ sprite)
    {p : Fin 8} (set : line.toNat.testBit (7 - p) = true) : ∃ c, c ∈ hits x y sprite := by
  obtain ⟨row, at_row⟩ := List.mem_iff_getElem?.1 mem
  let px : Fin 64 := ⟨(x + p) % 64, Nat.mod_lt _ (by decide)⟩
  let py : Fin 32 := ⟨(y + row) % 32, Nat.mod_lt _ (by decide)⟩
  have hit : 1 ≤ hitsAt x y sprite px py := one_le_hitsAt_iff.2 ⟨row, line, p, at_row, set, rfl, rfl⟩
  rw [← count_hits] at hit
  exact ⟨_, List.count_pos_iff.1 hit⟩

/-! ## Toggles in another order -/

theorem toggleAll_append (s : Screen) (first last : List Cell) :
    s.toggleAll (first ++ last) =
      ((s.toggleAll first).1 + ((s.toggleAll first).2.toggleAll last).1,
        ((s.toggleAll first).2.toggleAll last).2) := by
  induction first generalizing s with
  | nil => rw [List.nil_append, toggleAll_nil, Nat.zero_add]
  | cons c first ih => rw [List.cons_append, toggleAll_cons, ih, toggleAll_cons, Nat.add_assoc]

/-- Which cells are toggled how often decides both what is struck and what is left. -/
theorem toggleAll_perm (s : Screen) {cells cells' : List Cell} (h : cells.Perm cells') :
    s.toggleAll cells = s.toggleAll cells' := by
  refine Prod.ext ?_ (ext_get fun c => ?_)
  · rw [fst_toggleAll, fst_toggleAll]
    refine Finset.sum_congr rfl fun c _ => ?_
    rw [strikes, strikes, h.count_eq]
  · rw [get_toggleAll, get_toggleAll, h.count_eq]

theorem toggleAll_of_even (s : Screen) {cells : List Cell} (even : ∀ c, Even (cells.count c)) :
    (s.toggleAll cells).2 = s := by
  refine ext_get fun c => ?_
  have parity : ¬ cells.count c % 2 = 1 := by
    rw [Nat.even_iff.1 (even c)]
    decide
  rw [get_toggleAll, decide_eq_false parity, Bool.xor_false]

section

variable {x x' y y' : Nat}

theorem rowHits_congr (hx : x % 64 = x' % 64) (hy : y % 32 = y' % 32) (line : UInt8) :
    rowHits x y line = rowHits x' y' line := by
  refine List.map_congr_left fun p _ => Fin.ext ?_
  simp only [cell]
  omega

/-- Sprites at places that are the same on the screen hit the same cells. -/
theorem hits_congr (hx : x % 64 = x' % 64) (hy : y % 32 = y' % 32) (sprite : List UInt8) :
    hits x y sprite = hits x' y' sprite := by
  induction sprite generalizing y y' with
  | nil => rfl
  | cons line sprite ih =>
    have below : (y + 1) % 32 = (y' + 1) % 32 := by omega
    rw [hits_cons, hits_cons, rowHits_congr hx hy line, ih below]

end

end Screen

/-! ## Layers -/

/-- A sprite and where it is drawn. -/
structure Layer where
  x : Nat
  y : Nat
  sprite : List UInt8
  deriving DecidableEq, Repr

namespace Layer

/-- The layer with its place on the screen. -/
def wrapped (d : Layer) : Layer := { d with x := d.x % 64, y := d.y % 32 }

/-- The cells that the set bits fall on. -/
def hits (d : Layer) : List Screen.Cell := Screen.hits d.x d.y d.sprite

theorem hits_wrapped (d : Layer) : d.wrapped.hits = d.hits :=
  Screen.hits_congr (Nat.mod_mod _ _) (Nat.mod_mod _ _) d.sprite

/-- Layers that occur in pairs hit every cell an even number of times. -/
theorem even_count_hits {ds : List Layer} (even : ∀ d, Even ((ds.map wrapped).count d))
    (c : Screen.Cell) : Even ((ds.flatMap hits).count c) := by
  have wrapped : ds.map (List.count c ∘ hits) = (ds.map wrapped).map (List.count c ∘ hits) := by
    rw [List.map_map]
    refine List.map_congr_left fun d _ => ?_
    simp only [Function.comp_apply, hits_wrapped]
  rw [List.count_flatMap, wrapped, Finset.sum_list_map_count]
  exact Finset.even_sum _ fun d _ => (even d).mul_right _

end Layer

namespace Screen

/-- Draws layers one after the other, and tells whether one of them collided. -/
def drawAll (s : Screen) : List Layer → Bool × Screen
  | [] => (false, s)
  | d :: ds =>
    let (hit, s) := s.draw d.x d.y d.sprite
    let (later, s) := s.drawAll ds
    (hit || later, s)

theorem drawAll_cons (s : Screen) (d : Layer) (ds : List Layer) :
    s.drawAll (d :: ds) = ((s.draw d.x d.y d.sprite).1 || ((s.draw d.x d.y d.sprite).2.drawAll ds).1,
      ((s.draw d.x d.y d.sprite).2.drawAll ds).2) := rfl

/-- Layers are toggled like one list of cells. -/
theorem drawAll_eq (s : Screen) (ds : List Layer) :
    s.drawAll ds =
      ((s.toggleAll (ds.flatMap Layer.hits)).1 != 0, (s.toggleAll (ds.flatMap Layer.hits)).2) := by
  induction ds generalizing s with
  | nil => rfl
  | cons d ds ih =>
    have struck (k l : Nat) : (k != 0 || l != 0) = (k + l != 0) := by
      rw [Bool.eq_iff_iff]
      simp
      omega
    rw [List.flatMap_cons, toggleAll_append, drawAll_cons, ih, ← struck]
    rfl

theorem drawAll_iff_count (s : Screen) (ds : List Layer) :
    (s.drawAll ds).1 = true ↔ ∃ c, (s.get c = true ∧ 1 ≤ (ds.flatMap Layer.hits).count c) ∨
      2 ≤ (ds.flatMap Layer.hits).count c := by
  rw [drawAll_eq]
  exact bne_iff_ne.trans (s.fst_toggleAll_ne_zero_iff _)

theorem drawAll_perm (s : Screen) {ds ds' : List Layer} (h : ds.Perm ds') :
    s.drawAll ds = s.drawAll ds' := by
  rw [drawAll_eq, drawAll_eq, s.toggleAll_perm (h.flatMap_right _)]

theorem snd_drawAll_of_even (s : Screen) {ds : List Layer}
    (even : ∀ d, Even ((ds.map Layer.wrapped).count d)) : (s.drawAll ds).2 = s := by
  rw [drawAll_eq]
  exact s.toggleAll_of_even (Layer.even_count_hits even)

/-! ## One sprite twice -/

section

variable (s : Screen) (d : Layer)

theorem drawAll_pair : s.drawAll [d, d] =
    ((s.draw d.x d.y d.sprite).1 || ((s.draw d.x d.y d.sprite).2.draw d.x d.y d.sprite).1,
      ((s.draw d.x d.y d.sprite).2.draw d.x d.y d.sprite).2) := by
  rw [drawAll_cons, drawAll_cons, drawAll, Bool.or_false]

theorem even_count_pair (e : Layer) : Even (([d, d].map Layer.wrapped).count e) := by
  rw [List.map_cons, List.map_cons, List.map_nil, List.count_cons, List.count_cons, List.count_nil,
    Nat.zero_add]
  exact Even.add_self _

/-- A sprite drawn twice leaves no trace. -/
theorem draw_draw : ((s.draw d.x d.y d.sprite).2.draw d.x d.y d.sprite).2 = s := by
  have twice := s.snd_drawAll_of_even (even_count_pair d)
  rw [drawAll_pair] at twice
  exact twice

/-- One of two drawings of a sprite with a set bit collides. -/
theorem draw_or_draw {line : UInt8} (mem : line ∈ d.sprite) {p : Fin 8}
    (set : line.toNat.testBit (7 - p) = true) :
    (s.draw d.x d.y d.sprite).1 = true ∨
      ((s.draw d.x d.y d.sprite).2.draw d.x d.y d.sprite).1 = true := by
  obtain ⟨c, hit⟩ := exists_mem_hits d.x d.y mem set
  have once : 1 ≤ d.hits.count c := List.count_pos_iff.2 hit
  have twice : 2 ≤ ([d, d].flatMap Layer.hits).count c := by
    rw [List.flatMap_cons, List.flatMap_cons, List.flatMap_nil, List.append_nil, List.count_append]
    omega
  have struck : (s.drawAll [d, d]).1 = true := (s.drawAll_iff_count _).2 ⟨c, .inr twice⟩
  rw [drawAll_pair, Bool.or_eq_true] at struck
  exact struck

end

/-- **Layers.** In whatever order layers are drawn, the same screen is left, and the answer whether one
of them collided is the same. Layers that all occur an even number of times, told by their places on the
screen, leave no trace. So a sprite drawn twice leaves none, and if it has a set bit one of the two
drawings collides. -/
theorem layers_commute (s : Screen) :
    (∀ ds ds' : List Layer, ds.Perm ds' → s.drawAll ds = s.drawAll ds') ∧
      (∀ ds : List Layer, (∀ d, Even ((ds.map Layer.wrapped).count d)) → (s.drawAll ds).2 = s) ∧
        ∀ x y sprite, ((s.draw x y sprite).2.draw x y sprite).2 = s ∧
          ((∃ line ∈ sprite, ∃ p : Fin 8, line.toNat.testBit (7 - p) = true) →
            (s.draw x y sprite).1 = true ∨ ((s.draw x y sprite).2.draw x y sprite).1 = true) := by
  refine ⟨fun ds ds' h => s.drawAll_perm h, fun ds even => s.snd_drawAll_of_even even, ?_⟩
  intro x y sprite
  refine ⟨s.draw_draw ⟨x, y, sprite⟩, ?_⟩
  rintro ⟨line, mem, p, set⟩
  exact s.draw_or_draw ⟨x, y, sprite⟩ mem set

/-- A dot in the corner, and the same dot one screen further right and down. -/
theorem layers_commute_dots :
    (blank.drawAll [⟨0, 0, [0x80]⟩, ⟨64, 32, [0x80]⟩]).2 = blank ∧
      blank.drawAll [⟨0, 0, [0x80]⟩, ⟨64, 32, [0x80]⟩] =
        blank.drawAll [⟨64, 32, [0x80]⟩, ⟨0, 0, [0x80]⟩] ∧
        ((blank.draw 0 0 [0x80]).1 = true ∨
          ((blank.draw 0 0 [0x80]).2.draw 0 0 [0x80]).1 = true) := by
  obtain ⟨order, even, twice⟩ := layers_commute blank
  refine ⟨even _ fun d => ?_, order _ _ (.swap _ _ _), (twice 0 0 [0x80]).2 ?_⟩
  · exact even_count_pair ⟨0, 0, [0x80]⟩ d
  · exact ⟨0x80, List.mem_singleton_self _, 0, by decide⟩

end Screen

end Chip8
