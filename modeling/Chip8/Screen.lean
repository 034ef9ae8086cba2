/-!
# The screen

* `Screen`: 64 by 32 pixels, each lit or dark, row after row.
* `Screen.Cell`, `Screen.cell`: the places of the grid; coordinates of any size wrap around.
* `Screen.bytes`: the pixels as bytes, as a renderer copies them; `exists_bytes_eq_iff`: every grid of the
  bytes `0` and `1` is a screen.
* `Screen.hits`: the cells that the set bits of a sprite fall on, in drawing order.
* `Screen.toggleAll`: toggles cells one after the other and counts those that were lit when their
  turn came.
* `Screen.draw`: a sprite is drawn by toggling its hits; it collides if one of them was lit.
* `hits_cons`, `toggleAll_cons`: both go row by row and cell by cell.
-/

namespace Chip8

/-- The pixels, `true` for a lit one. -/
@[ext]
structure Screen where
  pixels : Vector Bool 2048
  deriving DecidableEq

namespace Screen

/-- A place of the grid. -/
abbrev Cell := Fin 2048

/-- The cell in column `x` and row `y`, counted past the edges from the other side. -/
def cell (x y : Nat) : Cell := ⟨64 * (y % 32) + x % 64, by omega⟩

/-- The screen without a lit pixel. -/
def blank : Screen := ⟨Vector.replicate 2048 false⟩

/-- Whether a cell is lit. -/
def get (s : Screen) (c : Cell) : Bool := s.pixels[c]

/-- Whether the pixel in column `x` and row `y` is lit. -/
def pixel (s : Screen) (x y : Nat) : Bool := s.get (cell x y)

/-- The pixels as bytes, row after row, `1` for a lit one. -/
def bytes (s : Screen) : Vector UInt8 2048 := s.pixels.map Bool.toUInt8

/-- The number of lit pixels. -/
def lit (s : Screen) : Nat := s.pixels.count true

/-- The screen with one pixel changed over. -/
def toggle (s : Screen) (c : Cell) : Screen := ⟨s.pixels.set c (!s.get c)⟩

/-- The cells that the set bits of one row fall on. The high bit is the leftmost pixel. -/
def rowHits (x y : Nat) (line : UInt8) : List Cell :=
  ((List.range 8).filter fun p => line.toNat.testBit (7 - p)).map fun p => cell (x + p) y

/-- The cells that the set bits of a sprite fall on, row by row from the top. -/
def hits (x y : Nat) (sprite : List UInt8) : List Cell :=
  sprite.zipIdx.flatMap fun (line, row) => rowHits x (y + row) line

/-- Toggles cells one after the other, and counts those that were lit when their turn came. -/
def toggleAll (s : Screen) (cells : List Cell) : Nat × Screen :=
  cells.foldl (fun (struck, s) c => (struck + (s.get c).toNat, s.toggle c)) (0, s)

/-- Draws a sprite with its upper left corner at `x`, `y`, and tells whether a lit pixel was hit. -/
def draw (s : Screen) (x y : Nat) (sprite : List UInt8) : Bool × Screen :=
  let (struck, s) := s.toggleAll (hits x y sprite)
  (struck != 0, s)

/-! ## Cells -/

theorem ext_get {s t : Screen} (h : ∀ c, s.get c = t.get c) : s = t :=
  Screen.ext (Vector.ext fun i hi => h ⟨i, hi⟩)

/-- Screens and grids of the bytes `0` and `1` are the same. -/
theorem exists_bytes_eq_iff (grid : Vector UInt8 2048) :
    (∃ s : Screen, s.bytes = grid) ↔ ∀ b ∈ grid, b = 0 ∨ b = 1 := by
  constructor
  · rintro ⟨s, rfl⟩ b mem
    obtain ⟨lit, _, rfl⟩ := Vector.mem_map.1 mem
    cases lit with
    | false => exact .inl rfl
    | true => exact .inr rfl
  · intro binary
    refine ⟨⟨grid.map (· == 1)⟩, Vector.ext fun i hi => ?_⟩
    simp only [bytes, Vector.getElem_map]
    rcases binary grid[i] (Vector.getElem_mem hi) with h | h
    · rw [h]
      rfl
    · rw [h]
      rfl

theorem bytes_binary (s : Screen) : ∀ b ∈ s.bytes, b = 0 ∨ b = 1 :=
  (exists_bytes_eq_iff _).1 ⟨s, rfl⟩

@[simp] theorem get_blank (c : Cell) : blank.get c = false := by
  simp [get, blank]

theorem get_toggle (s : Screen) (c d : Cell) :
    (s.toggle c).get d = if d = c then !s.get c else s.get d := by
  split
  · subst d; simp [get, toggle]
  · simp [get, toggle, Fin.val_ne_of_ne (Ne.symm ‹d ≠ c›)]

@[simp] theorem get_toggle_self (s : Screen) (c : Cell) : (s.toggle c).get c = !s.get c := by
  simp [get_toggle]

/-! ## Drawing order -/

@[simp] theorem hits_nil (x y : Nat) : hits x y [] = [] := rfl

/-- The first row comes first, the others follow one row lower. -/
theorem hits_cons (x y : Nat) (line : UInt8) (sprite : List UInt8) :
    hits x y (line :: sprite) = rowHits x y line ++ hits x (y + 1) sprite := by
  simp [hits, List.zipIdx_succ, List.flatMap_map, Nat.add_assoc, Nat.add_comm 1]

@[simp] theorem toggleAll_nil (s : Screen) : s.toggleAll [] = (0, s) := rfl

theorem toggleAll_cons (s : Screen) (c : Cell) (cs : List Cell) :
    s.toggleAll (c :: cs) =
      ((s.get c).toNat + ((s.toggle c).toggleAll cs).1, ((s.toggle c).toggleAll cs).2) := by
  have shift : ∀ (cs : List Cell) (k l : Nat) (s : Screen),
      cs.foldl (fun (struck, s) c => (struck + (s.get c).toNat, s.toggle c)) (k + l, s) =
        let r := cs.foldl (fun (struck, s) c => (struck + (s.get c).toNat, s.toggle c)) (l, s)
        (k + r.1, r.2) := by
    intro cs
    induction cs with
    | nil => intros; rfl
    | cons c cs ih => intro k l s; simp only [List.foldl_cons, Nat.add_assoc, ih]
  simpa [toggleAll] using shift cs (s.get c).toNat 0 (s.toggle c)

end Screen

end Chip8
