import Chip8.Proofs.Drawing
import Chip8.Proofs.Footprint
import Chip8.Proofs.Reached

/-!
# The font on the screen

* `Font.glyph`: the rows of one digit.
* `Machine.FontIntact`: the font is at the bottom of memory.
* `Attempt.SparesFont`: a step that does not store from an address inside the font.
* `get_left_of_stepAt`: such a step changes no byte of the font, whether it succeeds or fails.
* **`fontIntact_of_reached`**: so the font stays intact as long as only such steps are tried.
* `stepAt_of_glyph`, `stepAt_of_draw`: what `Fx29` and `Dxyn` do, and when they succeed.
* `slice_glyph`: the rows of a digit are where `Fx29` points at.
* **`glyphs_of_reached`**: `Fx29` and a `Dxy5` after it draw the digit in `Vx`.
-/

namespace Chip8

/-- The rows of a digit. -/
def Font.glyph (digit : Nat) : List UInt8 :=
  (List.range height).map fun row => glyphs.getD (height * digit + row) 0

variable {σ : Type}

/-- The font is at the bottom of memory. -/
def Machine.FontIntact (m : Machine σ) : Prop :=
  ∀ a : Fin 4096, (a : Nat) < 0x50 → m.memory.get a = Font.glyphs.getD a 0

/-- If the step stores, it stores past the font, however far it gets. -/
def Attempt.SparesFont (a : Attempt σ) : Prop :=
  ∀ op, a.machine.Reads op → op.Is 0xF 0x33 ∨ op.Is 0xF 0x55 → 0x50 ≤ a.machine.i.toNat

theorem Machine.left_load (m : Machine σ) {program : List UInt8}
    (fits : program.length ≤ Memory.programRoom) : (m.load program).left =
      { m with memory := (m.memory.store Memory.programStart program).1 } := by
  rw [load, Memory.load, if_pos fits]
  rfl

theorem Memory.get_of_load {memory memory' : Memory} {program : List UInt8}
    (h : memory.load program = .ok memory') {a : Fin 4096} (lt : (a : Nat) < 0x200) :
    memory'.get a = memory.get a := by
  unfold load at h
  split at h
  · cases h
    have start : programStart.toNat = 0x200 := rfl
    rw [get_store, if_neg (by omega)]
  · cases h

namespace Machine

/-! ## What keeps the font -/

theorem FontIntact.congr {m m' : Machine σ} (h : m.FontIntact)
    (same : ∀ a : Fin 4096, (a : Nat) < 0x50 → m'.memory.get a = m.memory.get a) : m'.FontIntact := by
  intro a lt
  rw [same a lt]
  exact h a lt

theorem FontIntact.load {m : Machine σ} (h : m.FontIntact) (program : List UInt8) :
    (m.load program).left.FontIntact := by
  unfold Machine.load
  cases loaded : m.memory.load program with
  | ok memory => exact h.congr fun a lt => Memory.get_of_load loaded (by omega)
  | error fault => exact h

theorem fontIntact_new (host : σ) : (new host).FontIntact := by
  intro a _
  exact Memory.get_initial a

variable [EventSource σ] {m : Machine σ}

/-- A step that stores only past the font leaves the font alone, even if it fails half way. -/
theorem get_left_of_stepAt {moment : Moment} (spares : Attempt.SparesFont ⟨m, moment⟩)
    {a : Fin 4096} (lt : (a : Nat) < 0x50) :
    (m.stepAt moment).left.memory.get a = m.memory.get a := by
  cases hs : m.stepAt moment with
  | ok _ m' =>
    obtain ⟨op, hf⟩ := fetch_of_stepAt hs
    have word : m.Reads op := fetch_eq_ok_iff.1 hf
    by_contra differs
    have stores : op.Stores m.i.toNat a := (frame_of_stepAt word hs).memory a differs
    rcases stores with ⟨is, le, -⟩ | ⟨is, le, -⟩
    · have past : 0x50 ≤ m.i.toNat := spares op word (.inl is)
      omega
    · have past : 0x50 ≤ m.i.toNat := spares op word (.inr is)
      omega
  | error fault m' =>
    have spared : (m.elapse moment.ticks).Spared 0 m' := spared_of_step hs
    by_cases stores : ∃ op, m.Reads op ∧ (op.Is 0xF 0x33 ∨ op.Is 0xF 0x55)
    · obtain ⟨op, word, is⟩ := stores
      exact spared.below a (Nat.lt_of_lt_of_le lt (spares op word is))
    · have same : m'.memory = m.memory :=
        spared.memory fun op word is => absurd ⟨op, word, is⟩ stores
      exact congrArg (Memory.get · a) same

theorem kept_fontIntact : Kept fun (tried : List (Attempt σ)) m =>
    (∀ a ∈ tried, a.SparesFont) → m.FontIntact where
  load h program := fun spares => (h spares).load program
  step {tried m} h moment := by
    intro spares
    rw [List.forall_mem_append, List.forall_mem_singleton] at spares
    exact (h spares.1).congr fun a lt => get_left_of_stepAt spares.2 lt
  poll h := h
  quit h _ := h

/-- **The font stays.** -/
theorem fontIntact_of_reached {host : σ} {tried : List (Attempt σ)} (h : Reached host tried m)
    (spares : ∀ a ∈ tried, a.SparesFont) : m.FontIntact :=
  reached_of_kept kept_fontIntact (fun _ => fontIntact_new host) h spares

/-! ## From the font to the screen -/

section

variable (m) (polled : Bool)

@[simp] theorem v_pollIf : (m.pollIf polled).v = m.v := by
  cases polled <;> rfl

@[simp] theorem i_pollIf : (m.pollIf polled).i = m.i := by
  cases polled <;> rfl

@[simp] theorem screen_pollIf : (m.pollIf polled).screen = m.screen := by
  cases polled <;> rfl

end

variable {op : Opcode}

theorem stepAt_of_glyph (word : m.Reads op) (is : op.Is 0xF 0x29) {digit : Nat} (lt : digit < 16)
    (vx : (m.v.get op.x).toNat = digit) (moment : Moment) :
    ∃ m', m.stepAt moment = .ok () m' ∧ m'.i.toNat = Font.height * digit ∧ m'.pc = m.pc + 2 ∧
      m'.memory = m.memory ∧ m'.v = m.v ∧ m'.screen = m.screen := by
  have done : (m.elapse moment.ticks).perform op moment.byte .glyph = .ok .next
      { m.elapse moment.ticks with i := UInt16.ofNat (Font.height * (m.v.get op.x).toNat) } :=
    if_pos (vx ▸ lt)
  refine ⟨_, stepAt_of_selects word moment done is (by decide), ?_, rfl, rfl, rfl, rfl⟩
  change (UInt16.ofNat (Font.height * (m.v.get op.x).toNat)).toNat = _
  rw [vx, UInt16.toNat_ofNat']
  exact Nat.mod_eq_of_lt (by simp only [Font.height]; omega)

theorem stepAt_of_draw (word : m.Reads op) (is : op.family = 0xD)
    (whole : (m.memory.slice m.i op.n).2 = none) {hit : Bool} {screen : Screen}
    (drawn : m.screen.draw (m.v.get op.x).toNat (m.v.get op.y).toNat
      (m.memory.slice m.i op.n).1 = (hit, screen)) (moment : Moment) :
    m.stepAt moment = .ok () { m.elapse moment.ticks with
      screen
      v := m.v.put Registers.flag hit.toUInt8
      pc := m.pc + 2 } := by
  have whole : m.memory.slice m.i op.n = ((m.memory.slice m.i op.n).1, none) := Prod.ext rfl whole
  have done : (m.elapse moment.ticks).perform op moment.byte .draw = .ok .next
      { m.elapse moment.ticks with screen, v := m.v.put Registers.flag hit.toUInt8 } := by
    simp only [perform, elapse]
    rw [whole]
    simp only [drawn]
  exact stepAt_of_selects word moment done is (by decide)

omit [EventSource σ] in
theorem slice_glyph (intact : m.FontIntact) {address : UInt16} {digit : Nat} (lt : digit < 16)
    (start : address.toNat = Font.height * digit) :
    (m.memory.slice address Font.height).1 = Font.glyph digit := by
  have top : Font.height * digit ≤ 75 := Nat.mul_le_mul_left 5 (Nat.le_of_lt_succ lt)
  have height : Font.height = 5 := rfl
  apply List.ext_getElem?
  intro row
  rw [Memory.getElem?_slice, Font.glyph, List.getElem?_map]
  by_cases h : row < Font.height
  · rw [dif_pos ⟨h, by omega⟩, List.getElem?_range h, Option.map_some, intact _ (by simp only; omega)]
    simp only [start]
  · rw [dif_neg fun and => h and.1, List.getElem?_eq_none (by rw [List.length_range]; omega),
      Option.map_none]

/-- Five rows drawn from where a digit starts are the digit. -/
theorem draw_glyph (intact : m.FontIntact) {digit : Nat} (lt : digit < 16)
    (start : m.i.toNat = Font.height * digit) (word : m.Reads op) (is : op.family = 0xD)
    (rows : op.n = 5) (moment : Moment) :
    ∃ n, m.stepAt moment = .ok () n ∧
      ∀ (px : Fin 64) (py : Fin 32), n.screen.pixel px py = (m.screen.pixel px py ^^
        decide (Screen.hitsAt (m.v.get op.x).toNat (m.v.get op.y).toNat (Font.glyph digit)
          px py % 2 = 1)) := by
  have sprite : (m.memory.slice m.i op.n).1 = Font.glyph digit := by
    rw [rows]
    exact slice_glyph intact lt start
  have top : Font.height * digit ≤ 75 := Nat.mul_le_mul_left 5 (Nat.le_of_lt_succ lt)
  have drawn : m.screen.draw (m.v.get op.x).toNat (m.v.get op.y).toNat
      (m.memory.slice m.i op.n).1 = (_, _) := rfl
  have whole : (m.memory.slice m.i op.n).2 = none := m.memory.slice_of_room (by omega)
  refine ⟨_, stepAt_of_draw word is whole drawn moment, ?_⟩
  intro px py
  rw [← sprite]
  exact Screen.pixel_draw _ _ _ _ px py

/-- **Digits on the screen.** The font is at the bottom of memory as long as no step stores from an
address inside it. So `Fx29` succeeds on a digit and points at its rows, and a `Dxy5` after it cannot fail
and changes over just the pixels that the set bits of these rows fall on. -/
theorem glyphs_of_reached {host : σ} {tried : List (Attempt σ)} (h : Reached host tried m)
    (spares : ∀ a ∈ tried, a.SparesFont) :
    m.FontIntact ∧ ∀ op, m.Reads op → op.Is 0xF 0x29 → (m.v.get op.x).toNat ≤ 0xF →
      ∀ moment, ∃ m', m.stepAt moment = .ok () m' ∧ m'.i.toNat = 5 * (m.v.get op.x).toNat ∧
        ∀ polled op', (m'.pollIf polled).Reads op' → op'.family = 0xD → op'.n = 5 →
          ∀ moment', ∃ n, (m'.pollIf polled).stepAt moment' = .ok () n ∧
            ∀ (px : Fin 64) (py : Fin 32), n.screen.pixel px py = (m.screen.pixel px py ^^
              decide (Screen.hitsAt (m.v.get op'.x).toNat (m.v.get op'.y).toNat
                (Font.glyph (m.v.get op.x).toNat) px py % 2 = 1)) := by
  have intact := fontIntact_of_reached h spares
  refine ⟨intact, ?_⟩
  intro op word is le moment
  obtain ⟨m', hs, start, -, memory, v, screen⟩ :=
    stepAt_of_glyph word is (Nat.lt_succ_of_le le) rfl moment
  refine ⟨m', hs, start, ?_⟩
  intro polled op' word' is' rows moment'
  have intact' : (m'.pollIf polled).FontIntact := intact.congr fun a _ => by rw [memory_pollIf, memory]
  have drawn := draw_glyph intact' (Nat.lt_succ_of_le le) (by rw [i_pollIf, start]) word' is' rows
    moment'
  rw [screen_pollIf, v_pollIf, screen, v] at drawn
  exact drawn

/-- A program that stores digits at `0x300` and draws the digit `0`. -/
def zeroDrawn : List UInt8 := [0xA3, 0x00, 0xF0, 0x33, 0xF0, 0x29, 0xD0, 0x05]

/-- The machine that has stored the digits. The program is put into memory once more. -/
theorem reached_zeroDrawn : ∃ tried m, Reached (Script.ofEvents []) tried m ∧
    (∀ a ∈ tried, a.SparesFont) ∧ tried.length = 2 ∧ m.pc = 0x204 ∧ m.v = .zero ∧
      m.screen = .blank ∧
        ∃ old : Memory, m.memory = (old.store Memory.programStart zeroDrawn).1 := by
  let moment : Moment := ⟨0, 0⟩
  have fits : zeroDrawn.length ≤ Memory.programRoom := by decide
  have r₀ : Reached (Script.ofEvents []) [] ((new _).load zeroDrawn).left := Reached.load .new _
  rw [left_load _ fits] at r₀
  generalize hs : mk _ _ _ _ _ _ _ _ _ = s at r₀
  have memory₀ : s.memory = (Memory.initial.store Memory.programStart zeroDrawn).1 := by
    rw [← hs]
    rfl
  have point : s.Reads (Opcode.ofBytes 0xA3 0x00) :=
    reads_of_store (k := 0) memory₀ fits (by rw [← hs]; rfl) rfl rfl
  have ha := stepAt_of_perform point moment rfl
  generalize hd : advance _ _ = a at ha
  have i₁ : a.i = 0x300 := by
    rw [← hd]
    change (Opcode.ofBytes 0xA3 0x00).nnn = 0x300
    decide
  have digits : a.Reads (Opcode.ofBytes 0xF0 0x33) :=
    reads_of_store (k := 2) (by rw [← hd]; exact memory₀) fits (by rw [← hd, ← hs]; rfl) rfl rfl
  have hb := stepAt_of_storeDigits digits ⟨by decide, by decide⟩ (by rw [i₁]; decide) moment
  have r₃ := (((r₀.succeed ha).succeed hb).load zeroDrawn)
  rw [left_load _ fits] at r₃
  refine ⟨_, _, r₃, ?_, rfl, ?_, ?_, ?_, _, rfl⟩
  · simp only [List.nil_append, List.cons_append, List.forall_mem_cons]
    refine ⟨?_, ?_, nofun⟩
    · intro op word is
      obtain rfl := point.unique word
      rcases is with ⟨family, -⟩ | ⟨family, -⟩ <;> exact absurd family (by decide)
    · intro op word is
      change 0x50 ≤ a.i.toNat
      rw [i₁]
      decide
  · rw [← hd, ← hs]
    rfl
  · rw [← hd, ← hs]
    rfl
  · rw [← hd, ← hs]
    rfl

theorem glyphs_of_reached_zeroDrawn : ∃ tried m m' n, Reached (Script.ofEvents []) tried m ∧
    (∀ a ∈ tried, a.SparesFont) ∧ tried.length = 2 ∧ m.FontIntact ∧
      m.stepAt ⟨0, 0⟩ = .ok () m' ∧ m'.i.toNat = 0 ∧
        m'.stepAt ⟨0, 0⟩ = .ok () n ∧ n.screen.pixel 0 0 = true := by
  have fits : zeroDrawn.length ≤ Memory.programRoom := by decide
  obtain ⟨tried, m, reached, spares, length, pc, v, screen, old, memory⟩ := reached_zeroDrawn
  have digit : m.Reads (Opcode.ofBytes 0xF0 0x29) :=
    reads_of_store (k := 4) memory fits (by rw [pc]; rfl) rfl rfl
  have zero : (m.v.get (Opcode.ofBytes 0xF0 0x29).x).toNat = 0 := by rw [v]; decide
  obtain ⟨intact, digits⟩ := glyphs_of_reached reached spares
  obtain ⟨m', hs, i, draws⟩ := digits _ digit ⟨by decide, by decide⟩ (by omega) ⟨0, 0⟩
  obtain ⟨k, hk, -, pc', memory', -, -⟩ :=
    stepAt_of_glyph digit ⟨by decide, by decide⟩ (by decide) zero ⟨0, 0⟩
  obtain rfl : m' = k := by
    rw [hs] at hk
    cases hk
    rfl
  have draw : m'.Reads (Opcode.ofBytes 0xD0 0x05) :=
    reads_of_store (k := 6) (memory'.trans memory) fits (by rw [pc', pc]; rfl) rfl rfl
  obtain ⟨n, hn, pixels⟩ := draws false _ draw (by decide) (by decide) ⟨0, 0⟩
  refine ⟨tried, m, m', n, reached, spares, length, intact, hs, by rw [i, zero], hn, ?_⟩
  have hit : Screen.hitsAt 0 0 (Font.glyph 0) 0 0 = 1 := by decide +kernel
  have x : (Registers.zero.get (Opcode.ofBytes 0xD0 0x05).x).toNat = 0 := by decide
  have y : (Registers.zero.get (Opcode.ofBytes 0xD0 0x05).y).toNat = 0 := by decide
  have corner := pixels 0 0
  rw [zero, v, screen, x, y, hit, Screen.pixel, Screen.pixel, Screen.get_blank] at corner
  exact corner

end Machine

end Chip8
