import Chip8.Fault
import Chip8.Font

/-!
# Memory

* `Memory`: 4096 bytes; addresses have sixteen bits, those from `0x1000` on are refused.
* `Memory.initial`: the font at the bottom, zero above it.
* `Memory.get`, `Memory.put`: the byte at an address inside memory. Every operation is described
  by what `get` reads after it.
* `Memory.read`, `Memory.write`: one byte at a machine address.
* `Memory.slice`, `Memory.store`: bytes at consecutive addresses, up to the first refused address.
* `Memory.load`: a program, from `0x200` on, or nothing if it does not fit.
* `get_store`, `getElem?_slice`: storing and reading cover exactly the addresses of their bytes.
* `slice_fault_iff`, `store_fault_iff`: they fail if those addresses go past the end of memory;
  `slice_whole_iff`, `slice_of_room`, `store_of_room`.
-/

namespace Chip8

/-- The bytes of the machine. -/
@[ext]
structure Memory where
  bytes : Vector UInt8 4096
  deriving DecidableEq

namespace Memory

/-- Where programs are put. -/
def programStart : UInt16 := 0x200

/-- The bytes between `programStart` and the end of memory. -/
def programRoom : Nat := 0xE00

/-- The byte at an address inside memory. -/
def get (m : Memory) (a : Fin 4096) : UInt8 := m.bytes[a]

/-- The memory with another byte at an address. -/
def put (m : Memory) (a : Fin 4096) (value : UInt8) : Memory := ⟨m.bytes.set a value⟩

/-- The font at the bottom and zero above it. -/
def initial : Memory := ⟨Vector.ofFn fun a => Font.glyphs.getD a 0⟩

/-- The byte at a machine address. -/
def read (m : Memory) (address : UInt16) : Except Fault UInt8 :=
  if h : address.toNat < 4096 then .ok (m.get ⟨address.toNat, h⟩) else .error (.outOfBounds address)

/-- Changes the byte at a machine address. -/
def write (m : Memory) (address : UInt16) (value : UInt8) : Except Fault Memory :=
  if h : address.toNat < 4096 then .ok (m.put ⟨address.toNat, h⟩ value)
  else .error (.outOfBounds address)

/-- The bytes at `count` consecutive addresses, cut short by the first refused one. -/
def slice (m : Memory) (address : UInt16) : (count : Nat) → List UInt8 × Option Fault
  | 0 => ([], none)
  | count + 1 =>
    match m.read address with
    | .error fault => ([], some fault)
    | .ok byte =>
      let (bytes, fault?) := m.slice (address + 1) count
      (byte :: bytes, fault?)

/-- Writes bytes at consecutive addresses. The first refused address ends the writing, and what
was written before it stays. -/
def store (m : Memory) (address : UInt16) : List UInt8 → Memory × Option Fault
  | [] => (m, none)
  | byte :: bytes =>
    match m.write address byte with
    | .error fault => (m, some fault)
    | .ok m => m.store (address + 1) bytes

/-- Puts a program at `programStart`, unless it is too large. -/
def load (m : Memory) (program : List UInt8) : Except Fault Memory :=
  if program.length ≤ programRoom then .ok (m.store programStart program).1
  else .error (.programTooLarge program.length programRoom)

/-! ## One byte -/

theorem ext_get {m m' : Memory} (h : ∀ a, m.get a = m'.get a) : m = m' :=
  Memory.ext (Vector.ext fun i hi => h ⟨i, hi⟩)

@[simp] theorem get_put_self (m : Memory) (a : Fin 4096) (value : UInt8) :
    (m.put a value).get a = value := by
  simp [get, put]

theorem get_put_of_ne (m : Memory) {a b : Fin 4096} (h : b ≠ a) (value : UInt8) :
    (m.put a value).get b = m.get b := by
  simp [get, put, Fin.val_ne_of_ne (Ne.symm h)]

theorem get_put (m : Memory) (a b : Fin 4096) (value : UInt8) :
    (m.put a value).get b = if b = a then value else m.get b := by
  split
  · subst b; simp
  · exact get_put_of_ne m ‹_› value

theorem get_initial (a : Fin 4096) : initial.get a = Font.glyphs.getD a 0 := by
  simp [get, initial]

theorem read_of_lt (m : Memory) {address : UInt16} (h : address.toNat < 4096) :
    m.read address = .ok (m.get ⟨address.toNat, h⟩) := dif_pos h

theorem read_of_le (m : Memory) {address : UInt16} (h : 4096 ≤ address.toNat) :
    m.read address = .error (.outOfBounds address) := dif_neg (Nat.not_lt.2 h)

theorem write_of_lt (m : Memory) {address : UInt16} (h : address.toNat < 4096) (value : UInt8) :
    m.write address value = .ok (m.put ⟨address.toNat, h⟩ value) := dif_pos h

theorem write_of_le (m : Memory) {address : UInt16} (h : 4096 ≤ address.toNat) (value : UInt8) :
    m.write address value = .error (.outOfBounds address) := dif_neg (Nat.not_lt.2 h)

/-! ## Consecutive addresses -/

/-- Inside memory the next address does not wrap. -/
theorem toNat_succ {address : UInt16} (h : address.toNat < 4096) :
    (address + 1).toNat = address.toNat + 1 := by
  rw [UInt16.toNat_add]
  exact Nat.mod_eq_of_lt (by simp; omega)

/-- Storing puts the bytes at the addresses from `address` on and changes no other address. -/
theorem get_store (m : Memory) (address : UInt16) (bytes : List UInt8) (a : Fin 4096) :
    (m.store address bytes).1.get a =
      if address.toNat ≤ a then bytes.getD (a - address.toNat) (m.get a) else m.get a := by
  induction bytes generalizing m address with
  | nil => simp [store]
  | cons byte bytes ih =>
    by_cases h : address.toNat < 4096
    · rw [store, write_of_lt m h]
      simp only [ih, toNat_succ h, get_put]
      rcases Nat.lt_trichotomy a address.toNat with lt | eq | gt
      · rw [if_neg (by omega), if_neg (by intro e; subst e; exact Nat.lt_irrefl _ lt),
          if_neg (by omega)]
      · rw [if_neg (by omega), if_pos (Fin.ext eq), if_pos (by omega), eq, Nat.sub_self]
        simp
      · rw [if_pos (by omega), if_neg (by intro e; subst e; exact Nat.lt_irrefl _ gt),
          if_pos (by omega), show a - address.toNat = a - (address.toNat + 1) + 1 by omega]
        simp
    · rw [store, write_of_le m (Nat.not_lt.1 h), if_neg (by have := a.isLt; omega)]

/-- A slice holds the bytes at its addresses, up to the end of memory. -/
theorem getElem?_slice (m : Memory) (address : UInt16) (count k : Nat) :
    (m.slice address count).1[k]? =
      if h : k < count ∧ address.toNat + k < 4096 then some (m.get ⟨address.toNat + k, h.2⟩)
      else none := by
  induction count generalizing address k with
  | zero => simp [slice]
  | succ count ih =>
    by_cases h : address.toNat < 4096
    · rw [slice, read_of_lt m h]
      cases k with
      | zero => simp [h]
      | succ k => simp [ih, toNat_succ h, Nat.add_assoc, Nat.add_comm 1]
    · rw [slice, read_of_le m (Nat.not_lt.1 h), dif_neg (by omega)]
      rfl

/-! ## Refused addresses -/

theorem toNat_max (a b : UInt16) : (max a b).toNat = max a.toNat b.toNat := by
  rw [show max a b = if a ≤ b then b else a from rfl]
  simp only [UInt16.le_iff_toNat_le]
  split <;> omega

theorem max_of_le {a : UInt16} (h : 4096 ≤ a.toNat) : max a 0x1000 = a := by
  rw [← UInt16.toNat_inj, toNat_max]
  exact Nat.max_eq_left h

/-- Of the addresses from one inside memory on, the same one is refused first. -/
theorem max_succ {a : UInt16} (h : a.toNat < 4096) : max (a + 1) 0x1000 = max a 0x1000 := by
  rw [← UInt16.toNat_inj, toNat_max, toNat_max, toNat_succ h]
  exact (Nat.max_eq_right (by simp; omega)).trans (Nat.max_eq_right (by simp; omega)).symm

/-- A slice meets a refused address if it ends past the end of memory, and meets the lowest one. -/
theorem slice_fault_iff (m : Memory) (address : UInt16) (count : Nat) (fault : Fault) :
    (m.slice address count).2 = some fault ↔
      0 < count ∧ 4096 < address.toNat + count ∧ fault = .outOfBounds (max address 0x1000) := by
  induction count generalizing address with
  | zero => simp [slice]
  | succ count ih =>
    by_cases h : address.toNat < 4096
    · rw [slice, read_of_lt m h]
      simp only [ih, toNat_succ h, max_succ h]
      constructor
      · rintro ⟨_, lt, rfl⟩
        exact ⟨Nat.succ_pos _, by omega, rfl⟩
      · rintro ⟨_, lt, rfl⟩
        exact ⟨by omega, by omega, rfl⟩
    · rw [slice, read_of_le m (Nat.not_lt.1 h), max_of_le (Nat.not_lt.1 h)]
      constructor
      · rintro ⟨⟩
        exact ⟨Nat.succ_pos _, by omega, rfl⟩
      · rintro ⟨_, _, rfl⟩
        rfl

/-- A slice without bytes is whole at any address. -/
theorem slice_whole_iff (m : Memory) (address : UInt16) (count : Nat) :
    (m.slice address count).2 = none ↔ count = 0 ∨ address.toNat + count ≤ 4096 := by
  rw [Option.eq_none_iff_forall_ne_some]
  constructor
  · intro whole
    refine Decidable.byContradiction fun past => ?_
    exact whole _ ((slice_fault_iff _ _ _ _).2 ⟨by omega, by omega, rfl⟩)
  · intro room fault failed
    obtain ⟨pos, past, -⟩ := (slice_fault_iff _ _ _ _).1 failed
    omega

theorem slice_of_room (m : Memory) {address : UInt16} {count : Nat}
    (room : address.toNat + count ≤ 4096) : (m.slice address count).2 = none :=
  (m.slice_whole_iff address count).2 (.inr room)

/-- A store meets a refused address under the same condition as a slice. -/
theorem store_fault_iff (m : Memory) (address : UInt16) (bytes : List UInt8) (fault : Fault) :
    (m.store address bytes).2 = some fault ↔
      bytes ≠ [] ∧ 4096 < address.toNat + bytes.length ∧
        fault = .outOfBounds (max address 0x1000) := by
  induction bytes generalizing m address with
  | nil => simp [store]
  | cons byte bytes ih =>
    by_cases h : address.toNat < 4096
    · rw [store, write_of_lt m h]
      simp only [ih, toNat_succ h, max_succ h, List.length_cons]
      constructor
      · rintro ⟨_, lt, rfl⟩
        exact ⟨List.cons_ne_nil _ _, by omega, rfl⟩
      · rintro ⟨_, lt, rfl⟩
        refine ⟨?_, by omega, rfl⟩
        rintro rfl
        simp at lt
        omega
    · rw [store, write_of_le m (Nat.not_lt.1 h), max_of_le (Nat.not_lt.1 h)]
      constructor
      · rintro ⟨⟩
        exact ⟨List.cons_ne_nil _ _, by simp; omega, rfl⟩
      · rintro ⟨_, _, rfl⟩
        rfl

theorem store_of_room (m : Memory) {address : UInt16} {bytes : List UInt8}
    (room : address.toNat + bytes.length ≤ 4096) : (m.store address bytes).2 = none := by
  rw [Option.eq_none_iff_forall_ne_some]
  intro fault failed
  obtain ⟨-, past, -⟩ := (store_fault_iff _ _ _ _).1 failed
  omega

end Memory

end Chip8
