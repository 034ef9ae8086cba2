import Chip8.Proofs.Faults
import Mathlib.Data.List.Induction

/-!
# The latest byte

* `Memory.Access`: what is asked of memory; `Memory.result`, the memory that an access makes if it is not
  refused; `Memory.after`, the memory after accesses in a row, refused ones included.
* `Access.put?`: the byte that an access puts at an address; `get_access`: it is there afterwards.
* `Memory.latest`: the byte that was put at an address last; `get_after`: it is the one that is there.
* `read_eq_error_iff`, `write_eq_error_iff`, `load_eq_error_iff`: the accesses that are refused.
* `Machine.load_eq_error_iff`, `Machine.load_eq_ok_iff`: to load a program into a machine is to load it
  into its memory.
* **`last_put_wins`**: what is read from memory, and fetched by a machine that a program was loaded into.
-/

namespace Chip8

namespace Memory

/-- What is asked of memory. -/
inductive Access
  | read (address : UInt16)
  | write (address : UInt16) (value : UInt8)
  | load (program : List UInt8)
  deriving DecidableEq, Repr

/-- The memory that an access makes, unless it is refused. -/
def result (m : Memory) : Access → Except Fault Memory
  | .read address => (m.read address).map fun _ => m
  | .write address value => m.write address value
  | .load program => m.load program

/-- The memory after an access. -/
def access (m : Memory) (x : Access) : Memory :=
  match m.result x with
  | .ok m' => m'
  | .error _ => m

/-- The memory after accesses in a row. -/
def after (m : Memory) (past : List Access) : Memory := past.foldl access m

/-- The byte that an access puts at an address, if it is one that changes it. A program that is too
large changes none. -/
def Access.put? (a : Fin 4096) : Access → Option UInt8
  | .read _ => none
  | .write address value => if address.toNat = a then some value else none
  | .load program =>
    if program.length ≤ 0xE00 ∧ 0x200 ≤ (a : Nat) then program[(a : Nat) - 0x200]? else none

/-- The byte that was put at an address last. Before that it is a byte of the font, or zero above it. -/
def latest (past : List Access) (a : Fin 4096) : UInt8 :=
  (past.filterMap (Access.put? a)).getLast?.getD (Font.glyphs.getD a 0)

/-! ## Refused accesses -/

variable (m : Memory) {address : UInt16} {value : UInt8} {program : List UInt8} {fault : Fault}

/-- What is checked first is refused for nothing else. -/
theorem checked_eq_error_iff {α : Type} {p : Prop} [Decidable p] {done : p → α} {fault' : Fault} :
    (if h : p then Except.ok (done h) else Except.error fault') = .error fault ↔
      ¬ p ∧ fault = fault' := by
  by_cases h : p
  · rw [dif_pos h]
    exact ⟨nofun, fun ⟨fails, _⟩ => absurd h fails⟩
  · rw [dif_neg h, Except.error.injEq]
    exact ⟨fun eq => ⟨h, eq.symm⟩, fun ⟨_, eq⟩ => eq.symm⟩

theorem read_eq_error_iff :
    m.read address = .error fault ↔ 0x1000 ≤ address.toNat ∧ fault = .outOfBounds address := by
  rw [read, checked_eq_error_iff, Nat.not_lt]

theorem write_eq_error_iff : m.write address value = .error fault ↔
    0x1000 ≤ address.toNat ∧ fault = .outOfBounds address := by
  rw [write, checked_eq_error_iff, Nat.not_lt]

theorem load_eq_error_iff : m.load program = .error fault ↔
    0xE00 < program.length ∧ fault = .programTooLarge program.length 0xE00 := by
  rw [load, ← dite_eq_ite, checked_eq_error_iff, Nat.not_le]
  rfl

theorem load_of_le (le : program.length ≤ 0xE00) :
    m.load program = .ok (m.store programStart program).1 := if_pos le

theorem load_of_lt (lt : 0xE00 < program.length) :
    m.load program = .error (.programTooLarge program.length 0xE00) := if_neg (Nat.not_le.2 lt)

theorem after_concat (past : List Access) (x : Access) :
    m.after (past ++ [x]) = (m.after past).access x := List.foldl_append

theorem access_of_refused {x : Access} (h : m.result x = .error fault) : m.access x = m := by
  rw [access, h]

/-! ## What is there -/

/-- After an access the byte that it puts is there, and where it puts none the old one. -/
theorem get_access (x : Access) (a : Fin 4096) :
    (m.access x).get a = (x.put? a).getD (m.get a) := by
  cases x with
  | read address =>
    simp only [access, result]
    cases m.read address <;> rfl
  | write address value =>
    simp only [access, result, Access.put?]
    by_cases lt : address.toNat < 4096
    · rw [write_of_lt m lt]
      by_cases here : address.toNat = a
      · rw [if_pos here]
        exact (get_put m _ _ _).trans (if_pos (Fin.ext here.symm))
      · rw [if_neg here]
        exact get_put_of_ne m (fun eq => here (congrArg Fin.val eq).symm) _
    · rw [write_of_le m (Nat.not_lt.1 lt), if_neg fun here => lt (by omega)]
      rfl
  | load program =>
    simp only [access, result, Access.put?]
    by_cases fits : program.length ≤ 0xE00
    · have start : programStart.toNat = 0x200 := rfl
      rw [load_of_le m fits]
      simp only [get_store, start, fits, true_and]
      split
      · exact List.getD_eq_getElem?_getD
      · rfl
    · rw [load_of_lt m (Nat.not_le.1 fits), if_neg fun and => fits and.1]
      rfl

/-- **What was put at an address last is there.** -/
theorem get_after (past : List Access) (a : Fin 4096) :
    (initial.after past).get a = latest past a := by
  -- the last access decides, so the induction takes accesses off the end
  induction past using List.reverseRecOn with
  | nil => exact get_initial a
  | append_singleton past x ih =>
    rw [after_concat, get_access, ih, latest, latest, List.filterMap_append]
    cases put : x.put? a with
    | none => rw [List.filterMap_cons_none put, List.filterMap_nil, List.append_nil, Option.getD_none]
    | some byte =>
      rw [List.filterMap_cons_some put, List.filterMap_nil, List.getLast?_concat, Option.getD_some,
        Option.getD_some]

theorem read_after_eq_ok_iff (past : List Access) {byte : UInt8} :
    (initial.after past).read address = .ok byte ↔
      ∃ lt : address.toNat < 4096, byte = latest past ⟨address.toNat, lt⟩ := by
  by_cases lt : address.toNat < 4096
  · rw [read_of_lt _ lt, get_after, Except.ok.injEq]
    exact ⟨fun eq => ⟨lt, eq.symm⟩, fun ⟨_, eq⟩ => eq.symm⟩
  · rw [read_of_le _ (Nat.not_lt.1 lt)]
    exact ⟨nofun, fun ⟨inside, _⟩ => absurd inside lt⟩

end Memory

/-! ## Programs -/

namespace Machine

variable {σ : Type} {m m' : Machine σ} {program : List UInt8}

theorem load_eq_ok_iff : m.load program = .ok () m' ↔
    ∃ memory, m.memory.load program = .ok memory ∧ m' = { m with memory } := by
  unfold load
  cases m.memory.load program with
  | ok memory => simp [attempt, eq_comm]
  | error fault => simp [attempt]

theorem load_eq_error_iff {fault : Fault} : m.load program = .error fault m' ↔
    m.memory.load program = .error fault ∧ m' = m := by
  unfold load
  cases m.memory.load program with
  | ok memory => simp [attempt]
  | error fault => simp [attempt, eq_comm]

/-- Two bytes of a program that was loaded are fetched as a word. -/
theorem fetch_of_load (h : m.load program = .ok () m') {t : Machine σ} (memory : t.memory = m'.memory)
    {k : Nat} (pc : t.pc.toNat = 0x200 + k) {high low : UInt8} (first : program[k]? = some high)
    (second : program[k + 1]? = some low) :
    ∃ op, t.fetch = .ok op ∧ op.toNat = 256 * high.toNat + low.toNat := by
  obtain ⟨loaded, done, rfl⟩ := load_eq_ok_iff.1 h
  have fits : program.length ≤ 0xE00 := by
    by_contra large
    rw [Memory.load_of_lt _ (Nat.not_le.1 large)] at done
    cases done
  rw [Memory.load_of_le _ fits] at done
  cases done
  exact ⟨_, fetch_eq_ok_iff.2 (reads_of_store memory fits pc first second), Opcode.toNat_ofBytes _ _⟩

end Machine

namespace Memory

/-- **The last byte put at an address wins.** After any accesses to a new memory, a read gives the byte that
was put there last, by a write or by a program that was loaded over it. Addresses past the end of memory and
programs that are too large are refused, and change nothing. To load a program into a machine changes its
memory in the same way and nothing else, and the bytes of the program are fetched from where they were
put. -/
theorem last_put_wins {σ : Type} (past : List Access) (n : Machine σ) :
    (∀ address byte, (initial.after past).read address = .ok byte ↔
      ∃ lt : address.toNat < 4096, byte = latest past ⟨address.toNat, lt⟩) ∧
    (∀ address fault, (initial.after past).read address = .error fault ↔
      0x1000 ≤ address.toNat ∧ fault = .outOfBounds address) ∧
    (∀ address value fault, (initial.after past).write address value = .error fault ↔
      0x1000 ≤ address.toNat ∧ fault = .outOfBounds address) ∧
    (∀ program fault, (initial.after past).load program = .error fault ↔
      0xE00 < program.length ∧ fault = .programTooLarge program.length 0xE00) ∧
    (∀ x fault, (initial.after past).result x = .error fault →
      initial.after (past ++ [x]) = initial.after past) ∧
    (∀ program fault n', n.load program = .error fault n' ↔
      n.memory.load program = .error fault ∧ n' = n) ∧
    (∀ program n', n.load program = .ok () n' ↔
      ∃ memory, n.memory.load program = .ok memory ∧ n' = { n with memory }) ∧
    ∀ program n', n.load program = .ok () n' → ∀ t : Machine σ, t.memory = n'.memory →
      ∀ k high low, t.pc.toNat = 0x200 + k → program[k]? = some high → program[k + 1]? = some low →
        ∃ op, t.fetch = .ok op ∧ op.toNat = 256 * high.toNat + low.toNat := by
  refine ⟨fun _ _ => read_after_eq_ok_iff past, fun _ _ => read_eq_error_iff _,
    fun _ _ _ => write_eq_error_iff _, fun _ _ => load_eq_error_iff _, fun x fault refused => ?_,
    fun _ _ _ => Machine.load_eq_error_iff, fun _ _ => Machine.load_eq_ok_iff, ?_⟩
  · rw [after_concat, access_of_refused _ refused]
  · intro program n' loaded t memory k high low pc first second
    exact Machine.fetch_of_load loaded memory pc first second

/-- A program is loaded over a byte that was written, and a write past the end of memory does not land in
it. -/
theorem last_put_wins_overlap :
    (initial.after [.write 0x201 7, .load [0x12, 0x34], .write 0x1201 9]).read 0x201 = .ok 0x34 ∧
      ∃ n : Machine Script, (Machine.new (Script.ofEvents [])).load [0x12, 0x34] = .ok () n ∧
        n.fetch = .ok 0x1234 := by
  obtain ⟨reads, -, -, -, -, -, loads, fetches⟩ :=
    last_put_wins [.write 0x201 7, .load [0x12, 0x34], .write 0x1201 9]
      (Machine.new (Script.ofEvents []))
  have loaded := (loads [0x12, 0x34] _).2 ⟨_, load_of_le _ (by decide), rfl⟩
  obtain ⟨op, fetched, word⟩ := fetches _ _ loaded _ rfl 0 0x12 0x34 rfl rfl rfl
  obtain rfl : op = 0x1234 := UInt16.toNat_inj.1 word
  exact ⟨(reads 0x201 0x34).2 ⟨by decide, by decide⟩, _, loaded, fetched⟩

end Memory

end Chip8
