import Chip8.Machine.Execute
import Chip8.Moment

/-!
# Running a machine

* `Renderer`: shows a screen and remembers what it needs for the next one.
* `Status`: a run goes on, or it has ended with a quit or a fault.
* `Session`: a run so far, with its machine and its renderer.
* `Session.cycle`: one instruction, one frame, one poll of the host, in that order.
* `cycle_of_error`, `cycle_of_unshown`, `cycle_of_shown`: the three ways in which a cycle goes.
* `Session.cycles`: several of them, up to the end of the run.
* `Machine.run`: a run from its start. A quit that an earlier run has seen is forgotten.
* `cycles_of_ended`, `cycles_add`: an ended run stays as it is, and cycles add up.
* `run_succ_of_running`, `run_succ_of_ended`: a run cycle by cycle.
-/

namespace Chip8

/-- Shows a screen. -/
abbrev Renderer (ρ : Type) := Screen → ρ → EStateM.Result Fault ρ Unit

/-- How a run stands. -/
inductive Status
  /-- it goes on -/
  | running
  /-- the host asked to quit -/
  | quit
  /-- an instruction or the renderer failed -/
  | failed (fault : Fault)
  deriving DecidableEq, Repr

/-- A run so far. -/
structure Session (σ ρ : Type) where
  status : Status
  machine : Machine σ
  renderer : ρ

namespace Machine

variable {σ : Type}

/-- One instruction at a moment: the ticks go by first. -/
def stepAt [EventSource σ] (m : Machine σ) (moment : Moment) : Outcome σ Unit :=
  (m.elapse moment.ticks).step moment.byte

/-- Takes the pending events, and tells whether a quit was among them. -/
def poll [EventSource σ] (m : Machine σ) : Bool × Machine σ :=
  let (quit, keypad) := m.keypad.poll
  (quit, { m with keypad })

end Machine

namespace Session

variable {σ ρ : Type} [EventSource σ]

/-- One instruction, one frame and one poll. A failed instruction is not shown, and after a failed
frame the host is not polled. -/
def cycle (render : Renderer ρ) (moment : Moment) (m : Machine σ) (r : ρ) : Session σ ρ :=
  match m.stepAt moment with
  | .error fault m => ⟨.failed fault, m, r⟩
  | .ok () m =>
    match render m.screen r with
    | .error fault r => ⟨.failed fault, m, r⟩
    | .ok () r =>
      let (quit, m) := m.poll
      ⟨if m.quit || quit then .quit else .running, m, r⟩

section

variable {render : Renderer ρ} {moment : Moment} {m m' : Machine σ} {r r' : ρ} {fault : Fault}

theorem cycle_of_error (h : m.stepAt moment = .error fault m') :
    cycle render moment m r = ⟨.failed fault, m', r⟩ := by
  rw [cycle, h]

theorem cycle_of_unshown (h : m.stepAt moment = .ok () m')
    (hr : render m'.screen r = .error fault r') :
    cycle render moment m r = ⟨.failed fault, m', r'⟩ := by
  rw [cycle, h]
  simp only [hr]

theorem cycle_of_shown (h : m.stepAt moment = .ok () m') (hr : render m'.screen r = .ok () r') :
    cycle render moment m r =
      ⟨if m'.quit || m'.poll.1 then .quit else .running, m'.poll.2, r'⟩ := by
  rw [cycle, h]
  simp only [hr]
  rfl

end

/-- Up to `count` cycles, the first of them at the `k`-th moment. -/
def cycles (render : Renderer ρ) (moments : Nat → Moment) (k : Nat) :
    (count : Nat) → Session σ ρ → Session σ ρ
  | 0, s => s
  | count + 1, s =>
    match s.status with
    | .running => cycles render moments (k + 1) count (cycle render (moments k) s.machine s.renderer)
    | _ => s

theorem cycles_of_ended (render : Renderer ρ) (moments : Nat → Moment) (k count : Nat)
    {s : Session σ ρ} (h : s.status ≠ .running) : cycles render moments k count s = s := by
  cases count with
  | zero => rfl
  | succ count => unfold cycles; split <;> first | contradiction | rfl

/-- Cycles add up. -/
theorem cycles_add (render : Renderer ρ) (moments : Nat → Moment) (k j count : Nat)
    (s : Session σ ρ) :
    cycles render moments k (j + count) s =
      cycles render moments (k + j) count (cycles render moments k j s) := by
  induction j generalizing k s with
  | zero => rw [Nat.zero_add]; rfl
  | succ j ih =>
    by_cases h : s.status = .running
    · rw [Nat.succ_add, cycles, cycles, h]
      simp only [ih, Nat.succ_add_eq_add_succ]
    · rw [cycles_of_ended _ _ _ _ h, cycles_of_ended _ _ _ _ h, cycles_of_ended _ _ _ _ h]

end Session

/-- A run of at most `count` cycles. -/
def Machine.run {σ ρ : Type} [EventSource σ] (m : Machine σ) (render : Renderer ρ) (r : ρ)
    (moments : Nat → Moment) (count : Nat) : Session σ ρ :=
  Session.cycles render moments 0 count ⟨.running, { m with quit := false }, r⟩

section

variable {σ ρ : Type} [EventSource σ] {m : Machine σ} {render : Renderer ρ} {r : ρ}
  {moments : Nat → Moment} {count : Nat}

/-- A run that goes on takes another cycle. -/
theorem Machine.run_succ_of_running (h : (m.run render r moments count).status = .running) :
    m.run render r moments (count + 1) =
      Session.cycle render (moments count) (m.run render r moments count).machine
        (m.run render r moments count).renderer := by
  rw [run, Session.cycles_add, Nat.zero_add]
  change Session.cycles render moments count 1 (m.run render r moments count) = _
  rw [Session.cycles, h]
  rfl

/-- A run that has ended takes no further cycle. -/
theorem Machine.run_succ_of_ended (h : (m.run render r moments count).status ≠ .running) :
    m.run render r moments (count + 1) = m.run render r moments count := by
  rw [run, Session.cycles_add, Nat.zero_add]
  exact Session.cycles_of_ended _ _ _ _ h

end

end Chip8
