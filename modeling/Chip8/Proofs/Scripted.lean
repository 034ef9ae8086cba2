import Chip8.Proofs.Footprint
import Chip8.Proofs.Reached
import Chip8.Proofs.Waiting

/-!
# Runs on a script without pauses

* `Keypad.poll_ofEvents`, `Keypad.awaitKey_ofEvents`: a poll takes all that is left of such a script, and
  a wait for a key leaves such a script.
* `keypad_of_stepAt`: what a step does with the keypad.
* `scripted_of_stepAt`: after a step a quit of the script is still to come, or it has raised the flag.
* `keypad_left_of_spent`, `keypad_session_succ`: without events to come the keypad stays as it is.
* `spent_session`: a run that goes on has used up the script in its first cycle.
* `stepAt_of_awaitKey`: without events to come a wait for a key gives none and asks to quit.
* **`keys_reach_first`**: only the first instruction of a run can be given a key.
-/

namespace Chip8

variable {ρ : Type}

/-! ## Scripts without pauses -/

namespace Script

theorem drain_ofEvents (events : List Event) :
    EventSource.drain (ofEvents events) = (events, ofEvents []) := by
  induction events with
  | nil => exact EventSource.drain_of_none rfl
  | cons e events ih =>
    have first : EventSource.poll (ofEvents (e :: events)) = (some e, ofEvents events) := rfl
    rw [EventSource.drain_of_some first, ih]

theorem eq_ofEvents_of_behind {events : List Event} {t : Script} (h : (ofEvents events).Behind t) :
    t = ofEvents t.events := by
  obtain ⟨gone, first, eq, -⟩ := h
  -- there is but one chunk
  have length := congrArg List.length eq
  rw [List.length_append, List.length_cons] at length
  have one : (ofEvents events).chunks.length = 1 := rfl
  have none : t.later = [] := List.eq_nil_of_length_eq_zero (by omega)
  obtain ⟨current, later⟩ := t
  subst none
  rw [Script.events, List.flatten_nil, List.append_nil]
  rfl

end Script

namespace Keypad

theorem poll_ofEvents (held : Held) (events : List Event) :
    (Keypad.mk held (Script.ofEvents events)).poll =
      (events.contains .quit, ⟨held.after events, Script.ofEvents []⟩) := by
  rw [poll, Script.drain_ofEvents]

/-- A wait for a key that goes past a quit has given a key; so a quit that it has not left gives none. -/
theorem awaitKey_ofEvents (held : Held) (events : List Event) : ∃ key? held' rest,
    (Keypad.mk held (Script.ofEvents events)).awaitKey = (key?, ⟨held', Script.ofEvents rest⟩) ∧
      (.quit ∈ events → key? = none ∨ .quit ∈ rest) := by
  obtain ⟨passed, last, key?, rest, cut⟩ := Event.exists_cut events
  rw [← Script.events_ofEvents events] at cut
  obtain ⟨t, waits, behind, left⟩ := Script.waits_of_cut cut
  rw [Script.eq_ofEvents_of_behind behind, left] at waits
  refine ⟨last.pressed?, _, rest, awaitKey_of_waits waits held, ?_⟩
  rw [Script.events_ofEvents] at cut
  intro mem
  cases cut with
  | press quiet named =>
    rcases List.mem_append.1 mem with mem | mem
    · exact absurd rfl (quiet _ mem).1
    · exact .inr ((List.mem_cons.1 mem).resolve_left nofun)
  | quit quiet => exact .inl rfl
  | spent quiet => exact .inl rfl

end Keypad

namespace Machine

/-! ## Steps -/

theorem keypad_of_stepAt {σ : Type} [EventSource σ] {m m' : Machine σ} {moment : Moment}
    (h : m.stepAt moment = .ok () m') :
    (m'.keypad = m.keypad ∧ m'.quit = m.quit) ∨ (m'.keypad = m.keypad.awaitKey.2 ∧
      m'.quit = (m.quit || m.keypad.awaitKey.1.isNone)) := by
  obtain ⟨op, target, n, -, done, rfl⟩ := perform_of_step h
  have keypad := keypad_of_perform done
  cases target <;> exact keypad.imp_right And.right

variable {m m' : Machine Script} {events : List Event} {moment : Moment}

theorem scripted_of_stepAt (script : m.keypad.host = .ofEvents events)
    (h : m.stepAt moment = .ok () m') : ∃ rest, m'.keypad.host = .ofEvents rest ∧
      (.quit ∈ events → m'.quit = true ∨ .quit ∈ rest) := by
  rcases keypad_of_stepAt h with ⟨keypad, -⟩ | ⟨keypad, quit⟩
  · exact ⟨events, by rw [keypad, script], .inr⟩
  · obtain ⟨key?, held', rest, waited, left⟩ := Keypad.awaitKey_ofEvents m.keypad.held events
    rw [← script] at waited
    rw [waited] at keypad quit
    refine ⟨rest, by rw [keypad], fun mem => ?_⟩
    rcases left mem with rfl | mem
    · exact .inl (quit.trans (Bool.or_true _))
    · exact .inr mem

theorem poll_of_scripted (script : m.keypad.host = .ofEvents events) :
    m.poll.1 = events.contains .quit ∧ m.poll.2.keypad = ⟨m.keypad.held.after events, .ofEvents []⟩ := by
  have polled := Keypad.poll_ofEvents m.keypad.held events
  rw [← script] at polled
  simp only [poll, polled]
  exact ⟨trivial, trivial⟩

/-! ## Without events to come -/

theorem awaitKey_of_spent {k : Keypad Script} (spent : k.host = .ofEvents []) :
    k.awaitKey = (none, k) := by
  have waits : EventSource.Waits (Script.ofEvents []) [] .quit (Script.ofEvents []) := .ends rfl rfl
  rw [← spent] at waits
  exact Keypad.awaitKey_of_waits waits k.held

theorem keypad_left_of_spent (spent : m.keypad.host = .ofEvents []) (moment : Moment) :
    (m.stepAt moment).left.keypad = m.keypad := by
  cases hs : m.stepAt moment with
  | ok _ m' =>
    rcases keypad_of_stepAt hs with ⟨keypad, -⟩ | ⟨keypad, -⟩
    · exact keypad
    · rw [awaitKey_of_spent spent] at keypad
      exact keypad
  | error fault m' => exact (spared_of_stepAt hs).keypad

theorem keypad_poll_of_spent (spent : m.keypad.host = .ofEvents []) :
    m.poll.2.keypad = m.keypad := by
  rw [(poll_of_scripted spent).2, ← spent]
  rfl

/-- A wait for a key gives none and asks to quit. -/
theorem stepAt_of_awaitKey {op : Opcode} (spent : m.keypad.host = .ofEvents []) (word : m.Reads op)
    (is : op.Is 0xF 0x0A) (moment : Moment) : ∃ m', m.stepAt moment = .ok () m' ∧ m'.v = m.v ∧
      m'.pc.toNat = m.pc.toNat + 2 ∧ m'.quit = true := by
  have done : (m.elapse moment.ticks).perform op moment.byte .awaitKey = .ok .next
      { m.elapse moment.ticks with quit := true } := by
    simp only [perform, elapse, awaitKey_of_spent spent]
  exact ⟨_, stepAt_of_selects word moment done is (by decide), rfl, word.toNat_next, rfl⟩

end Machine

/-! ## Runs -/

namespace Setting

variable {c : Setting ρ} {m : Machine Script} {events : List Event} {k : Nat}

theorem spent_first (script : m.keypad.host = .ofEvents events) {m' : Machine Script} {r : ρ}
    (hs : (c.session m 0).machine.stepAt (c.moments 0) = .ok () m')
    (hr : c.render m'.screen c.start = .ok () r) :
    (c.session m 1).machine.keypad.host = .ofEvents [] ∧
      (.quit ∈ events → (c.session m 1).status = .quit) := by
  have first : c.session m 1 = _ :=
    (Machine.run_succ_of_running rfl).trans (Session.cycle_of_shown hs hr)
  have script : (c.session m 0).machine.keypad.host = .ofEvents events := script
  obtain ⟨rest, host, left⟩ := Machine.scripted_of_stepAt script hs
  obtain ⟨polled, keypad⟩ := Machine.poll_of_scripted host
  rw [first, polled, keypad]
  refine ⟨rfl, fun mem => if_pos ?_⟩
  rcases left mem with raised | mem
  · exact Bool.or_eq_true_iff.2 (.inl raised)
  · exact Bool.or_eq_true_iff.2 (.inr (List.contains_iff_mem.2 mem))

theorem keypad_session_succ (spent : (c.session m k).machine.keypad.host = .ofEvents [])
    (goes : (c.session m k).status = .running) :
    (c.session m (k + 1)).machine.keypad = (c.session m k).machine.keypad := by
  have left := Machine.keypad_left_of_spent spent (c.moments k)
  rcases session_succ goes with ⟨fault, m', hs, eq⟩ | ⟨m', hs, ⟨fault, r, hr, eq⟩ | ⟨r, hr, eq⟩⟩
  · rw [hs] at left
    rw [eq]
    exact left
  · rw [hs] at left
    rw [eq]
    exact left
  · rw [hs] at left
    change m'.keypad = _ at left
    rw [eq, ← left]
    exact Machine.keypad_poll_of_spent (left ▸ spent)

theorem running_of_succ (goes : (c.session m (k + 1)).status = .running) :
    (c.session m k).status = .running := by
  by_contra ended
  have same : c.session m (k + 1) = c.session m k := Machine.run_succ_of_ended ended
  exact ended (same ▸ goes)

/-- A run that goes on after its first cycle has used up the script there. -/
theorem spent_session (script : m.keypad.host = .ofEvents events)
    (goes : (c.session m (k + 1)).status = .running) :
    (c.session m (k + 1)).machine.keypad.host = .ofEvents [] ∧
      (c.session m (k + 1)).machine.keypad = (c.session m 1).machine.keypad := by
  induction k with
  | zero =>
    obtain ⟨m', r, hs, hr, -⟩ := shown_succ (running_of_succ goes) (.inl goes)
    exact ⟨(spent_first script hs hr).1, rfl⟩
  | succ k ih =>
    have before := running_of_succ goes
    obtain ⟨spent, same⟩ := ih before
    rw [keypad_session_succ spent before]
    exact ⟨spent, same⟩

/-- **Who can be given a key.** A script without pauses is used up in the first cycle of a run, and a quit in
it ends the run there. After that the keys stay as they are, and a wait for a key gives none, moves on and
ends the run in its cycle, unless its frame fails. So only the first instruction of a run can be given a
key. -/
theorem keys_reach_first (c : Setting ρ) (script : m.keypad.host = .ofEvents events) :
    (∀ m' r, (c.session m 0).machine.stepAt (c.moments 0) = .ok () m' →
      c.render m'.screen c.start = .ok () r → (c.session m 1).machine.keypad.host = .ofEvents [] ∧
        (.quit ∈ events → (c.session m 1).status = .quit ∧
          ∀ count, c.session m (count + 1) = c.session m 1)) ∧
    (∀ k, 1 ≤ k → (c.session m k).status = .running →
      ((c.session m k).machine.stepAt (c.moments k)).left.keypad = (c.session m 1).machine.keypad ∧
      (c.session m (k + 1)).machine.keypad = (c.session m 1).machine.keypad ∧
      ∀ op, (c.session m k).machine.Reads op → op.Is 0xF 0x0A → ∃ m',
        (c.session m k).machine.stepAt (c.moments k) = .ok () m' ∧
          m'.v = (c.session m k).machine.v ∧ m'.pc.toNat = (c.session m k).machine.pc.toNat + 2 ∧
          ∀ r, (c.render m'.screen (c.session m k).renderer = .ok () r →
              (c.session m (k + 1)).status = .quit) ∧
            ∀ fault, c.render m'.screen (c.session m k).renderer = .error fault r →
              (c.session m (k + 1)).status = .failed fault) ∧
    ∀ k key, (c.session m k).status = .running →
      (c.session m k).machine.keypad.awaitKey.1 = some key → k = 0 := by
  refine ⟨fun m' r hs hr => ?_, fun k le goes => ?_, fun k key goes gives => ?_⟩
  · obtain ⟨spent, quits⟩ := spent_first script hs hr
    refine ⟨spent, fun mem => ⟨quits mem, fun count => ?_⟩⟩
    have ended : (c.session m 1).status ≠ .running := by
      rw [quits mem]
      decide
    have last := Session.cycles_add c.render c.moments 0 1 count ⟨.running, { m with quit := false }, c.start⟩
    rw [Nat.add_comm 1 count] at last
    exact last.trans (Session.cycles_of_ended _ _ _ _ ended)
  · obtain ⟨k, rfl⟩ := Nat.exists_eq_add_of_le' le
    obtain ⟨spent, same⟩ := spent_session script goes
    refine ⟨?_, ?_, fun op word is => ?_⟩
    · rw [Machine.keypad_left_of_spent spent, same]
    · rw [keypad_session_succ spent goes, same]
    · obtain ⟨m', hs, v, pc, raised⟩ := Machine.stepAt_of_awaitKey spent word is (c.moments (k + 1))
      refine ⟨m', hs, v, pc, fun r => ⟨fun hr => ?_, fun fault hr => ?_⟩⟩
      · have next : c.session m (k + 1 + 1) = _ :=
          (Machine.run_succ_of_running goes).trans (Session.cycle_of_shown hs hr)
        rw [next]
        exact if_pos (Bool.or_eq_true_iff.2 (.inl raised))
      · rw [session_of_unshown goes hs hr]
  · by_contra later
    obtain ⟨k, rfl⟩ := Nat.exists_eq_succ_of_ne_zero later
    obtain ⟨spent, -⟩ := spent_session script goes
    rw [Machine.awaitKey_of_spent spent] at gives
    cases gives

end Setting

/-- A machine with the press of a key to come. Its second instruction waits for a key. -/
def late : Machine Script :=
  { Machine.new (Script.ofEvents [.keyDown '1']) with
    memory := (Memory.initial.store 0x202 [0xF0, 0x0A]).1 }

/-- The press comes too early for the wait. -/
theorem keys_reach_first_late : (unlit.session late 1).status = .running ∧
    (unlit.session late 1).machine.keypad.held = Held.none.after [.keyDown '1'] ∧
      (unlit.session late 1).machine.Reads 0xF00A ∧ (unlit.session late 2).status = .quit ∧
        ∃ m', (unlit.session late 1).machine.stepAt ⟨0, 0⟩ = .ok () m' ∧ m'.v = .zero := by
  have script : late.keypad.host = .ofEvents [.keyDown '1'] := rfl
  obtain ⟨polled, keypad⟩ := Machine.poll_of_scripted script
  have word : late.Reads 0 := by
    refine ⟨by decide, ?_⟩
    simp only [late, Memory.get_store, Memory.get_initial]
    rfl
  obtain ⟨m', first, memory, pc, v, taken⟩ := unlit.session_of_zero word rfl
  rw [polled] at first
  have goes : (unlit.session late 1).status = .running := congrArg Session.status first
  have pc : m'.pc = 0x202 := pc
  have waits : m'.Reads 0xF00A := by
    refine ⟨by rw [pc]; decide, ?_⟩
    simp only [memory, pc, late, Memory.get_store]
    rfl
  obtain ⟨-, later, -⟩ := unlit.keys_reach_first script
  obtain ⟨-, -, quits⟩ := later 1 (Nat.le_refl 1) goes
  rw [first] at quits
  obtain ⟨n, hn, v', -, shown⟩ := quits 0xF00A waits ⟨by decide, by decide⟩
  rw [first]
  refine ⟨rfl, ?_, waits, (shown ()).1 rfl, n, hn, v'.trans v⟩
  change m'.keypad.held = _
  rw [taken, keypad]
  rfl

end Chip8
