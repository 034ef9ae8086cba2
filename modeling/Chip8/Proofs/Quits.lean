import Chip8.EventSource.Log
import Chip8.Proofs.Footprint
import Chip8.Proofs.Runs

/-!
# Runs and quits

* `Machine.logged`: the machine on a host that keeps a log; `Machine.taken`, the events in the log.
* `Tie.Polls`: tied keypads are polled alike; **`session_agree`**: machines that agree run alike.
* `session_logged`: a run does the same with a log and without.
* `Machine.Waited`, `waited_of_stepAt`: what a step takes from the host, and when it is seen to quit.
* `ended_iff`: a cycle ends a run just if a quit was taken in it.
* `Setting.Quiet`: steps and frames that succeed and take no quit.
* **`running_iff`**, **`quits_iff`**: when a run goes on, and when it ends with a quit.
* `reports_of_quit`, `session_forgets`: the last poll, and the quit flag that a run finds.
* **`run_quits`**: all of this together.
-/

namespace Chip8

variable {σ ρ : Type} [EventSource σ]

/-! ## Logged machines -/

/-- The same machine on a host that keeps a log. -/
def Machine.logged (m : Machine σ) : Machine (Logged σ) :=
  { m with keypad := ⟨m.keypad.held, ⟨[], m.keypad.host⟩⟩ }

/-- The events that were taken from the host. -/
def Machine.taken (m : Machine (Logged σ)) : List Event := m.keypad.host.log

/-- All is equal but for the log. -/
def Tie.butLog : Tie (Logged σ) σ :=
  ⟨Eq, fun k k' => k.held = k'.held ∧ k.host.host = k'.host, Eq⟩

theorem Tie.keys_butLog : (butLog : Tie (Logged σ) σ).Keys where
  held h := h.1
  await {k k'} h := by
    obtain ⟨held, log, host⟩ := k
    obtain ⟨rfl, rfl⟩ := h
    rw [Keypad.awaitKey, Keypad.awaitKey, EventSource.awaitPress_logged]
    exact ⟨rfl, rfl, rfl⟩
  quit := rfl

namespace Machine

variable {m m' : Machine (Logged σ)} {n : Machine σ}

omit [EventSource σ] in
theorem agree_logged (n : Machine σ) : n.logged.Agree .butLog n :=
  ⟨rfl, rfl, rfl, rfl, rfl, rfl, rfl, ⟨rfl, rfl⟩, rfl⟩

omit [EventSource σ] in
theorem Agree.taken {m' : Machine (Logged σ)} (h : m.Agree .butQuit m') : m.taken = m'.taken :=
  congrArg (fun keypad : Keypad (Logged σ) => keypad.host.log) h.keypad

theorem taken_poll (m : Machine (Logged σ)) :
    ∃ drained, m.poll.2.taken = m.taken ++ drained ∧ m.poll.1 = drained.contains .quit := by
  refine ⟨(EventSource.drain m.keypad.host.host).1, ?_, ?_⟩
  · simp only [poll, Keypad.poll, taken, EventSource.drain_logged]
  · simp only [poll, Keypad.poll, EventSource.drain_logged]

end Machine

/-! ## Runs side by side -/

/-- The same status and renderer, and machines that agree. -/
structure Session.Agree {τ : Type} (t : Tie σ τ) (s : Session σ ρ) (s' : Session τ ρ) : Prop where
  status : s.status = s'.status
  machine : s.machine.Agree t s'.machine
  renderer : s.renderer = s'.renderer

/-- Tied keypads report a quit in the same polls, and tied quit flags are equal. -/
structure Tie.Polls {τ : Type} [EventSource τ] (t : Tie σ τ) : Prop where
  poll : ∀ {k k'}, t.keypad k k' → k.poll.1 = k'.poll.1 ∧ t.keypad k.poll.2 k'.poll.2
  quit : ∀ {b c}, t.quit b c ↔ b = c

section

variable {τ : Type} [EventSource τ] {t : Tie σ τ} {m : Machine σ} {n : Machine τ}

theorem Machine.Agree.polls (polls : t.Polls) (h : m.Agree t n) :
    m.poll.1 = n.poll.1 ∧ m.poll.2.Agree t n.poll.2 := by
  obtain ⟨quit, keypad⟩ := polls.poll h.keypad
  exact ⟨quit, { h with keypad := keypad }⟩

/-- A cycle on machines that agree. -/
theorem cycle_agree (calls : t.Stacks) (keys : t.Keys) (polls : t.Polls) (render : Renderer ρ)
    (moment : Moment) (h : m.Agree t n) (r : ρ) :
    Session.Agree t (Session.cycle render moment m r) (Session.cycle render moment n r) := by
  have steps := Machine.stepAt_agree calls (fun _ _ _ => keys) h moment
  cases hm : m.stepAt moment with
  | error fault m' =>
    obtain ⟨n', hn, same⟩ := Machine.error_of_agree steps hm
    rw [Session.cycle_of_error hm, Session.cycle_of_error hn]
    exact ⟨rfl, same, rfl⟩
  | ok _ m' =>
    obtain ⟨n', hn, same⟩ := Machine.ok_of_agree steps hm
    cases hr : render m'.screen r with
    | error fault r' =>
      rw [Session.cycle_of_unshown hm hr, Session.cycle_of_unshown hn (same.screen ▸ hr)]
      exact ⟨rfl, same, rfl⟩
    | ok _ r' =>
      have quit : m'.quit = n'.quit := polls.quit.1 same.quit
      obtain ⟨polled, same'⟩ := same.polls polls
      rw [Session.cycle_of_shown hm hr, Session.cycle_of_shown hn (same.screen ▸ hr), polled, quit]
      exact ⟨rfl, same', rfl⟩

/-- **A run on machines that agree.** The quit flags that the run finds do not matter. -/
theorem Setting.session_agree (calls : t.Stacks) (keys : t.Keys) (polls : t.Polls) (c : Setting ρ)
    (h : Machine.Agree t { m with quit := false } { n with quit := false }) (count : Nat) :
    Session.Agree t (c.session m count) (c.session n count) := by
  refine session_induction (r := Session.Agree t) ⟨rfl, h, rfl⟩ Session.Agree.status ?_
  intro k _ _ same
  rw [same.renderer]
  exact cycle_agree calls keys polls c.render (c.moments k) same.machine _

end

theorem Tie.polls_butLog : (butLog : Tie (Logged σ) σ).Polls where
  poll {k k'} h := by
    obtain ⟨held, log, host⟩ := k
    obtain ⟨rfl, rfl⟩ := h
    rw [Keypad.poll, Keypad.poll, EventSource.drain_logged]
    exact ⟨rfl, rfl, rfl⟩
  quit := Iff.rfl

/-- **A log changes nothing.** -/
theorem Setting.session_logged (c : Setting ρ) (m : Machine σ) (count : Nat) :
    Session.Agree .butLog (c.session m.logged count) (c.session m count) :=
  c.session_agree (Tie.stacks_of_eq _ rfl) Tie.keys_butLog Tie.polls_butLog
    { m.agree_logged with quit := rfl } count

/-! ## What a step takes from the host -/

/-- A wait takes a quit just if it ends without a key. -/
theorem Keypad.awaitKey_logged (k : Keypad (Logged σ)) :
    ∃ events, k.awaitKey.2.host.log = k.host.log ++ events ∧
      events.contains .quit = k.awaitKey.1.isNone := by
  have early : Event.quit ∉ (EventSource.awaitPress k.host.host).1 := by
    intro mem
    cases EventSource.endsWait_of_passed mem
  have ends := EventSource.endsWait_awaitPress k.host.host
  refine ⟨(EventSource.awaitPress k.host.host).1 ++ [(EventSource.awaitPress k.host.host).2.1],
    ?_, ?_⟩
  · simp only [awaitKey, EventSource.awaitPress_logged, List.append_assoc]
  · simp only [awaitKey, EventSource.awaitPress_logged]
    generalize (EventSource.awaitPress k.host.host).2.1 = last at ends
    cases last with
    | quit => simp [Event.pressed?]
    | keyDown key =>
      have pressed : (Event.keyDown key).pressed?.isSome = true := by simpa [Event.endsWait] using ends
      simp [early, Option.isNone_eq_false_iff.2 pressed]
    | keyUp key => simp [Event.endsWait, Event.pressed?] at ends

/-- What a step takes from the host: events only if it waits for a key, and a quit just if it raises
the quit flag. -/
structure Machine.Waited (m : Machine (Logged σ)) (events : List Event) (m' : Machine (Logged σ)) :
    Prop where
  taken : m'.taken = m.taken ++ events
  quit : m'.quit = (m.quit || events.contains .quit)
  asks : events ≠ [] → ∃ op, m.Reads op ∧ op.Is 0xF 0x0A

namespace Machine

variable {m m' : Machine (Logged σ)}

theorem waited_of_perform {op : Opcode} {byte : UInt8} {target : Advance} (word : m.Reads op)
    (h : m.perform op byte (Instruction.decode op) = .ok target m') :
    ∃ events, m.Waited events m' := by
  rcases keypad_of_perform h with ⟨keypad, quit⟩ | ⟨is, keypad, quit⟩
  · refine ⟨[], ?_, ?_, fun h => absurd rfl h⟩
    · rw [taken, keypad, List.append_nil]
      rfl
    · rw [quit]
      simp
  · obtain ⟨events, taken, ends⟩ := m.keypad.awaitKey_logged
    refine ⟨events, ?_, ?_, fun _ => ⟨op, word, is⟩⟩
    · rw [Machine.taken, keypad]
      exact taken
    · rw [quit, ends]

/-- **What a step takes from the host.** -/
theorem waited_of_stepAt {moment : Moment} (h : m.stepAt moment = .ok () m') :
    ∃ events, m.Waited events m' := by
  obtain ⟨op, target, n, hf, done, rfl⟩ := perform_of_step h
  obtain ⟨events, waited⟩ := waited_of_perform (fetch_eq_ok_iff.1 hf) done
  refine ⟨events, ?_, ?_, waited.asks⟩
  · cases target <;> exact waited.taken
  · cases target <;> exact waited.quit

theorem ended_iff (still : m.quit = false) (none : .quit ∉ m.taken) {moment : Moment}
    (h : m.stepAt moment = .ok () m') :
    (m'.quit || m'.poll.1) = true ↔ .quit ∈ m'.poll.2.taken := by
  obtain ⟨waited, step⟩ := waited_of_stepAt h
  obtain ⟨drained, taken, polled⟩ := m'.taken_poll
  rw [step.quit, polled, taken, step.taken, still]
  simp [none]

end Machine

/-! ## When a run ends with a quit -/

namespace Setting

/-- The first `k` steps succeed, with a poll after each, and so do their frames. No quit is among the
events that they take. -/
structure Quiet (c : Setting ρ) (m : Machine (Logged σ)) (k : Nat) (n : Machine (Logged σ)) (r : ρ) :
    Prop where
  steps : m.follow (c.rounds k) = .ok () n
  frames : showAll c.render (m.screens (c.rounds k)) c.start = .ok () r
  quiet : .quit ∉ n.taken

section

variable {c : Setting ρ} {m : Machine (Logged σ)} {k : Nat}

/-- As long as a run goes on no quit was taken. -/
theorem quiet_of_running (none : .quit ∉ m.taken) (goes : (c.session m k).status = .running) :
    (c.session m k).machine.quit = false ∧ .quit ∉ (c.session m k).machine.taken := by
  induction k with
  | zero => exact ⟨rfl, none⟩
  | succ k ih =>
    have before : (c.session m k).status = .running := by
      by_contra ended
      have same : c.session m (k + 1) = c.session m k := Machine.run_succ_of_ended ended
      exact ended (same ▸ goes)
    obtain ⟨still, quiet⟩ := ih before
    obtain ⟨m', r, hs, hr, eq⟩ := shown_succ before (.inl goes)
    rw [eq] at goes ⊢
    have unseen : ¬ (m'.quit || m'.poll.1) = true := by
      intro seen
      rw [if_pos seen] at goes
      cases goes
    refine ⟨?_, (Machine.ended_iff still quiet hs).not.1 unseen⟩
    rw [Bool.not_eq_true, Bool.or_eq_false_iff] at unseen
    exact unseen.1

theorem quiet_session (none : .quit ∉ m.taken) (goes : (c.session m k).status = .running) :
    ∃ n, c.Quiet m k n (c.session m k).renderer ∧ (c.session m k).machine.Agree .butQuit n := by
  have full := full_of_running goes
  obtain ⟨n, followed, same⟩ := full.machine
  exact ⟨n, ⟨followed, full.shown, same.taken ▸ (quiet_of_running none goes).2⟩, same⟩

variable {n n' : Machine (Logged σ)} {r r' : ρ}

theorem Quiet.unique {n₀ : Machine (Logged σ)} {r₀ : ρ} (h : c.Quiet m k n r)
    (h' : c.Quiet m k n₀ r₀) : n₀ = n ∧ r₀ = r := by
  have steps := h.steps
  have frames := h.frames
  rw [h'.steps] at steps
  rw [h'.frames] at frames
  cases steps
  cases frames
  exact ⟨rfl, rfl⟩

theorem status_succ (none : .quit ∉ m.taken) (goes : (c.session m k).status = .running)
    (before : c.Quiet m k n r) (hs : n.stepAt (c.moments k) = .ok () n')
    (hr : c.render n'.screen r = .ok () r') :
    (c.session m (k + 1)).status = if .quit ∈ n'.poll.2.taken then .quit else .running := by
  obtain ⟨n₀, quiet₀, same⟩ := quiet_session none goes
  obtain ⟨rfl, rfl⟩ := before.unique quiet₀
  obtain ⟨m', hm, same'⟩ := Machine.ok_of_agree_right (stepAt_session same) hs
  have next : c.session m (k + 1) = _ :=
    (Machine.run_succ_of_running goes).trans (Session.cycle_of_shown hm (same'.screen ▸ hr))
  obtain ⟨still, quiet⟩ := quiet_of_running none goes
  rw [next, ← same'.poll.taken]
  simp only [Machine.ended_iff still quiet hm]

theorem not_mem_taken_of_turn {moment : Moment} (hs : n.stepAt moment = .ok () n')
    (quiet : .quit ∉ n'.poll.2.taken) : .quit ∉ n.taken := by
  obtain ⟨waited, step⟩ := Machine.waited_of_stepAt hs
  obtain ⟨drained, taken, polled⟩ := n'.taken_poll
  rw [taken, step.taken] at quiet
  exact fun mem => quiet (List.mem_append_left _ (List.mem_append_left _ mem))

theorem Quiet.pred (h : c.Quiet m (k + 1) n' r') :
    ∃ n n₁ r, c.Quiet m k n r ∧ n.stepAt (c.moments k) = .ok () n₁ ∧
      c.render n₁.screen r = .ok () r' ∧ n' = n₁.poll.2 := by
  obtain ⟨steps, frames, quiet⟩ := h
  rw [rounds_succ] at steps frames
  obtain ⟨n, n₁, before, hs, rfl⟩ := Machine.stepAt_of_follow_concat steps
  rw [Machine.screens_concat _ before hs] at frames
  obtain ⟨r, shown, hr⟩ := showAll_of_concat frames
  exact ⟨n, n₁, r, ⟨before, shown, not_mem_taken_of_turn hs quiet⟩, hs, hr, rfl⟩

theorem Quiet.running (none : .quit ∉ m.taken) (h : c.Quiet m k n r) :
    (c.session m k).status = .running := by
  induction k generalizing n r with
  | zero => rfl
  | succ k ih =>
    -- the cycles before the last are quiet too, so the run gets to the last
    obtain ⟨n₀, n₁, r₀, before, hs, hr, rfl⟩ := h.pred
    rw [status_succ none (ih before) before hs hr]
    exact if_neg h.quiet

end

variable (c : Setting ρ) (m : Machine σ) (k : Nat)

/-- **When a run goes on.** All steps and frames have succeeded, and no quit was taken. -/
theorem running_iff : (c.session m k).status = .running ↔ ∃ n r, c.Quiet m.logged k n r := by
  have none : Event.quit ∉ m.logged.taken := List.not_mem_nil
  rw [← (session_logged c m k).status]
  constructor
  · intro goes
    obtain ⟨n, quiet, same⟩ := quiet_session none goes
    exact ⟨n, _, quiet⟩
  · rintro ⟨n, r, quiet⟩
    exact quiet.running none

/-- **When a run ends with a quit.** All steps and frames have succeeded, no quit was taken before
the last step, and one was taken by that step or by the poll after it. -/
theorem quits_iff : (c.session m k).status = .running ∧ (c.session m (k + 1)).status = .quit ↔
    ∃ n n' r r' waited drained, c.Quiet m.logged k n r ∧ n.stepAt (c.moments k) = .ok () n' ∧
      c.render n'.screen r = .ok () r' ∧ n'.taken = n.taken ++ waited ∧
      n'.poll.2.taken = n'.taken ++ drained ∧ (.quit ∈ waited ∨ .quit ∈ drained) := by
  have none : Event.quit ∉ m.logged.taken := List.not_mem_nil
  rw [← (session_logged c m k).status, ← (session_logged c m (k + 1)).status]
  constructor
  · rintro ⟨goes, ends⟩
    obtain ⟨n, before, same⟩ := quiet_session none goes
    obtain ⟨m', r', hs, hr, eq⟩ := shown_succ goes (.inr ends)
    obtain ⟨n', hn, same'⟩ := Machine.ok_of_agree (stepAt_session same) hs
    rw [same'.screen] at hr
    obtain ⟨waited, step⟩ := Machine.waited_of_stepAt hn
    obtain ⟨drained, taken, polled⟩ := n'.taken_poll
    refine ⟨n, n', _, r', waited, drained, before, hn, hr, step.taken, taken, ?_⟩
    have mem : .quit ∈ n'.poll.2.taken := by
      by_contra unseen
      rw [status_succ none goes before hn hr, if_neg unseen] at ends
      cases ends
    rw [taken, step.taken, List.append_assoc, List.mem_append, List.mem_append] at mem
    exact mem.resolve_left before.quiet
  · rintro ⟨n, n', r, r', waited, drained, before, hs, hr, taken, taken', mem⟩
    have goes := before.running none
    refine ⟨goes, ?_⟩
    rw [status_succ none goes before hs hr]
    refine if_pos ?_
    rw [taken', taken, List.append_assoc, List.mem_append, List.mem_append]
    exact .inr mem

variable {c m k}

/-- The last poll of a run that ends with a quit takes all that is pending. -/
theorem reports_of_quit (goes : (c.session m k).status = .running)
    (ends : (c.session m (k + 1)).status = .quit) :
    ∃ m' events, (c.session m k).machine.stepAt (c.moments k) = .ok () m' ∧
      EventSource.Reports m'.keypad.host events (c.session m (k + 1)).machine.keypad.host ∧
      (c.session m (k + 1)).machine.keypad.held = m'.keypad.held.after events := by
  obtain ⟨m', r, hs, hr, eq⟩ := shown_succ goes (.inr ends)
  rw [eq]
  exact ⟨m', (EventSource.drain m'.keypad.host).1, hs, EventSource.reports_drain _, rfl⟩

theorem session_forgets (c : Setting ρ) (m : Machine σ) (quit : Bool) (count : Nat) :
    c.session { m with quit } count = c.session m count := rfl

end Setting

/-- **Runs and quits.** No quit is lost, late or made up: a run goes on over steps and frames that
succeed as long as no quit is taken, and ends with a quit in the cycle in which one is. A frame that
fails hides a quit for good, and the last poll of a run that ends with a quit takes all that is
pending. -/
theorem run_quits (c : Setting ρ) (m : Machine σ) (k : Nat) :
    ((c.session m k).status = .running ↔ ∃ n r, c.Quiet m.logged k n r) ∧
    ((c.session m k).status = .running ∧ (c.session m (k + 1)).status = .quit ↔
      ∃ n n' r r' waited drained, c.Quiet m.logged k n r ∧ n.stepAt (c.moments k) = .ok () n' ∧
        c.render n'.screen r = .ok () r' ∧ n'.taken = n.taken ++ waited ∧
        n'.poll.2.taken = n'.taken ++ drained ∧ (.quit ∈ waited ∨ .quit ∈ drained)) ∧
    (Session.Agree .butLog (c.session m.logged k) (c.session m k) ∧
      ((c.session m k).status = .running → .quit ∉ (c.session m.logged k).machine.taken)) ∧
    (∀ (n n' : Machine (Logged σ)) moment, n.stepAt moment = .ok () n' →
      ∃ waited, n.Waited waited n') ∧
    (∀ m' fault r, (c.session m k).status = .running →
      (c.session m k).machine.stepAt (c.moments k) = .ok () m' →
      c.render m'.screen (c.session m k).renderer = .error fault r →
      c.session m (k + 1) = ⟨.failed fault, m', r⟩ ∧
        ∀ {ρ' : Type} (c' : Setting ρ') quit count,
          c'.session { m' with quit } count = c'.session m' count) ∧
    ((c.session m k).status = .running → (c.session m (k + 1)).status = .quit →
      ∃ m' events, (c.session m k).machine.stepAt (c.moments k) = .ok () m' ∧
        EventSource.Reports m'.keypad.host events (c.session m (k + 1)).machine.keypad.host ∧
        (c.session m (k + 1)).machine.keypad.held = m'.keypad.held.after events) := by
  have logged := Setting.session_logged c m k
  refine ⟨Setting.running_iff c m k, Setting.quits_iff c m k, ⟨logged, ?_⟩,
    fun n n' moment hs => Machine.waited_of_stepAt hs, ?_, Setting.reports_of_quit⟩
  · intro goes
    exact (Setting.quiet_of_running List.not_mem_nil (logged.status.trans goes)).2
  · intro m' fault r goes hs hr
    exact ⟨Setting.session_of_unshown goes hs hr,
      fun c' quit count => Setting.session_forgets c' m' quit count⟩

end Chip8
