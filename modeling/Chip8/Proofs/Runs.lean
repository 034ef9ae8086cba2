import Chip8.Proofs.Faults
import Chip8.Proofs.Turns

/-!
# Runs and their steps

* `Tie.butQuit`, `Tie.butKeypad`: machines that are equal but for the quit flag, or but for the keypad
  as well.
* `showAll`: screens shown one after the other.
* `Setting`: what a run is given besides the machine.
* `Setting.Full`, `Setting.Unshown`, `Setting.Broken`: what a run has done, told by steps and polls
  alone.
* `session_succ`: how a run takes another cycle; `session_induction`: what the cycles of two runs keep.
* **`stands_session`**: a run stands in one of these ways after any number of cycles.
* `Runs`: runs in a row on one machine; `follow_of_runs`: they carry out one unbroken row of steps.
* `follow_unasked`: without a word that looks at the keypad the polls and the host do not matter.
* **`runs_refine_steps`**: all of this together, and two runs of a machine without a program.
-/

namespace Chip8

variable {σ τ ρ : Type}

/-! ## Ties -/

/-- All but the quit flags is equal. -/
def Tie.butQuit : Tie σ σ := ⟨Eq, Eq, fun _ _ => True⟩

/-- All but the keypads and the quit flags is equal. -/
def Tie.butKeypad : Tie σ τ := ⟨Eq, fun _ _ => True, fun _ _ => True⟩

theorem Tie.keys_butQuit [EventSource σ] : (butQuit : Tie σ σ).Keys where
  held h := congrArg Keypad.held h
  await h := by
    cases h
    exact ⟨rfl, rfl⟩
  quit := trivial

namespace Machine

theorem agree_butQuit (m : Machine σ) (quit : Bool) : m.Agree .butQuit { m with quit } :=
  ⟨rfl, rfl, rfl, rfl, rfl, rfl, rfl, rfl, trivial⟩

theorem Agree.trans_butQuit {m n k : Machine σ} (h : m.Agree .butQuit n) (h' : n.Agree .butQuit k) :
    m.Agree .butQuit k :=
  ⟨h.v.trans h'.v, h.i.trans h'.i, h.pc.trans h'.pc, h.memory.trans h'.memory,
    h.screen.trans h'.screen, h.timer.trans h'.timer, Eq.trans h.stack h'.stack,
    Eq.trans h.keypad h'.keypad, trivial⟩

theorem Agree.trans_butKeypad {m n : Machine σ} {k : Machine τ} (h : m.Agree .butQuit n)
    (h' : n.Agree .butKeypad k) : m.Agree .butKeypad k :=
  ⟨h.v.trans h'.v, h.i.trans h'.i, h.pc.trans h'.pc, h.memory.trans h'.memory,
    h.screen.trans h'.screen, h.timer.trans h'.timer, Eq.trans h.stack h'.stack, trivial, trivial⟩

theorem Agree.poll [EventSource σ] {m n : Machine σ} (h : m.Agree .butQuit n) :
    m.poll.2.Agree .butQuit n.poll.2 :=
  { h with keypad := congrArg (fun k : Keypad σ => k.poll.2) h.keypad }

theorem Agree.pollIf_butKeypad [EventSource σ] [EventSource τ] {m : Machine σ} {k : Machine τ}
    (h : m.Agree .butKeypad k) (polled polled' : Bool) :
    (m.pollIf polled).Agree .butKeypad (k.pollIf polled') := by
  cases polled <;> cases polled' <;> exact { h with keypad := trivial, quit := trivial }

end Machine

theorem Tie.alike_butQuit [EventSource σ] (turn : Turn) : (butQuit : Tie σ σ).Alike turn turn := by
  refine ⟨rfl, fun {m k} h => ?_⟩
  cases turn with
  | mk moment polled =>
    cases polled with
    | false => exact h
    | true => exact h.poll

/-! ## What a run has done -/

/-- Shows screens one after the other, up to the first that fails. -/
def showAll (render : Renderer ρ) : List Screen → ρ → EStateM.Result Fault ρ Unit
  | [], r => .ok () r
  | screen :: screens, r =>
    match render screen r with
    | .ok () r => showAll render screens r
    | .error fault r => .error fault r

theorem showAll_concat {render : Renderer ρ} {screens : List Screen} {screen : Screen} {r r' r'' : ρ}
    (h : showAll render screens r = .ok () r') (hr : render screen r' = .ok () r'') :
    showAll render (screens ++ [screen]) r = .ok () r'' := by
  induction screens generalizing r with
  | nil =>
    cases h
    rw [List.nil_append, showAll, hr]
    rfl
  | cons first screens ih =>
    rw [showAll] at h
    split at h
    · next r₁ shown =>
      rw [List.cons_append, showAll, shown]
      exact ih h
    · cases h

theorem showAll_of_concat {render : Renderer ρ} {screens : List Screen} {screen : Screen} {r r'' : ρ}
    (h : showAll render (screens ++ [screen]) r = .ok () r'') :
    ∃ r', showAll render screens r = .ok () r' ∧ render screen r' = .ok () r'' := by
  induction screens generalizing r with
  | nil =>
    rw [List.nil_append, showAll] at h
    split at h
    · next r₁ shown =>
      cases h
      exact ⟨r, rfl, shown⟩
    · cases h
  | cons first screens ih =>
    rw [List.cons_append, showAll] at h
    split at h
    · next r₁ shown =>
      rw [showAll, shown]
      exact ih h
    · cases h

/-- What a run is given besides the machine. -/
structure Setting (ρ : Type) where
  render : Renderer ρ
  start : ρ
  moments : Nat → Moment

namespace Setting

variable [EventSource σ] (c : Setting ρ) (m : Machine σ)

/-- The run of a machine, after at most `count` cycles. -/
def session (count : Nat) : Session σ ρ := m.run c.render c.start c.moments count

/-- The first `j` steps with a poll after each. -/
def rounds (j : Nat) : List Turn := (List.range j).map fun k => ⟨c.moments k, true⟩

/-- The words that the first `j` cycles of the run find at the program counter. -/
def words (j : Nat) : List Opcode :=
  (List.range j).filterMap fun k => (c.session m k).machine.fetch.toOption

/-- `j` steps were taken with a poll after each. The renderer was called after each step, with the
screen that the step left. -/
structure Full (j : Nat) (s : Session σ ρ) : Prop where
  machine : ∃ n, m.follow (c.rounds j) = .ok () n ∧ s.machine.Agree .butQuit n
  shown : showAll c.render (m.screens (c.rounds j)) c.start = .ok () s.renderer
  frames : (m.screens (c.rounds j)).length = j
  words : m.words (c.rounds j) = c.words m j

/-- After `j` steps with polls one more step was taken, and the renderer failed on the screen that it
left. There was no poll after it. -/
structure Unshown (j : Nat) (fault : Fault) (s : Session σ ρ) : Prop where
  machine : ∃ n, m.follow (c.rounds j ++ [⟨c.moments j, false⟩]) = .ok () n ∧
    s.machine.Agree .butQuit n
  shown : ∃ screens last r, m.screens (c.rounds j ++ [⟨c.moments j, false⟩]) = screens ++ [last] ∧
    screens.length = j ∧ showAll c.render screens c.start = .ok () r ∧
      c.render last r = .error fault s.renderer
  words : m.words (c.rounds j ++ [⟨c.moments j, false⟩]) = c.words m (j + 1)

/-- After `j` steps with polls the next step failed. The renderer was called for the others only. -/
structure Broken (j : Nat) (fault : Fault) (s : Session σ ρ) : Prop where
  machine : ∃ n n', m.follow (c.rounds j) = .ok () n ∧
    n.stepAt (c.moments j) = .error fault n' ∧ s.machine.Agree .butQuit n'
  shown : showAll c.render (m.screens (c.rounds j)) c.start = .ok () s.renderer
  frames : (m.screens (c.rounds j)).length = j
  words : m.words (c.rounds j) = c.words m j

/-- How a run stands in its `j`-th cycle. -/
inductive Stands : Nat → Session σ ρ → Prop
  | running {j : Nat} {s : Session σ ρ} (status : s.status = .running) (full : c.Full m j s) :
    Stands j s
  | quit {j : Nat} {s : Session σ ρ} (status : s.status = .quit) (full : c.Full m (j + 1) s) :
    Stands (j + 1) s
  | unshown {j : Nat} {s : Session σ ρ} {fault : Fault} (status : s.status = .failed fault)
    (h : c.Unshown m j fault s) : Stands (j + 1) s
  | broken {j : Nat} {s : Session σ ρ} {fault : Fault} (status : s.status = .failed fault)
    (h : c.Broken m j fault s) : Stands (j + 1) s

variable {c m} {j : Nat}

theorem rounds_succ : c.rounds (j + 1) = c.rounds j ++ [⟨c.moments j, true⟩] := by
  rw [rounds, List.range_succ, List.map_append]
  rfl

theorem words_succ {word : Opcode} (hf : (c.session m j).machine.fetch = .ok word) :
    c.words m (j + 1) = c.words m j ++ [word] := by
  rw [words, List.range_succ, List.filterMap_append, List.filterMap_cons, hf]
  rfl

theorem stepAt_session {n : Machine σ} (same : (c.session m j).machine.Agree .butQuit n) :
    ((c.session m j).machine.stepAt (c.moments j)).Agree .butQuit (n.stepAt (c.moments j)) :=
  Machine.stepAt_agree (Tie.stacks_of_eq _ rfl) (fun _ _ _ => Tie.keys_butQuit) same _

theorem full_succ (full : c.Full m j (c.session m j)) {m' : Machine σ} {r : ρ} (status : Status)
    (hs : (c.session m j).machine.stepAt (c.moments j) = .ok () m')
    (hr : c.render m'.screen (c.session m j).renderer = .ok () r) :
    c.Full m (j + 1) ⟨status, m'.poll.2, r⟩ := by
  obtain ⟨n, followed, same⟩ := full.machine
  obtain ⟨n', hn, same'⟩ := Machine.ok_of_agree (stepAt_session same) hs
  obtain ⟨word, hf⟩ := Machine.fetch_of_stepAt hs
  have screens : m.screens (c.rounds (j + 1)) = m.screens (c.rounds j) ++ [m'.screen] := by
    rw [rounds_succ, Machine.screens_concat _ followed hn, same'.screen]
  constructor
  · refine ⟨n'.poll.2, ?_, same'.poll⟩
    rw [rounds_succ, Machine.follow_concat _ followed hn]
    rfl
  · rw [screens]
    exact showAll_concat full.shown hr
  · rw [screens, List.length_append, full.frames]
    rfl
  · rw [rounds_succ, Machine.words_concat _ followed (same.fetch_eq ▸ hf) hn, full.words,
      words_succ hf]

theorem unshown_of_full (full : c.Full m j (c.session m j)) {m' : Machine σ} {r : ρ} {fault : Fault}
    {status : Status} (hs : (c.session m j).machine.stepAt (c.moments j) = .ok () m')
    (hr : c.render m'.screen (c.session m j).renderer = .error fault r) :
    c.Unshown m j fault ⟨status, m', r⟩ := by
  obtain ⟨n, followed, same⟩ := full.machine
  obtain ⟨n', hn, same'⟩ := Machine.ok_of_agree (stepAt_session same) hs
  obtain ⟨word, hf⟩ := Machine.fetch_of_stepAt hs
  constructor
  · exact ⟨n', Machine.follow_concat _ followed hn, same'⟩
  · refine ⟨m.screens (c.rounds j), m'.screen, _, ?_, full.frames, full.shown, hr⟩
    rw [Machine.screens_concat _ followed hn, same'.screen]
  · rw [Machine.words_concat _ followed (same.fetch_eq ▸ hf) hn, full.words, words_succ hf]

theorem broken_of_full (full : c.Full m j (c.session m j)) {m' : Machine σ} {fault : Fault}
    {status : Status} (hs : (c.session m j).machine.stepAt (c.moments j) = .error fault m') :
    c.Broken m j fault ⟨status, m', (c.session m j).renderer⟩ := by
  obtain ⟨n, followed, same⟩ := full.machine
  obtain ⟨n', hn, same'⟩ := Machine.error_of_agree (stepAt_session same) hs
  exact ⟨⟨n, n', followed, hn, same'⟩, full.shown, full.frames, full.words⟩

/-- The three ways in which a run that goes on takes another cycle. -/
theorem session_succ (goes : (c.session m j).status = .running) :
    (∃ fault m', (c.session m j).machine.stepAt (c.moments j) = .error fault m' ∧
      c.session m (j + 1) = ⟨.failed fault, m', (c.session m j).renderer⟩) ∨
    ∃ m', (c.session m j).machine.stepAt (c.moments j) = .ok () m' ∧
      ((∃ fault r, c.render m'.screen (c.session m j).renderer = .error fault r ∧
        c.session m (j + 1) = ⟨.failed fault, m', r⟩) ∨
      ∃ r, c.render m'.screen (c.session m j).renderer = .ok () r ∧ c.session m (j + 1) =
        ⟨if m'.quit || m'.poll.1 then .quit else .running, m'.poll.2, r⟩) := by
  have next : c.session m (j + 1) = Session.cycle c.render (c.moments j) (c.session m j).machine
      (c.session m j).renderer := Machine.run_succ_of_running goes
  rw [next]
  cases hs : (c.session m j).machine.stepAt (c.moments j) with
  | error fault m' => exact .inl ⟨fault, m', rfl, Session.cycle_of_error hs⟩
  | ok _ m' =>
    refine .inr ⟨m', rfl, ?_⟩
    cases hr : c.render m'.screen (c.session m j).renderer with
    | error fault r => exact .inl ⟨fault, r, rfl, Session.cycle_of_unshown hs hr⟩
    | ok _ r => exact .inr ⟨r, rfl, Session.cycle_of_shown hs hr⟩

/-- **Runs side by side.** A relation of two runs that lets them stand alike, and that their cycles keep,
holds after any number of cycles. -/
theorem session_induction {ρ' : Type} [EventSource τ] {d : Setting ρ'} {n : Machine τ} {count : Nat}
    {r : Session σ ρ → Session τ ρ' → Prop} (start : r (c.session m 0) (d.session n 0))
    (status : ∀ {s t}, r s t → s.status = t.status)
    (cycle : ∀ k < count, (c.session m k).status = .running → r (c.session m k) (d.session n k) →
      r (Session.cycle c.render (c.moments k) (c.session m k).machine (c.session m k).renderer)
        (Session.cycle d.render (d.moments k) (d.session n k).machine (d.session n k).renderer)) :
    r (c.session m count) (d.session n count) := by
  induction count with
  | zero => exact start
  | succ count ih =>
    have before := ih fun k lt => cycle k (Nat.lt_succ_of_lt lt)
    by_cases goes : (c.session m count).status = .running
    · have first : c.session m (count + 1) = _ := Machine.run_succ_of_running goes
      have second : d.session n (count + 1) = _ :=
        Machine.run_succ_of_running ((status before).symm.trans goes)
      rw [first, second]
      exact cycle count (Nat.lt_succ_self count) goes before
    · have ended : (d.session n count).status ≠ .running := status before ▸ goes
      have first : c.session m (count + 1) = _ := Machine.run_succ_of_ended goes
      have second : d.session n (count + 1) = _ := Machine.run_succ_of_ended ended
      rw [first, second]
      exact before

theorem shown_succ (goes : (c.session m j).status = .running)
    (unfailed : (c.session m (j + 1)).status = .running ∨ (c.session m (j + 1)).status = .quit) :
    ∃ m' r, (c.session m j).machine.stepAt (c.moments j) = .ok () m' ∧
      c.render m'.screen (c.session m j).renderer = .ok () r ∧ c.session m (j + 1) =
        ⟨if m'.quit || m'.poll.1 then .quit else .running, m'.poll.2, r⟩ := by
  rcases session_succ goes with ⟨fault, m', hs, eq⟩ | ⟨m', hs, ⟨fault, r, hr, eq⟩ | ⟨r, hr, eq⟩⟩
  · simp [eq] at unfailed
  · simp [eq] at unfailed
  · exact ⟨m', r, hs, hr, eq⟩

/-- **One more cycle.** -/
theorem stands_succ (goes : (c.session m j).status = .running)
    (full : c.Full m j (c.session m j)) : c.Stands m (j + 1) (c.session m (j + 1)) := by
  rcases session_succ goes with ⟨fault, m', hs, eq⟩ | ⟨m', hs, ⟨fault, r, hr, eq⟩ | ⟨r, hr, eq⟩⟩
  · rw [eq]
    exact .broken rfl (broken_of_full full hs)
  · rw [eq]
    exact .unshown rfl (unshown_of_full full hs hr)
  · rw [eq]
    split
    · exact .quit rfl (full_succ full _ hs hr)
    · exact .running rfl (full_succ full _ hs hr)

theorem Stands.full {s : Session σ ρ} (h : c.Stands m j s)
    (unfailed : s.status = .running ∨ s.status = .quit) : c.Full m j s := by
  cases h with
  | running status full => exact full
  | quit status full => exact full
  | unshown status h => simp [status] at unfailed
  | broken status h => simp [status] at unfailed

/-- **How a run stands.** A run that goes on has made all its cycles. -/
theorem stands_session (c : Setting ρ) (m : Machine σ) (count : Nat) :
    ∃ j ≤ count, c.Stands m j (c.session m count) ∧
      ((c.session m count).status = .running → j = count) := by
  induction count with
  | zero =>
    refine ⟨0, Nat.le_refl 0, .running rfl ?_, fun _ => rfl⟩
    exact ⟨⟨m, rfl, rfl, rfl, rfl, rfl, rfl, rfl, rfl, rfl, trivial⟩, rfl, rfl, rfl⟩
  | succ count ih =>
    obtain ⟨j, le, stands, all⟩ := ih
    by_cases goes : (c.session m count).status = .running
    · obtain rfl := all goes
      have full := stands.full (.inl goes)
      exact ⟨j + 1, Nat.le_refl _, stands_succ goes full, fun _ => rfl⟩
    · have same : c.session m (count + 1) = c.session m count := Machine.run_succ_of_ended goes
      rw [same]
      exact ⟨j, Nat.le_succ_of_le le, stands, fun running => absurd running goes⟩

theorem full_of_running (goes : (c.session m j).status = .running) :
    c.Full m j (c.session m j) := by
  obtain ⟨k, le, stands, all⟩ := stands_session c m j
  obtain rfl := all goes
  exact stands.full (.inl goes)

theorem full_of_quit (goes : (c.session m j).status = .running)
    (ends : (c.session m (j + 1)).status = .quit) : c.Full m (j + 1) (c.session m (j + 1)) :=
  (stands_succ goes (full_of_running goes)).full (.inr ends)

theorem session_of_unshown (goes : (c.session m j).status = .running) {m' : Machine σ} {r : ρ}
    {fault : Fault} (hs : (c.session m j).machine.stepAt (c.moments j) = .ok () m')
    (hr : c.render m'.screen (c.session m j).renderer = .error fault r) :
    c.session m (j + 1) = ⟨.failed fault, m', r⟩ :=
  (Machine.run_succ_of_running goes).trans (Session.cycle_of_unshown hs hr)

theorem unshown_succ (goes : (c.session m j).status = .running) {m' : Machine σ} {r : ρ}
    {fault : Fault} (hs : (c.session m j).machine.stepAt (c.moments j) = .ok () m')
    (hr : c.render m'.screen (c.session m j).renderer = .error fault r) :
    c.Unshown m j fault (c.session m (j + 1)) := by
  rw [session_of_unshown goes hs hr]
  exact unshown_of_full (full_of_running goes) hs hr

end Setting

/-! ## Runs in a row -/

/-- Runs in a row on one machine, each of them ended by a quit or by its renderer: the turns that they
take, the words that they carry out, and the machine that they leave. -/
inductive Runs [EventSource σ] : Machine σ → List Turn → List Opcode → Machine σ → Prop
  | nil (m : Machine σ) : Runs m [] [] m
  | quit {ρ : Type} (c : Setting ρ) {m m' : Machine σ} (j : Nat) {turns : List Turn}
    {words : List Opcode} (goes : (c.session m j).status = .running)
    (ends : (c.session m (j + 1)).status = .quit)
    (rest : Runs (c.session m (j + 1)).machine turns words m') :
    Runs m (c.rounds (j + 1) ++ turns) (c.words m (j + 1) ++ words) m'
  | unshown {ρ : Type} (c : Setting ρ) {m m' n : Machine σ} (j : Nat) {turns : List Turn}
    {words : List Opcode} {fault : Fault} {r : ρ} (goes : (c.session m j).status = .running)
    (step : (c.session m j).machine.stepAt (c.moments j) = .ok () n)
    (fails : c.render n.screen (c.session m j).renderer = .error fault r)
    (rest : Runs (c.session m (j + 1)).machine turns words m') :
    Runs m (c.rounds j ++ [⟨c.moments j, false⟩] ++ turns) (c.words m (j + 1) ++ words) m'

/-- Turns go on where a run ended, whatever became of its quit flag. -/
theorem Machine.follow_restart [EventSource σ] {m n k k' : Machine σ} {first last : List Turn}
    (h : m.follow first = .ok () n) (same : k.Agree .butQuit n) (rest : k.follow last = .ok () k') :
    ∃ n', m.follow (first ++ last) = .ok () n' ∧ k'.Agree .butQuit n' ∧
      m.words (first ++ last) = m.words first ++ k.words last := by
  have alike : List.Forall₂ (Tie.butQuit : Tie σ σ).Alike last last :=
    List.forall₂_same.2 fun turn _ => Tie.alike_butQuit turn
  obtain ⟨n', followed, same', trail⟩ := follow_agree (Tie.stacks_of_eq _ rfl) alike
    (fun _ _ _ => Tie.keys_butQuit) same rest
  refine ⟨n', (follow_append h last).trans followed, same', ?_⟩
  rw [words, trail_append h, List.map_append, trail]
  rfl

/-- **Runs in a row are one row of steps.** -/
theorem follow_of_runs [EventSource σ] {m m' : Machine σ} {turns : List Turn} {words : List Opcode}
    (h : Runs m turns words m') :
    ∃ n, m.follow turns = .ok () n ∧ m'.Agree .butQuit n ∧ m.words turns = words := by
  induction h with
  | nil m => exact ⟨m, rfl, m.agree_butQuit m.quit, rfl⟩
  | quit c j goes ends rest ih =>
    obtain ⟨k, followed, same, carried⟩ := ih
    have full := Setting.full_of_quit goes ends
    obtain ⟨n, first, begins⟩ := full.machine
    obtain ⟨n', whole, same', all⟩ := Machine.follow_restart first begins followed
    exact ⟨n', whole, same.trans_butQuit same', by rw [all, full.words, carried]⟩
  | unshown c j goes step fails rest ih =>
    obtain ⟨k, followed, same, carried⟩ := ih
    have full := Setting.unshown_succ goes step fails
    obtain ⟨n, first, begins⟩ := full.machine
    obtain ⟨n', whole, same', all⟩ := Machine.follow_restart first begins followed
    exact ⟨n', whole, same.trans_butQuit same', by rw [all, full.words, carried]⟩

/-- The words `Ex9E`, `ExA1` and `Fx0A`. -/
def Opcode.AsksKeypad (op : Opcode) : Prop := op.Is 0xE 0x9E ∨ op.Is 0xE 0xA1 ∨ op.Is 0xF 0x0A

theorem Opcode.asksKeypad_of_decode {op : Opcode} (h : (Instruction.decode op).AsksKeypad) :
    op.AsksKeypad := by
  have selects := Instruction.selects_decode op
  rcases h with h | h | h
  · rw [h] at selects
    exact .inl selects
  · rw [h] at selects
    exact .inr (.inl selects)
  · rw [h] at selects
    exact .inr (.inr selects)

/-- Without a word that looks at the keypad the same steps do the same, whatever the host reports and
whenever it is polled. -/
theorem Machine.follow_unasked [EventSource σ] [EventSource τ] {m n : Machine σ} {k : Machine τ}
    {turns turns' : List Turn} (unasked : ∀ op ∈ m.words turns, ¬ op.AsksKeypad)
    (same : m.Agree .butKeypad k) (moments : turns'.map (·.moment) = turns.map (·.moment))
    (h : m.follow turns = .ok () n) :
    ∃ k', k.follow turns' = .ok () k' ∧ n.Agree .butKeypad k' ∧
      k.words turns' = m.words turns := by
  have alike : List.Forall₂ (Tie.butKeypad : Tie σ τ).Alike turns turns' := by
    rw [eq_comm, ← List.forall₂_eq_eq_eq, List.forall₂_map_left_iff, List.forall₂_map_right_iff]
      at moments
    exact moments.imp fun turn turn' eq => ⟨eq, fun h => h.pollIf_butKeypad _ _⟩
  obtain ⟨k', followed, same', trail⟩ := follow_agree (Tie.stacks_of_eq _ rfl) alike
    (fun op mem asks => absurd (Opcode.asksKeypad_of_decode asks) (unasked op mem)) same h
  exact ⟨k', followed, same', congrArg (List.map Mark.word) trail⟩

/-! ## Two runs -/

theorem Machine.stepAt_of_zero [EventSource σ] {m : Machine σ} (word : m.Reads 0) (moment : Moment) :
    m.stepAt moment = .ok () ((m.elapse moment.ticks).advance .next) :=
  stepAt_of_unknown word (by decide) moment

/-- A first cycle on a word that is no instruction. -/
theorem Setting.session_of_zero [EventSource σ] (c : Setting ρ) {m : Machine σ} {r : ρ}
    (word : m.Reads 0) (hr : c.render m.screen c.start = .ok () r) :
    ∃ m', c.session m 1 = ⟨if m.poll.1 then .quit else .running, m', r⟩ ∧ m'.memory = m.memory ∧
      m'.pc = m.pc + 2 ∧ m'.v = m.v ∧ m'.keypad = m.poll.2.keypad := by
  have word : (c.session m 0).machine.Reads 0 := word
  have hs := Machine.stepAt_of_zero word (c.moments 0)
  have next : c.session m 1 = _ :=
    (Machine.run_succ_of_running rfl).trans (Session.cycle_of_shown hs hr)
  exact ⟨(((c.session m 0).machine.elapse (c.moments 0).ticks).advance .next).poll.2, next, rfl, rfl,
    rfl, rfl⟩

/-- Above the font nothing is in memory before a program is loaded. -/
theorem Machine.reads_zero {m : Machine σ} (memory : m.memory = .initial) (le : 80 ≤ m.pc.toNat)
    (lt : m.pc.toNat + 1 < 4096) : m.Reads 0 := by
  have past : ∀ a : Fin 4096, 80 ≤ (a : Nat) → m.memory.get a = 0 := by
    intro a le
    rw [memory, Memory.get_initial, List.getD_eq_getElem?_getD, List.getElem?_eq_none le]
    rfl
  refine ⟨lt, ?_⟩
  rw [past _ le, past _ (Nat.le_succ_of_le le)]
  rfl

/-- A machine without a program, on a host that asks to quit at once. -/
def impatient : Machine Script := .new (Script.ofEvents [.quit])

/-- A renderer that shows nothing. -/
def unlit : Setting Unit := ⟨fun _ r => .ok () r, (), fun _ => ⟨0, 0⟩⟩

/-- A renderer that fails. -/
def torn : Setting Unit := ⟨fun _ r => .error (.render "torn") r, (), fun _ => ⟨0, 0⟩⟩

theorem runs_impatient :
    ∃ turns words m', Runs impatient turns words m' ∧ turns.length = 2 := by
  have quits : impatient.poll.1 = true := by
    have first : EventSource.poll impatient.keypad.host = (some .quit, ⟨[], []⟩) := rfl
    simp only [Machine.poll, Keypad.poll, EventSource.drain_of_some first]
    rfl
  have word : impatient.Reads 0 := Machine.reads_zero rfl (by decide) (by decide)
  obtain ⟨m', first, memory, pc, -⟩ := unlit.session_of_zero word rfl
  rw [if_pos quits] at first
  have pc : m'.pc = 0x202 := pc
  have word' : m'.Reads 0 := Machine.reads_zero memory (by rw [pc]; decide) (by rw [pc]; decide)
  have word' : (torn.session m' 0).machine.Reads 0 := word'
  have second :=
    Runs.unshown torn 0 rfl (Machine.stepAt_of_zero word' (torn.moments 0)) rfl (.nil _)
  have left : (unlit.session impatient 1).machine = m' := congrArg Session.machine first
  rw [← left] at second
  exact ⟨_, _, _, .quit unlit 0 rfl (congrArg Session.status first) second, rfl⟩

/-! ## Runs and their steps -/

/-- **Runs and their steps.** A run does what single steps with polls after them do, and shows what
they leave. Runs in a row are one unbroken row of such steps, and without a word that looks at the
keypad the same steps end the same for any host and with any polls. -/
theorem runs_refine_steps [EventSource σ] (m : Machine σ) :
    (∀ {ρ : Type} (c : Setting ρ) (count : Nat), ∃ j ≤ count, c.Stands m j (c.session m count) ∧
      ((c.session m count).status = .running → j = count)) ∧
    ∀ turns words m', Runs m turns words m' →
      (∃ n, m.follow turns = .ok () n ∧ m'.Agree .butQuit n ∧ m.words turns = words) ∧
      ((∀ op ∈ words, ¬ op.AsksKeypad) →
        ∀ {τ : Type} [EventSource τ] (k : Machine τ) (turns' : List Turn),
          m.Agree .butKeypad k → turns'.map (·.moment) = turns.map (·.moment) →
            ∃ k', k.follow turns' = .ok () k' ∧ m'.Agree .butKeypad k' ∧ k.words turns' = words) := by
  refine ⟨fun c count => Setting.stands_session c m count, ?_⟩
  intro turns words m' runs
  obtain ⟨n, followed, same, carried⟩ := follow_of_runs runs
  refine ⟨⟨n, followed, same, carried⟩, ?_⟩
  intro unasked τ _ k turns' tied moments
  rw [← carried] at unasked
  obtain ⟨k', followed', same', words'⟩ := Machine.follow_unasked unasked tied moments followed
  exact ⟨k', followed', same.trans_butKeypad same', words'.trans carried⟩

theorem runs_refine_steps_impatient : ∃ turns words m' n, Runs impatient turns words m' ∧
    turns.length = 2 ∧ impatient.follow turns = .ok () n ∧ m'.Agree .butQuit n ∧
      impatient.words turns = words := by
  obtain ⟨turns, words, m', runs, length⟩ := runs_impatient
  obtain ⟨⟨n, followed, same, carried⟩, -⟩ := (runs_refine_steps impatient).2 turns words m' runs
  exact ⟨turns, words, m', n, runs, length, followed, same, carried⟩

end Chip8
