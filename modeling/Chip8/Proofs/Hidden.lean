import Chip8.PostMortem
import Chip8.Proofs.Quits
import Chip8.Proofs.Reached

/-!
# What cannot be seen of a machine

* `CallStack.SameCalls`: stacks with the same calls open; `SameCalls.push`, `SameCalls.pop`.
* `Tie.butDead`: machines that are equal but for the slots of closed calls and the quit flag.
* `Setting.frames`: the screens that a run hands to its renderer; `plain_session`: noting them changes
  nothing.
* `Request`, `Reply`: what is asked of a machine from outside, and what is seen of the answer.
* `Machine.answer`, `Machine.answers`: the replies to one request, and to several in a row.
* `answer_agree`, `replies_agree`: requests keep what is tied, and the replies to them are equal.
* **`answers_agree`**: no requests tell such machines apart.
-/

namespace Chip8

variable {σ ρ : Type}

/-! ## Stacks with the same calls open -/

/-- The same calls are open. What other slots hold does not count. -/
structure CallStack.SameCalls (s t : CallStack) : Prop where
  sp : s.sp = t.sp
  live : s.live = t.live

/-- All but the slots of closed calls and the quit flags is equal. -/
def Tie.butDead (quit : Bool → Bool → Prop) : Tie σ σ := ⟨CallStack.SameCalls, Eq, quit⟩

namespace CallStack

variable {s t : CallStack}

theorem sameCalls_of_live (h : s.live = t.live) : s.SameCalls t := ⟨sp_eq_of_live h, h⟩

/-- The slot that a call takes is filled, so what was left there does not matter. -/
theorem SameCalls.push (h : s.SameCalls t) (address : UInt16) :
    Matched SameCalls (s.push address) (t.push address) := by
  cases hs : s.push address with
  | error fault =>
    obtain ⟨full, rfl⟩ := (push_eq_error_iff _ _ _).1 hs
    rw [(push_eq_error_iff t address _).2 ⟨h.sp ▸ full, rfl⟩]
    exact .error _
  | ok s' =>
    cases ht : t.push address with
    | error fault =>
      obtain ⟨full, rfl⟩ := (push_eq_error_iff _ _ _).1 ht
      rw [(push_eq_error_iff s address _).2 ⟨h.sp.trans full, rfl⟩] at hs
      cases hs
    | ok t' =>
      apply Matched.ok
      apply sameCalls_of_live
      rw [live_of_push hs, live_of_push ht, h.live]

theorem SameCalls.pop (h : s.SameCalls t) :
    Matched (fun p q => p.1 = q.1 ∧ SameCalls p.2 q.2) s.pop t.pop := by
  cases hs : s.pop with
  | error fault =>
    obtain ⟨none, rfl⟩ := (pop_eq_error_iff _ _).1 hs
    rw [(pop_eq_error_iff t _).2 ⟨h.sp ▸ none, rfl⟩]
    exact .error _
  | ok p =>
    cases ht : t.pop with
    | error fault =>
      obtain ⟨none, rfl⟩ := (pop_eq_error_iff _ _).1 ht
      rw [(pop_eq_error_iff s _).2 ⟨h.sp.trans none, rfl⟩] at hs
      cases hs
    | ok q =>
      obtain ⟨address, s'⟩ := p
      obtain ⟨address', t'⟩ := q
      have live := h.live
      rw [live_of_pop hs, live_of_pop ht] at live
      obtain ⟨rfl, live'⟩ := List.cons.inj live
      exact .ok ⟨rfl, sameCalls_of_live live'⟩

end CallStack

theorem Tie.calls_butDead {quit : Bool → Bool → Prop} : (butDead quit : Tie σ σ).Stacks :=
  ⟨fun h a => CallStack.SameCalls.push h a, fun h => CallStack.SameCalls.pop h⟩

theorem Tie.keys_butDead [EventSource σ] {quit : Bool → Bool → Prop} (refl : quit true true) :
    (butDead quit : Tie σ σ).Keys where
  held h := congrArg Keypad.held h
  await h := by
    cases h
    exact ⟨rfl, rfl⟩
  quit := refl

theorem Tie.polls_butDead [EventSource σ] : (butDead Eq : Tie σ σ).Polls where
  poll h := by
    cases h
    exact ⟨rfl, rfl⟩
  quit := Iff.rfl

/-! ## Frames -/

/-- The same renderer, with a note of the screens that it is handed. -/
def Setting.noting (c : Setting ρ) : Setting (List Screen × ρ) where
  render screen r :=
    match c.render screen r.2 with
    | .ok () r' => .ok () (r.1 ++ [screen], r')
    | .error fault r' => .error fault (r.1 ++ [screen], r')
  start := ([], c.start)
  moments := c.moments

/-- A session without the note. -/
def Session.plain (s : Session σ (List Screen × ρ)) : Session σ ρ :=
  ⟨s.status, s.machine, s.renderer.2⟩

section

variable [EventSource σ]

theorem plain_cycle (c : Setting ρ) (moment : Moment) (m : Machine σ) (r : List Screen × ρ) :
    (Session.cycle c.noting.render moment m r).plain = Session.cycle c.render moment m r.2 := by
  unfold Session.cycle
  cases m.stepAt moment with
  | error fault m' => rfl
  | ok _ m' =>
    simp only [Setting.noting]
    cases c.render m'.screen r.2 with
    | error fault r' => rfl
    | ok _ r' => rfl

/-- A note of the screens changes nothing. -/
theorem Setting.plain_session (c : Setting ρ) (m : Machine σ) (count : Nat) :
    (c.noting.session m count).plain = c.session m count := by
  refine session_induction (r := fun s t => s.plain = t) rfl
    (fun same => congrArg Session.status same) ?_
  intro k _ _ same
  rw [← same]
  exact plain_cycle c _ _ _

/-- The screens that a run hands to its renderer. -/
def Setting.frames (c : Setting ρ) (m : Machine σ) (count : Nat) : List Screen :=
  (c.noting.session m count).renderer.1

end

/-! ## Requests and replies -/

/-- What is asked of a machine from outside. -/
inductive Request
  | step (moment : Moment)
  | run {ρ : Type} (c : Setting ρ) (count : Nat)
  | push (address : UInt16)
  | pop
  | fetch
  | load (program : List UInt8)
  | dump

/-- What is seen from outside. -/
inductive Reply
  | done
  | fault (fault : Fault)
  | address (address : UInt16)
  | word (op : Opcode)
  | text (text : String)
  | ran {ρ : Type} (status : Status) (frames : List Screen) (renderer : ρ)

/-- The reply to an operation that may fail. -/
def Outcome.reply {α : Type} (x : Outcome σ α) (ok : α → Reply) : Reply :=
  match x with
  | .ok a _ => ok a
  | .error fault _ => .fault fault

namespace Machine

variable [EventSource σ]

/-- The reply to a request, and the machine after it. -/
def answer (m : Machine σ) : Request → Reply × Machine σ
  | .step moment => ((m.stepAt moment).reply fun _ => .done, (m.stepAt moment).left)
  | .run c count =>
    let s := c.session m count
    (.ran s.status (c.frames m count) s.renderer, s.machine)
  | .push address => ((m.push address).reply fun _ => .done, (m.push address).left)
  | .pop => (m.pop.reply .address, m.pop.left)
  | .fetch => (match m.fetch with | .ok op => .word op | .error fault => .fault fault, m)
  | .load program => ((m.load program).reply fun _ => .done, (m.load program).left)
  | .dump => (.text m.dump, m)

/-- The replies to requests in a row, and the machine after them. -/
def answers (m : Machine σ) : List Request → List Reply × Machine σ
  | [] => ([], m)
  | request :: requests =>
    let (reply, m) := m.answer request
    let (replies, m) := m.answers requests
    (reply :: replies, m)

/-! ## Machines that cannot be told apart -/

variable {t : Tie σ σ} {m n : Machine σ}

omit [EventSource σ] in
theorem reply_agree {α : Type} {x y : Outcome σ α} (h : x.Agree t y) (ok : α → Reply) :
    x.reply ok = y.reply ok ∧ x.left.Agree t y.left := by
  cases h with
  | ok a h => exact ⟨rfl, h⟩
  | error fault h => exact ⟨rfl, h⟩

/-- Nothing is asked of the quit flags. -/
abbrev Alike (m n : Machine σ) : Prop := m.Agree (.butDead fun _ _ => True) n

omit [EventSource σ] in
theorem Agree.alike {quit : Bool → Bool → Prop} (h : m.Agree (.butDead quit) n) : m.Alike n :=
  { h with quit := trivial }

theorem Alike.step (h : m.Alike n) (moment : Moment) :
    (m.stepAt moment).Agree (.butDead fun _ _ => True) (n.stepAt moment) :=
  stepAt_agree Tie.calls_butDead (fun _ _ _ => Tie.keys_butDead trivial) h moment

theorem Alike.session (h : m.Alike n) (c : Setting ρ) (count : Nat) :
    Session.Agree (.butDead Eq) (c.session m count) (c.session n count) :=
  c.session_agree Tie.calls_butDead (Tie.keys_butDead rfl) Tie.polls_butDead
    { h with quit := rfl } count

theorem Alike.frames (h : m.Alike n) (c : Setting ρ) (count : Nat) :
    c.frames m count = c.frames n count :=
  congrArg Prod.fst (h.session c.noting count).renderer

theorem answer_agree (h : m.Alike n) (request : Request) :
    (m.answer request).1 = (n.answer request).1 ∧ (m.answer request).2.Alike (n.answer request).2 := by
  cases request with
  | step moment => exact reply_agree (h.step moment) _
  | run c count =>
    have sessions := h.session c count
    refine ⟨?_, sessions.machine.alike⟩
    simp only [answer]
    rw [sessions.status, sessions.renderer, h.frames c count]
  | push address =>
    apply reply_agree
    apply h.attempt (Tie.calls_butDead.push h.stack address)
    intro s s' tied
    exact .ok _ { h with stack := tied }
  | pop =>
    apply reply_agree
    apply h.attempt (Tie.calls_butDead.pop h.stack)
    rintro ⟨address, s⟩ ⟨_, s'⟩ ⟨rfl, tied⟩
    exact .ok _ { h with stack := tied }
  | fetch =>
    refine ⟨?_, h⟩
    simp only [answer, h.fetch_eq]
  | load program =>
    apply reply_agree
    rw [load, load, h.memory]
    apply h.attempt (.of_eq (fun _ => rfl) _)
    rintro memory _ rfl
    exact .ok _ { h with memory := rfl }
  | dump =>
    refine ⟨?_, h⟩
    have same : m.postMortem = n.postMortem :=
      PostMortem.ext h.v h.stack.live h.i h.pc h.stack.sp
    simp only [answer, dump, same]

theorem replies_agree (h : m.Alike n) (requests : List Request) :
    (m.answers requests).1 = (n.answers requests).1 ∧
      (m.answers requests).2.Alike (n.answers requests).2 := by
  induction requests generalizing m n with
  | nil => exact ⟨rfl, h⟩
  | cons request requests ih =>
    obtain ⟨same, left⟩ := answer_agree h request
    obtain ⟨same', left'⟩ := ih left
    refine ⟨?_, left'⟩
    simp only [answers, same, same']

/-- **What cannot be seen.** Machines that differ in the slots of closed calls and in the quit flag
give the same replies, whatever is asked of them in a row, and differ in nothing else afterwards. The
frames in the replies are noted on runs that are otherwise those of the renderer itself. -/
theorem answers_agree (h : m.Alike n) (requests : List Request) :
    (m.answers requests).1 = (n.answers requests).1 ∧
      (m.answers requests).2.Alike (n.answers requests).2 ∧
      ∀ {ρ : Type} (c : Setting ρ) (k : Machine σ) (count : Nat),
        (c.noting.session k count).plain = c.session k count := by
  obtain ⟨replies, left⟩ := replies_agree h requests
  exact ⟨replies, left, fun c k count => c.plain_session k count⟩

/-- A machine without a program. -/
def fresh : Machine Script := new (Script.ofEvents [])

/-- The same machine with sixteen closed calls and a quit behind it. -/
def stale : Machine Script :=
  { fresh with stack := { CallStack.empty with slots := Vector.replicate 16 0x321 }, quit := true }

theorem answers_agree_stale : fresh.stack ≠ stale.stack ∧ fresh.quit ≠ stale.quit ∧
    (fresh.answers [.push 0x204, .run unlit 2, .pop, .dump]).1 =
      (stale.answers [.push 0x204, .run unlit 2, .pop, .dump]).1 := by
  have alike : fresh.Alike stale :=
    ⟨rfl, rfl, rfl, rfl, rfl, rfl, ⟨rfl, rfl⟩, rfl, trivial⟩
  exact ⟨by decide, by decide, (answers_agree alike _).1⟩

end Machine

end Chip8
