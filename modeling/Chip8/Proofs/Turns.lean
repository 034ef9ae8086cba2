import Mathlib.Data.List.Forall2
import Chip8.Proofs.Agreement

/-!
# Steps in a row

* `Turn`: a step, and whether the host is polled after it.
* `Machine.follow`: turns in a row, up to the first failing step.
* `Machine.trail`: what the steps of the turns do, `Machine.words` the words they carry out and
  `Machine.screens` the screens they leave.
* `follow_append`, `trail_append`, `trail_take`: turns can be cut anywhere.
* `Tie.Alike`: the same step of two machines, with polls that keep their tie.
* **`follow_agree`**: machines that agree are taken by the same steps to machines that agree.
-/

namespace Chip8

/-- A step, and whether the host is polled after it. -/
structure Turn where
  moment : Moment
  polled : Bool
  deriving DecidableEq, Repr

/-- What a step did: the word it carried out, and the screen it left. -/
structure Mark where
  word : Opcode
  screen : Screen

namespace Machine

variable {σ : Type} [EventSource σ]

/-- Polls the host if it is to be polled. -/
def pollIf (m : Machine σ) (polled : Bool) : Machine σ := if polled then m.poll.2 else m

/-- One turn after the other. A failing step ends them. -/
def follow (m : Machine σ) : List Turn → Outcome σ Unit
  | [] => .ok () m
  | turn :: turns =>
    match m.stepAt turn.moment with
    | .ok () m => (m.pollIf turn.polled).follow turns
    | .error fault m => .error fault m

/-- What the steps of some turns do. -/
def trail (m : Machine σ) : List Turn → List Mark
  | [] => []
  | turn :: turns =>
    match m.fetch, m.stepAt turn.moment with
    | .ok word, .ok () m => ⟨word, m.screen⟩ :: (m.pollIf turn.polled).trail turns
    | _, _ => []

/-- The words that the steps of some turns carry out. -/
def words (m : Machine σ) (turns : List Turn) : List Opcode := (m.trail turns).map (·.word)

/-- The screens that the steps of some turns leave. -/
def screens (m : Machine σ) (turns : List Turn) : List Screen := (m.trail turns).map (·.screen)

/-! ## Cutting turns -/

variable {m n m' : Machine σ}

theorem fetch_of_stepAt {moment : Moment} (h : m.stepAt moment = .ok () m') :
    ∃ word, m.fetch = .ok word := by
  change (m.elapse moment.ticks).attempt m.fetch _ = _ at h
  cases hf : m.fetch with
  | ok word => exact ⟨word, rfl⟩
  | error fault =>
    rw [hf] at h
    cases h

theorem follow_cons {turn : Turn} (h : m.stepAt turn.moment = .ok () m') (turns : List Turn) :
    m.follow (turn :: turns) = (m'.pollIf turn.polled).follow turns := by
  rw [follow, h]

theorem trail_cons {turn : Turn} {word : Opcode} (hf : m.fetch = .ok word)
    (h : m.stepAt turn.moment = .ok () m') (turns : List Turn) :
    m.trail (turn :: turns) = ⟨word, m'.screen⟩ :: (m'.pollIf turn.polled).trail turns := by
  rw [trail, hf, h]

theorem words_cons {turn : Turn} {word : Opcode} (hf : m.fetch = .ok word)
    (h : m.stepAt turn.moment = .ok () m') (turns : List Turn) :
    m.words (turn :: turns) = word :: (m'.pollIf turn.polled).words turns := by
  rw [words, trail_cons hf h]
  rfl

/-- The first turns do what they do when others follow. -/
theorem trail_take (m : Machine σ) (turns : List Turn) (k : Nat) :
    m.trail (turns.take k) = (m.trail turns).take k := by
  induction turns generalizing m k with
  | nil => rw [List.take_nil, trail, List.take_nil]
  | cons turn turns ih =>
    cases k with
    | zero => rfl
    | succ k =>
      rw [List.take_succ_cons, trail, trail]
      split
      · rw [ih, List.take_succ_cons]
      · rfl

theorem words_take (m : Machine σ) (turns : List Turn) (k : Nat) :
    m.words (turns.take k) = (m.words turns).take k := by
  rw [words, trail_take, List.map_take]
  rfl

theorem stepAt_of_follow {turn : Turn} {turns : List Turn}
    (h : m.follow (turn :: turns) = .ok () m') :
    ∃ n word, m.fetch = .ok word ∧ m.stepAt turn.moment = .ok () n ∧
      (n.pollIf turn.polled).follow turns = .ok () m' := by
  rw [follow] at h
  split at h
  · next n hs =>
    obtain ⟨word, hf⟩ := fetch_of_stepAt hs
    exact ⟨n, word, hf, hs, h⟩
  · cases h

theorem follow_append {first : List Turn} (h : m.follow first = .ok () n) (last : List Turn) :
    m.follow (first ++ last) = n.follow last := by
  induction first generalizing m with
  | nil =>
    cases h
    rfl
  | cons turn turns ih =>
    obtain ⟨m₁, word, hf, hs, rest⟩ := stepAt_of_follow h
    rw [List.cons_append, follow_cons hs, ih rest]

theorem trail_append {first : List Turn} (h : m.follow first = .ok () n) (last : List Turn) :
    m.trail (first ++ last) = m.trail first ++ n.trail last := by
  induction first generalizing m with
  | nil =>
    cases h
    rfl
  | cons turn turns ih =>
    obtain ⟨m₁, word, hf, hs, rest⟩ := stepAt_of_follow h
    rw [List.cons_append, trail_cons hf hs, trail_cons hf hs, ih rest, List.cons_append]

section

variable {first : List Turn} {moment : Moment} (polled : Bool)

theorem follow_concat (h : m.follow first = .ok () n) (hs : n.stepAt moment = .ok () m') :
    m.follow (first ++ [⟨moment, polled⟩]) = .ok () (m'.pollIf polled) := by
  rw [follow_append h, follow, hs]
  rfl

theorem trail_concat (h : m.follow first = .ok () n) {word : Opcode} (hf : n.fetch = .ok word)
    (hs : n.stepAt moment = .ok () m') :
    m.trail (first ++ [⟨moment, polled⟩]) = m.trail first ++ [⟨word, m'.screen⟩] := by
  rw [trail_append h, trail, hf, hs]
  rfl

theorem words_concat (h : m.follow first = .ok () n) {word : Opcode} (hf : n.fetch = .ok word)
    (hs : n.stepAt moment = .ok () m') :
    m.words (first ++ [⟨moment, polled⟩]) = m.words first ++ [word] := by
  rw [words, trail_concat polled h hf hs, List.map_append]
  rfl

theorem screens_concat (h : m.follow first = .ok () n) (hs : n.stepAt moment = .ok () m') :
    m.screens (first ++ [⟨moment, polled⟩]) = m.screens first ++ [m'.screen] := by
  obtain ⟨word, hf⟩ := fetch_of_stepAt hs
  rw [screens, trail_concat polled h hf hs, List.map_append]
  rfl

end

theorem stepAt_of_follow_concat {first : List Turn} {moment : Moment} {polled : Bool}
    (h : m.follow (first ++ [⟨moment, polled⟩]) = .ok () m') :
    ∃ n n', m.follow first = .ok () n ∧ n.stepAt moment = .ok () n' ∧ m' = n'.pollIf polled := by
  induction first generalizing m with
  | nil =>
    obtain ⟨n', word, hf, hs, rest⟩ := stepAt_of_follow h
    cases rest
    exact ⟨m, n', rfl, hs, rfl⟩
  | cons turn turns ih =>
    obtain ⟨m₁, word, hf, hs, rest⟩ := stepAt_of_follow h
    rw [follow_cons hs]
    exact ih rest

/-! ## Turns of machines that agree -/

end Machine

/-- The same step, and polls after it that keep machines in agreement. -/
def Tie.Alike {σ τ : Type} [EventSource σ] [EventSource τ] (t : Tie σ τ) (turn turn' : Turn) : Prop :=
  turn.moment = turn'.moment ∧ ∀ {m : Machine σ} {k : Machine τ}, m.Agree t k →
    (m.pollIf turn.polled).Agree t (k.pollIf turn'.polled)

namespace Machine

variable {σ τ : Type} {t : Tie σ τ}

theorem ok_of_agree {m' : Machine σ} {x : Outcome σ Unit} {y : Outcome τ Unit}
    (h : x.Agree t y) (hx : x = .ok () m') : ∃ k', y = .ok () k' ∧ m'.Agree t k' := by
  cases h with
  | ok a h =>
    cases hx
    exact ⟨_, rfl, h⟩
  | error fault h => cases hx

theorem ok_of_agree_right {k' : Machine τ} {x : Outcome σ Unit} {y : Outcome τ Unit}
    (h : x.Agree t y) (hy : y = .ok () k') : ∃ m', x = .ok () m' ∧ m'.Agree t k' := by
  cases h with
  | ok a h =>
    cases hy
    exact ⟨_, rfl, h⟩
  | error fault h => cases hy

theorem error_of_agree {m' : Machine σ} {fault : Fault} {x : Outcome σ Unit} {y : Outcome τ Unit}
    (h : x.Agree t y) (hx : x = .error fault m') : ∃ k', y = .error fault k' ∧ m'.Agree t k' := by
  cases h with
  | ok a h => cases hx
  | error _ h =>
    cases hx
    exact ⟨_, rfl, h⟩

variable [EventSource σ] [EventSource τ] {m m' : Machine σ} {k : Machine τ}

/-- **Turns of machines that agree.** The keypads have to be tied if a word looks at them. -/
theorem follow_agree (calls : t.Stacks) {turns turns' : List Turn}
    (alike : List.Forall₂ t.Alike turns turns')
    (keys : ∀ word ∈ m.words turns, (Instruction.decode word).AsksKeypad → t.Keys)
    (h : m.Agree t k) (hm : m.follow turns = .ok () m') :
    ∃ k', k.follow turns' = .ok () k' ∧ m'.Agree t k' ∧ k.trail turns' = m.trail turns := by
  induction alike generalizing m k with
  | nil =>
    cases hm
    exact ⟨k, rfl, h, rfl⟩
  | @cons turn turn' turns turns' alike _ ih =>
    obtain ⟨m₁, word, hf, hs, rest⟩ := stepAt_of_follow hm
    rw [words_cons hf hs, List.forall_mem_cons] at keys
    -- the first word of the turns is the one that the step fetches
    have asks : ∀ op, m.fetch = .ok op → (Instruction.decode op).AsksKeypad → t.Keys := by
      intro op hop
      obtain rfl : word = op := Except.ok.inj (hf.symm.trans hop)
      exact keys.1
    obtain ⟨k₁, hk, h₁⟩ := ok_of_agree (stepAt_agree calls asks h turn.moment) hs
    rw [alike.1] at hk
    obtain ⟨k', followed, h', same⟩ := ih keys.2 (alike.2 h₁) rest
    refine ⟨k', ?_, h', ?_⟩
    · rw [follow_cons hk, followed]
    · rw [trail_cons (h.fetch_eq ▸ hf) hk, trail_cons hf hs, same, h₁.screen]

end Machine

end Chip8
