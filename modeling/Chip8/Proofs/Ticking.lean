import Chip8.DelayTimer.Ticker
import Mathlib.Data.List.Induction

/-!
# A timer under any interleaving

* `Ticker.Moves`: the actions that are possible in a state, and what they make of it.
* `lastSet`, `ticksSince`: the value that was set last, and the ticks since then.
* **`count_of_play`**: these two tell the count.
* `Phase.rest`: what the ticker still does once the flag is cleared. `ticks_of_cleared`: one tick at
  most; `play_rest`, `rest_of_waiting`: an owner who waits is let go after these actions.
* `quiet_of_joined`: no tick after a join.
* `Action.onTimer`, `timer_of_play`: what the owner sees is a `DelayTimer`.
* `Fair`: what the owner can rely on, and which timer that is. **`fair_of_play`**: that holds after any
  actions of both sides.
-/

namespace Chip8.Ticker

/-! ## One action -/

/-- The actions that are possible in a state, and what they make of it. -/
inductive Moves (s : State) : Action → State → Prop
  | check (h : s.phase = .checking) :
    Moves s .check { s with phase := if s.running then .due else .finished }
  | tick (h : s.phase = .due) :
    Moves s .tick { s with count := DelayTimer.lower s.count 1, phase := .checking }
  | set (free : s.joining = false) (n : UInt8) : Moves s (.set n) { s with count := n }
  | get (free : s.joining = false) : Moves s (.get s.count) s
  | clear (free : s.joining = false) : Moves s .clear { s with running := false, joining := true }
  | join (waits : s.joining = true) (h : s.phase = .finished) : Moves s .join { s with joining := false }

variable {s t : State} {a : Action}

theorem moves_of_step (h : step s a = some t) : Moves s a t := by
  cases a with
  | check =>
    simp only [step, Option.ite_none_right_eq_some, Option.some.injEq] at h
    obtain ⟨phase, rfl⟩ := h
    exact .check phase
  | tick =>
    simp only [step, Option.ite_none_right_eq_some, Option.some.injEq] at h
    obtain ⟨phase, rfl⟩ := h
    exact .tick phase
  | set n =>
    simp only [step, Option.ite_none_left_eq_some, Option.some.injEq] at h
    obtain ⟨free, rfl⟩ := h
    exact .set (Bool.not_eq_true _ ▸ free) n
  | get n =>
    simp only [step, Option.ite_none_right_eq_some, Option.some.injEq] at h
    obtain ⟨⟨free, rfl⟩, rfl⟩ := h
    exact .get free
  | clear =>
    simp only [step, Option.ite_none_left_eq_some, Option.some.injEq] at h
    obtain ⟨free, rfl⟩ := h
    exact .clear (Bool.not_eq_true _ ▸ free)
  | join =>
    simp only [step, Option.ite_none_right_eq_some, Option.some.injEq] at h
    obtain ⟨⟨waits, phase⟩, rfl⟩ := h
    exact .join waits phase

theorem step_of_moves (h : Moves s a t) : step s a = some t := by
  cases h with
  | check h => exact if_pos h
  | tick h => exact if_pos h
  | set free n => exact if_neg (Bool.not_eq_true _ ▸ free)
  | get free => exact if_pos ⟨free, rfl⟩
  | clear free => exact if_neg (Bool.not_eq_true _ ▸ free)
  | join waits h => exact if_pos ⟨waits, h⟩

theorem play_split {before after : List Action} (h : play s (before ++ a :: after) = some t) :
    ∃ u v, play s before = some u ∧ Moves u a v ∧ play v after = some t := by
  rw [play_append, Option.bind_eq_some_iff] at h
  obtain ⟨u, played, rest⟩ := h
  rw [play_cons, Option.bind_eq_some_iff] at rest
  obtain ⟨v, stepped, rest⟩ := rest
  exact ⟨u, v, played, moves_of_step stepped, rest⟩

theorem play_first {actions : List Action} (h : play s (a :: actions) = some t) :
    ∃ u, Moves s a u ∧ play u actions = some t := by
  have split : play s ([] ++ a :: actions) = some t := h
  obtain ⟨_, u, start, moves, rest⟩ := play_split split
  cases start
  exact ⟨u, moves, rest⟩

theorem play_last {actions : List Action} (h : play s (actions ++ [a]) = some t) :
    ∃ u, play s actions = some u ∧ Moves u a t := by
  obtain ⟨u, _, played, moves, rest⟩ := play_split h
  cases rest
  exact ⟨u, played, moves⟩

/-! ## The count -/

/-- The value that an action sets. -/
def Action.set? : Action → Option UInt8
  | set n => some n
  | _ => none

/-- The value that was set last, `n` if none was. -/
def lastSet (n : UInt8) (actions : List Action) : UInt8 := (actions.filterMap Action.set?).getLastD n

/-- The ticks since a value was set, all of them if none was. -/
def ticksSince (actions : List Action) : Nat :=
  (actions.reverse.takeWhile fun a => a.set?.isNone).count .tick

theorem lastSet_concat (n : UInt8) (actions : List Action) (a : Action) :
    lastSet n (actions ++ [a]) = a.set?.getD (lastSet n actions) := by
  unfold lastSet
  rw [List.filterMap_append]
  cases h : a.set? with
  | none => simp [h]
  | some m => simp [h]

theorem ticksSince_concat (actions : List Action) (a : Action) :
    ticksSince (actions ++ [a]) =
      if a.set?.isNone then ticksSince actions + [a].count .tick else 0 := by
  unfold ticksSince
  rw [List.reverse_append, List.reverse_singleton, List.singleton_append, List.takeWhile_cons]
  split
  · rw [← List.singleton_append, List.count_append, Nat.add_comm]
  · rfl

/-- **The count.** No set is lost, and every tick since the last one counts. -/
theorem count_of_play {actions : List Action} (h : play s actions = some t) :
    t.count = DelayTimer.lower (lastSet s.count actions) (ticksSince actions) := by
  -- the last action decides what came last, so the induction takes actions off the end
  induction actions using List.reverseRecOn generalizing t with
  | nil =>
    cases h
    exact (DelayTimer.lower_zero _).symm
  | append_singleton actions a ih =>
    obtain ⟨u, played, moves⟩ := play_last h
    have before := ih played
    rw [lastSet_concat, ticksSince_concat]
    cases moves with
    | tick =>
      change DelayTimer.lower u.count 1 = DelayTimer.lower _ (_ + 1)
      rw [before, DelayTimer.lower_lower]
      rfl
    | set free n => exact (DelayTimer.lower_zero n).symm
    | check | get | clear | join => exact before

/-! ## The ticker after the flag is cleared -/

/-- What the ticker still does once the flag is cleared. -/
def Phase.rest : Phase → List Action
  | checking => [.check]
  | due => [.tick, .check]
  | finished => []

theorem Moves.cleared (h : Moves s a t) (cleared : s.running = false) : t.running = false := by
  cases h with
  | clear => rfl
  | check | tick | set | get | join => exact cleared

/-- A tick after the flag is cleared is one of those that were left. -/
theorem Moves.ticks (h : Moves s a t) (cleared : s.running = false) :
    [a].count .tick + t.phase.rest.count .tick ≤ s.phase.rest.count .tick := by
  cases h with
  | check h =>
    rw [cleared, h]
    exact Nat.zero_le 0
  | tick h =>
    rw [h]
    exact Nat.le_refl 1
  | set | get | clear | join => exact Nat.le_of_eq (Nat.zero_add _)

theorem ticks_of_cleared {actions : List Action} (cleared : s.running = false)
    (h : play s actions = some t) : actions.count .tick ≤ 1 := by
  suffices actions.count .tick + t.phase.rest.count .tick ≤ s.phase.rest.count .tick by
    have once : s.phase.rest.count .tick ≤ 1 := by
      cases s.phase <;> decide
    omega
  induction actions generalizing s with
  | nil =>
    cases h
    exact Nat.le_of_eq (Nat.zero_add _)
  | cons a actions ih =>
    obtain ⟨u, moves, rest⟩ := play_first h
    have first := moves.ticks cleared
    have later := ih (moves.cleared cleared) rest
    rw [← List.singleton_append, List.count_append]
    omega

/-- While the owner waits the ticker goes on as it has to. -/
theorem Moves.rest (h : Moves s a t) (cleared : s.running = false) (waits : s.joining = true)
    (ha : a ≠ .join) : t.joining = true ∧ s.phase.rest = a :: t.phase.rest := by
  cases h with
  | check h =>
    refine ⟨waits, ?_⟩
    rw [cleared, h]
    rfl
  | tick h =>
    refine ⟨waits, ?_⟩
    rw [h]
    rfl
  | join => exact absurd rfl ha
  | set free => exact absurd waits (Bool.not_eq_true _ ▸ free)
  | get free => exact absurd waits (Bool.not_eq_true _ ▸ free)
  | clear free => exact absurd waits (Bool.not_eq_true _ ▸ free)

theorem rest_of_waiting {actions : List Action} (cleared : s.running = false)
    (waits : s.joining = true) (inside : .join ∉ actions) (h : play s actions = some t) :
    actions <+: s.phase.rest := by
  induction actions generalizing s with
  | nil => exact List.nil_prefix
  | cons a actions ih =>
    obtain ⟨u, moves, rest⟩ := play_first h
    rw [List.mem_cons, not_or] at inside
    obtain ⟨waits', left⟩ := moves.rest cleared waits (Ne.symm inside.1)
    rw [left]
    exact (List.prefix_cons_inj a).2 (ih (moves.cleared cleared) waits' inside.2 rest)

theorem play_rest (cleared : s.running = false) (waits : s.joining = true) :
    ∃ t, play s (s.phase.rest ++ [.join]) = some t ∧ t.joining = false := by
  obtain ⟨count, running, phase, joining⟩ := s
  obtain rfl : running = false := cleared
  obtain rfl : joining = true := waits
  cases phase with
  | checking => exact ⟨_, rfl, rfl⟩
  | due => exact ⟨_, rfl, rfl⟩
  | finished => exact ⟨_, rfl, rfl⟩

/-! ## The ticker out of its loop -/

theorem Moves.finished (h : Moves s a t) (done : s.phase = .finished) :
    t.phase = .finished ∧ a ≠ .tick := by
  cases h with
  | check h => simp [done] at h
  | tick h => simp [done] at h
  | set | get | clear | join => exact ⟨done, by simp⟩

theorem finished_of_play {actions : List Action} (done : s.phase = .finished)
    (h : play s actions = some t) : t.phase = .finished ∧ .tick ∉ actions := by
  induction actions generalizing s with
  | nil =>
    cases h
    exact ⟨done, List.not_mem_nil⟩
  | cons a actions ih =>
    obtain ⟨u, moves, rest⟩ := play_first h
    obtain ⟨done', quiet⟩ := moves.finished done
    obtain ⟨last, none⟩ := ih done' rest
    exact ⟨last, List.not_mem_cons_of_ne_of_not_mem (Ne.symm quiet) none⟩

theorem Moves.joined (h : Moves s .join t) : t.phase = .finished := by
  cases h with
  | join waits done => exact done

theorem quiet_of_joined {before after : List Action}
    (h : play s (before ++ .join :: after) = some t) : t.phase = .finished ∧ .tick ∉ after := by
  obtain ⟨u, v, -, moves, rest⟩ := play_split h
  exact finished_of_play moves.joined rest

/-- The owner waits, and the ticker is out of its loop, only with the flag cleared. -/
structure Ordered (s : State) : Prop where
  waiting : s.joining = true → s.running = false
  finished : s.phase = .finished → s.running = false

theorem Moves.ordered (h : Moves s a t) (ordered : Ordered s) : Ordered t := by
  cases h with
  | check h =>
    refine ⟨ordered.waiting, ?_⟩
    cases running : s.running with
    | true => nofun
    | false => exact fun _ => rfl
  | tick => exact ⟨ordered.waiting, nofun⟩
  | clear => exact ⟨fun _ => rfl, fun _ => rfl⟩
  | join => exact ⟨nofun, ordered.finished⟩
  | set | get => exact ⟨ordered.waiting, ordered.finished⟩

theorem ordered_of_play {actions : List Action} (h : play start actions = some s) : Ordered s := by
  induction actions using List.reverseRecOn generalizing s with
  | nil =>
    cases h
    exact ⟨nofun, nofun⟩
  | append_singleton actions a ih =>
    obtain ⟨u, played, moves⟩ := play_last h
    exact moves.ordered (ih played)

/-! ## The timer that the owner sees -/

/-- What an action does to a timer without a ticker of its own. -/
def Action.onTimer (timer : DelayTimer) : Action → DelayTimer
  | set n => timer.set n
  | tick => timer.elapse 1
  | join => timer.stop
  | check | get _ | clear => timer

theorem Moves.not_mem_join {actions : List Action} (played : play start actions = some s)
    (h : Moves s .tick t) : .join ∉ actions := by
  intro mem
  obtain ⟨before, after, rfl⟩ := List.append_of_mem mem
  exact (h.finished (quiet_of_joined played).1).2 rfl

/-- A ticker makes a timer, which runs until the owner has joined the ticker. -/
theorem timer_of_play {actions : List Action} (h : play start actions = some s) :
    actions.foldl Action.onTimer .new = ⟨s.count, decide (.join ∉ actions)⟩ := by
  induction actions using List.reverseRecOn generalizing s with
  | nil =>
    cases h
    rfl
  | append_singleton actions a ih =>
    obtain ⟨u, played, moves⟩ := play_last h
    rw [List.foldl_append, ih played]
    cases moves with
    | tick due =>
      have running : .join ∉ actions := Moves.not_mem_join played (.tick due)
      simp [Action.onTimer, DelayTimer.elapse, running]
    | join => simp [Action.onTimer, DelayTimer.stop]
    | set => simp [Action.onTimer, DelayTimer.set]
    | check | get | clear => simp [Action.onTimer]

/-! ## Any interleaving -/

theorem ticksSince_of_not_mem {actions : List Action} (h : .tick ∉ actions) :
    ticksSince actions = 0 := by
  rw [ticksSince, List.count_eq_zero]
  intro mem
  exact h (List.mem_reverse.1 ((List.takeWhile_sublist _).mem mem))

theorem toNat_count_of_play {actions : List Action} (h : play start actions = some s) :
    s.count.toNat =
      (lastSet 0 actions).toNat - min (lastSet 0 actions).toNat (ticksSince actions) := by
  rw [count_of_play h, DelayTimer.toNat_lower]
  rfl

theorem get_of_joined {before between after : List Action} {n : UInt8}
    (h : play start (before ++ .join :: (between ++ .get n :: after)) = some s) :
    ∃ t, play start (before ++ [.join]) = some t ∧ n = lastSet t.count between := by
  obtain ⟨u, v, played, joined, rest⟩ := play_split h
  obtain ⟨w, _, later, got, -⟩ := play_split rest
  refine ⟨v, ?_, ?_⟩
  · rw [play_append, played, Option.bind_some, play_cons, step_of_moves joined]
    rfl
  · cases got with
    | get free =>
      have quiet := ticksSince_of_not_mem (finished_of_play joined.joined later).2
      rw [count_of_play later, quiet, DelayTimer.lower_zero]

theorem stop_of_joined {actions : List Action} (h : play start actions = some s)
    (joined : .join ∈ actions) (free : s.joining = false) :
    step s .clear = some { s with joining := true } ∧
      ∀ a t, step { s with joining := true } a = some t ↔ a = .join ∧ t = s := by
  obtain ⟨before, after, rfl⟩ := List.append_of_mem joined
  have phase : s.phase = .finished := (quiet_of_joined h).1
  have running : s.running = false := (ordered_of_play h).finished phase
  obtain ⟨count, running', phase', joining⟩ := s
  subst free running phase
  refine ⟨rfl, fun a t => ⟨fun stepped => ?_, ?_⟩⟩
  · cases moves_of_step stepped with
    | join => exact ⟨rfl, rfl⟩
    | check h => cases h
    | tick h => cases h
    | set free => cases free
    | get free => cases free
    | clear free => cases free
  · rintro ⟨rfl, rfl⟩
    rfl

/-- What the owner of a timer can rely on after some actions of both sides. -/
structure Fair (actions : List Action) (s : State) : Prop where
  /-- The count is what the ticks since the last set have left of it, and zero at the least. -/
  count : s.count.toNat =
    (lastSet 0 actions).toNat - min (lastSet 0 actions).toNat (ticksSince actions)
  get : ∀ before n after, actions = before ++ .get n :: after →
    n.toNat = (lastSet 0 before).toNat - min (lastSet 0 before).toNat (ticksSince before)
  stopping : ∀ before after, actions = before ++ .clear :: after → after.count .tick ≤ 1
  /-- A stop returns: nothing but the rest of the ticker's loop can come before the join. -/
  waiting : s.joining = true →
    (∃ t, play s (s.phase.rest ++ [.join]) = some t ∧ t.joining = false) ∧
      ∀ last t, .join ∉ last → play s last = some t → last <+: s.phase.rest
  stopped : ∀ before after, actions = before ++ .join :: after → .tick ∉ after
  /-- After a stop the count is frozen until it is set, and then it is what was set last. -/
  frozen : ∀ before between n after, actions = before ++ .join :: (between ++ .get n :: after) →
    ∃ t, play start (before ++ [.join]) = some t ∧ n = lastSet t.count between
  /-- After a stop a further one goes through at once and leaves the state as it was. -/
  again : .join ∈ actions → s.joining = false → step s .clear = some { s with joining := true } ∧
    ∀ a t, step { s with joining := true } a = some t ↔ a = .join ∧ t = s
  /-- The owner has a timer without a ticker of its own. It takes the sets and the ticks in their order,
  and runs until a stop returns. -/
  timer : actions.foldl Action.onTimer .new = ⟨s.count, decide (.join ∉ actions)⟩

/-- **A timer under any interleaving.** -/
theorem fair_of_play {actions : List Action} {s : State} (h : play start actions = some s) :
    Fair actions s := by
  have ordered := ordered_of_play h
  constructor
  case count => exact toNat_count_of_play h
  case get =>
    rintro before n after rfl
    obtain ⟨u, v, played, moves, -⟩ := play_split h
    cases moves with
    | get free => exact toNat_count_of_play played
  case stopping =>
    rintro before after rfl
    obtain ⟨u, v, -, moves, rest⟩ := play_split h
    cases moves with
    | clear free => exact ticks_of_cleared rfl rest
  case waiting =>
    intro waits
    have cleared := ordered.waiting waits
    exact ⟨play_rest cleared waits, fun last t => rest_of_waiting cleared waits⟩
  case stopped =>
    rintro before after rfl
    exact (quiet_of_joined h).2
  case frozen =>
    rintro before between n after rfl
    exact get_of_joined h
  case again => exact stop_of_joined h
  case timer => exact timer_of_play h

/-- The ticker is past its check when the flag is cleared, so that one more tick takes effect. The
timer is then set and stopped once more. -/
def overtaken : List Action :=
  [.check, .set 100, .tick, .get 99, .check, .clear, .tick, .check, .join, .get 98, .set 7, .clear,
    .join, .get 7]

theorem fair_of_play_overtaken :
    ∃ s, play start overtaken = some s ∧ s.count = 7 ∧ Fair overtaken s := by
  have played : play start overtaken = some ⟨7, false, .finished, false⟩ := by decide
  exact ⟨_, played, rfl, fair_of_play played⟩

end Chip8.Ticker
