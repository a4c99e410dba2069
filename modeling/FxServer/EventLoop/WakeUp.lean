import FxServer.EventLoop
import FxServer.Machine

/-!
# FxServer.EventLoop.WakeUp — is a wake-up lost?

A loop, its thread and any number of other threads that call `QueueInLoop`. A step
is one step of `Run`, one call made by user code in the loop thread, or one half of
a `QueueInLoop` of another thread: the push, or the `WakeUp` behind it.

What has to hold differs from phase to phase: before `CallPendingFunctors` nothing
is needed, as the loop is about to take everything that is pending; behind it each
pending functor needs a wake-up. A wake-up may still be on its way in a thread that
has pushed, and the invariant counts those, too.

* `polls_awake` — as long as no timer callback queues a functor, the loop enters
  `Poll` with a functor pending only when it will be woken.
* `timer_callback_sleeps` — a timer callback queues a functor, and the loop goes to
  sleep over it: `calling_functors_` is false again when the timer callbacks run.
-/

namespace FxServer.EventLoop

open Machine

variable {H F : Type}

/-- The loop, and the threads that are between their push and their `WakeUp`. -/
structure Threads (H F : Type) where
  loop : EventLoop H F
  wakers : ℕ
deriving DecidableEq, Repr

/-- A step of the loop, of user code in it, or of another thread. -/
inductive Op (H F : Type) where
  | run
  | next
  | poll (active : List (Handler H))
  /-- the handlers of the next active channel -/
  | handle
  /-- the next functor -/
  | call
  /-- user code in the loop thread calls `QueueInLoop` -/
  | queueInLoop (f : F)
  | quit
  /-- another thread pushes in `QueueInLoop` -/
  | push (f : F)
  /-- and calls `WakeUp` in it -/
  | pushed
  /-- another thread calls `WakeUp`, as in `Quit` -/
  | wakeUp
deriving DecidableEq, Repr

/-- One step, and the functor it calls; a step that is not enabled changes nothing.
`Poll` reports the wake-up channel once at most, and when there is a value to read. -/
def step (s : Threads H F) : Op H F → Except Fault (Threads H F × Option F)
  | .run =>
    match s.loop.phase with
    | .idle => .ok ({ s with loop := s.loop.run }, none)
    | _ => .ok (s, none)
  | .next => .ok ({ s with loop := s.loop.next }, none)
  | .poll active =>
    match s.loop.phase with
    | .polling =>
      if active.countP Handler.isWakeUp ≤ min 1 s.loop.wakeUps then
        .ok ({ s with loop := s.loop.poll active }, none)
      else .ok (s, none)
    | _ => .ok (s, none)
  | .handle =>
    match s.loop.phase with
    | .handling (.wakeUp :: rest) =>
      .ok ({ s with loop := { s.loop.processWakeUp with phase := .handling rest } }, none)
    | .handling (.channel _ :: rest) =>
      .ok ({ s with loop := { s.loop with phase := .handling rest } }, none)
    | _ => .ok (s, none)
  | .call =>
    match s.loop.phase with
    | .calling (f :: rest) =>
      .ok ({ s with loop := { s.loop with phase := .calling rest } }, some f)
    | _ => .ok (s, none)
  | .queueInLoop f =>
    if s.loop.inUserCode then .ok ({ s with loop := s.loop.queueInLoop true f }, none)
    else .ok (s, none)
  | .quit => .ok ({ s with loop := { s.loop with quit := true } }, none)
  | .push f => .ok ({ s with loop := s.loop.push f, wakers := s.wakers + 1 }, none)
  | .pushed =>
    if 0 < s.wakers then
      .ok ({ s with loop := s.loop.wakeUp, wakers := s.wakers - 1 }, none)
    else .ok (s, none)
  | .wakeUp => .ok ({ s with loop := s.loop.wakeUp }, none)

def init : Threads H F := ⟨.new, 0⟩

/-- No functor is queued by a timer callback. -/
def NotByTimer (s : Threads H F) : Op H F → Prop
  | .queueInLoop _ => s.loop.phase ≠ .timers
  | _ => True

instance (s : Threads H F) : DecidablePred (NotByTimer s)
  | .queueInLoop _ =>
    match hp : s.loop.phase with
    | .timers => .isFalse fun h => h hp
    | .idle | .head | .polling | .handling _ | .period | .calling _ | .exited =>
      .isTrue (show s.loop.phase ≠ .timers by simp [hp])
  | .run | .next | .poll _ | .handle | .call | .quit | .push _ | .pushed | .wakeUp =>
    .isTrue trivial

/-- A pending functor comes with a wake-up, or with one to come. -/
def Awake (s : Threads H F) : Prop :=
  s.loop.functors ≠ [] → 0 < s.loop.wakeUps ∨ 0 < s.wakers

/-- What holds in each phase. Before the pending functors are called, nothing has to:
the loop is about to take them. -/
structure Inv (s : Threads H F) : Prop where
  /-- where the loop is about to take what is pending nothing is asked; elsewhere it is
  awake -/
  awake : match s.loop.phase with
    | .handling _ | .period => True
    | _ => Awake s
  /-- `calling_functors_` is set in `CallPendingFunctors`, and nowhere else -/
  calling : s.loop.callingFunctors = true ↔ ∃ rest, s.loop.phase = .calling rest
  /-- `started_` is set from the call of `Run` on -/
  started : s.loop.started = false ↔ s.loop.phase = .idle
  /-- the wake-up channel is active only while there is a value to read -/
  readable : ∀ rest, s.loop.phase = .handling rest →
    rest.countP Handler.isWakeUp ≤ s.loop.wakeUps

/-- Before anything is queued there is nothing to wake up for. -/
theorem init_inv : Inv (init : Threads H F) := by
  constructor <;> simp [init, new, Awake]

/-- `QueueInLoop` writes the wake-up when the loop runs functors or has not started. -/
theorem queueInLoop_awake {l : EventLoop H F} {f : F} {wakers : ℕ}
    (h : l.callingFunctors = true ∨ l.started = false) :
    Awake (⟨l.queueInLoop true f, wakers⟩ : Threads H F) := by
  have hneeds : (l.push f).needsWakeUp true = true := by
    rcases h with h | h <;> simp [needsWakeUp, push, h]
  intro _
  rw [queueInLoop, if_pos hneeds]
  exact .inl (Nat.succ_pos _)

/-- It moves neither the phase nor the flags, and takes back no wake-up. -/
theorem queueInLoop_fields (l : EventLoop H F) (inLoopThread : Bool) (f : F) :
    (l.queueInLoop inLoopThread f).phase = l.phase ∧
      (l.queueInLoop inLoopThread f).callingFunctors = l.callingFunctors ∧
      (l.queueInLoop inLoopThread f).started = l.started ∧
      l.wakeUps ≤ (l.queueInLoop inLoopThread f).wakeUps := by
  unfold queueInLoop
  split <;> simp [push, wakeUp]

/-- The steps of `Run` keep the invariant. -/
theorem next_inv {s : Threads H F} (h : Inv s) : Inv { s with loop := s.loop.next } := by
  rcases h with ⟨hawake, hcalling, hstarted, hreadable⟩
  unfold next
  split
  · -- the test of `quit_`
    rename_i hphase
    rw [hphase] at hawake hstarted hcalling
    split <;> constructor <;> simp_all [Awake]
  · rename_i hphase
    rw [hphase] at hstarted hcalling
    constructor <;> simp_all
  · -- the functors are swapped out: none is pending
    rename_i hphase
    rw [hphase] at hstarted
    constructor <;> simp_all [Awake]
  · rename_i hphase
    rw [hphase] at hawake hstarted
    constructor <;> simp_all [Awake]
  · rename_i hphase
    rw [hphase] at hawake hstarted hcalling
    constructor <;> simp_all [Awake]
  · exact ⟨hawake, hcalling, hstarted, hreadable⟩

/-- A functor queued by user code in the loop thread, except in a timer callback. -/
theorem queueInLoop_inv {s : Threads H F} {f : F} (h : Inv s) (huser : s.loop.inUserCode = true)
    (htimer : s.loop.phase ≠ .timers) :
    Inv { s with loop := s.loop.queueInLoop true f } := by
  rcases queueInLoop_fields s.loop true f with ⟨hphase, hflag, hstart, hwake⟩
  refine ⟨?_, ?_, ?_, ?_⟩
  · show match (s.loop.queueInLoop true f).phase with
      | .handling _ | .period => True
      | _ => Awake _
    rw [hphase]
    unfold inUserCode at huser
    split
    · trivial
    · trivial
    · -- before `Run`, or in the loop over the functors
      refine queueInLoop_awake ?_
      cases hp : s.loop.phase with
      | idle => exact .inr (h.started.2 hp)
      | calling rest => exact .inl (h.calling.2 ⟨rest, hp⟩)
      | timers => exact absurd hp htimer
      | head => simp [hp] at huser
      | polling => simp [hp] at huser
      | exited => simp [hp] at huser
      | handling rest => simp_all
      | period => simp_all
  · simpa [hphase, hflag] using h.calling
  · simpa [hphase, hstart] using h.started
  · intro rest hrest
    exact (h.readable rest (hphase ▸ hrest)).trans hwake

/-- More wake-ups, and a push that is followed by one, keep the invariant. -/
theorem Inv.mono {s : Threads H F} (h : Inv s) {functors : List F} {wakeUps wakers : ℕ}
    {quit : Bool} (hwake : s.loop.wakeUps ≤ wakeUps)
    (hawake : functors ≠ [] → s.loop.functors ≠ [] ∧ s.wakers ≤ wakers ∨ 0 < wakeUps ∨ 0 < wakers) :
    Inv ⟨{ s.loop with functors, wakeUps, quit }, wakers⟩ := by
  refine ⟨?_, h.calling, h.started, fun rest hrest => (h.readable rest hrest).trans hwake⟩
  have hold := h.awake
  show match s.loop.phase with
    | .handling _ | .period => True
    | _ => Awake _
  split
  · trivial
  · trivial
  · -- wherever the loop is not already on its way to the functors
    rename_i h₁ h₂
    have hold : Awake s := by
      revert hold
      split <;> simp_all
    intro hne
    rcases hawake hne with ⟨hne', hle⟩ | hpos
    · rcases hold hne' with hpos | hpos
      · exact .inl (Nat.lt_of_lt_of_le hpos hwake)
      · exact .inr (Nat.lt_of_lt_of_le hpos hle)
    · exact hpos

/-- One channel of those that `Poll` has found active. -/
theorem handle_inv {s s' : Threads H F} {out : Option F} (h : Inv s)
    (hok : step s .handle = .ok (s', out)) : Inv s' := by
  simp only [step] at hok
  split at hok
  · -- the wake-up channel: one value is read
    rename_i rest hphase
    cases hok
    refine ⟨trivial, by simp [processWakeUp, hphase, h.calling],
      by simp [processWakeUp, hphase, h.started], ?_⟩
    rintro rest' ⟨rfl⟩
    have hreadable := h.readable _ hphase
    rw [List.countP_cons_of_pos rfl] at hreadable
    show rest.countP _ ≤ s.loop.wakeUps - 1
    omega
  · -- any other channel reads nothing of the pipe
    rename_i c rest hphase
    cases hok
    refine ⟨trivial, by simp [hphase, h.calling], by simp [hphase, h.started], ?_⟩
    rintro rest' ⟨rfl⟩
    have hreadable := h.readable _ hphase
    rwa [List.countP_cons_of_neg (by simp [Handler.isWakeUp])] at hreadable
  · cases hok
    exact h

/-- Every step but a `QueueInLoop` from a timer callback keeps the loop awake. -/
theorem step_inv (s : Threads H F) (op : Op H F) (s' : Threads H F) (out : Option F) (h : Inv s)
    (hguard : NotByTimer s op) (hok : step s op = .ok (s', out)) : Inv s' := by
  cases op with
  | run =>
    simp only [step] at hok
    split at hok
    · rename_i hphase
      cases hok
      have hawake := h.awake
      rw [hphase] at hawake
      exact ⟨hawake, by simp [run, hphase, h.calling], by simp [run], by simp [run]⟩
    · cases hok
      exact h
  | next =>
    cases hok
    exact next_inv h
  | poll active =>
    simp only [step] at hok
    split at hok
    · rename_i hphase
      split at hok
      · rename_i hactive
        cases hok
        refine ⟨trivial, by simp [poll, hphase, h.calling], by simp [poll, hphase, h.started], ?_⟩
        rintro rest ⟨rfl⟩
        exact hactive.trans (Nat.min_le_right _ _)
      · cases hok
        exact h
    · cases hok
      exact h
  | handle => exact handle_inv h hok
  | call =>
    simp only [step] at hok
    split at hok
    · rename_i f rest hphase
      cases hok
      have hawake := h.awake
      rw [hphase] at hawake
      refine ⟨hawake, ?_, by simp [hphase, h.started], by simp⟩
      have := h.calling.2 ⟨_, hphase⟩
      simpa using this
    · cases hok
      exact h
  | queueInLoop f =>
    simp only [step] at hok
    split at hok
    · rename_i huser
      cases hok
      exact queueInLoop_inv h huser hguard
    · cases hok
      exact h
  | quit =>
    cases hok
    exact h.mono (Nat.le_refl _) fun hne => .inl ⟨hne, Nat.le_refl _⟩
  | push f =>
    cases hok
    exact h.mono (Nat.le_refl _) fun _ => .inr (.inr (Nat.succ_pos _))
  | pushed =>
    simp only [step] at hok
    split at hok
    · cases hok
      exact h.mono (Nat.le_succ _) fun _ => .inr (.inl (Nat.succ_pos _))
    · cases hok
      exact h
  | wakeUp =>
    cases hok
    exact h.mono (Nat.le_succ _) fun _ => .inr (.inl (Nat.succ_pos _))

/-- In every run in which no timer callback queues a functor: whenever the loop is in
`Poll` with a functor pending, a wake-up is in the pipe or about to be written. -/
theorem polls_awake (ops : List (Op H F)) (h : Guarded step NotByTimer init ops)
    (s : Threads H F) (outs : List (Option F)) (hrun : Machine.run step init ops = .ok (s, outs))
    (hpoll : s.loop.phase = .polling) : Awake s := by
  have hinv := inv_of_run _ step_inv init_inv h hrun
  have hawake := hinv.awake
  rwa [hpoll] at hawake

/-- A loop that has not started yet, with one functor queued. -/
theorem polls_awake_run :
    Awake (⟨⟨[8], false, false, true, 1, .polling⟩, 0⟩ : Threads ℕ ℕ) :=
  polls_awake [.run, .next, .poll [], .next, .next, .queueInLoop 8, .next, .next, .next]
    (by decide) _ _ rfl rfl

/-- The functor `7` is queued by a timer callback. In the next iteration the loop is
in `Poll`, the functor is pending and nothing wakes the loop. -/
theorem timer_callback_sleeps :
    Machine.run step (init : Threads ℕ ℕ)
        [.run, .next, .poll [], .next, .next, .next, .queueInLoop 7, .next, .next] =
      .ok (⟨⟨[7], false, false, true, 0, .polling⟩, 0⟩, List.replicate 9 none) ∧
    ¬ Awake (⟨⟨[7], false, false, true, 0, .polling⟩, 0⟩ : Threads ℕ ℕ) :=
  ⟨by decide, by simp [Awake]⟩

end FxServer.EventLoop
