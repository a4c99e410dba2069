import FxServer.EventLoop.WakeUp
import FxServer.TimerWheel.Narrowing
import FxServer.TimerWheel.SleepQueue

/-!
# FxServer.EventLoop.Timeout — how long the loop lets `Poll` wait

`Run` looks at the clock when `Poll` has returned. Then handlers, functors and timer callbacks
run, and the next timeout is counted from the time that `Run` has seen, not from the time it is.

The invariant relates the queue of the wheel to the time that `Run` has seen last, which is all
that `NextTimeout` is given. It is kept by every operation, whatever the clock does. The clock
comes in once, where the timeout is compared with the time that is left when `Poll` is called.

* `polls_in_time_iff` — the timeout ends before the earliest deadline exactly when the clock has
  not moved on since `Poll` returned, or the deadline was over by then.
* `work_delays_poll` — a handler sets a timer of `100` ms and works for `50` ms; the timeout
  is `100`.
-/

namespace FxServer.EventLoop

open Machine TimerWheel

variable {H F Cb : Type}

/-- The loop with its timers and the clock. -/
structure Timed (H F Cb : Type) where
  threads : Threads H F
  timerMgr : TimerWheel Cb
  /-- what `base::Now()` returns -/
  clock : ℕ
  /-- the variable `now` of `Run`; `start_time` before the first `Poll` -/
  now : ℕ
  timeout : ℤ

namespace Timed

def new (built : ℕ) : Timed H F Cb := ⟨init, .new built, built, built, -1⟩

/-- A step of the loop, a call of user code on its timers, or time that passes. -/
inductive Op (H F Cb : Type) where
  /-- time goes by -/
  | tick (ms : ℕ)
  | loop (op : EventLoop.Op H F)
  /-- user code in the loop thread calls `RunAfter` -/
  | runAfter (interval : ℤ) (cb : Cb)
  /-- and `RemoveTimer` -/
  | removeTimer (id : ℕ)
deriving DecidableEq, Repr

/-- What `Run` does about timers on its way from one phase to another, and the timeout that it
gives `Poll`. The callbacks that `Step` hands out are user code of the phase behind it. -/
def onPhase (s : Timed H F Cb) : Phase H F → Phase H F → Except Fault (Timed H F Cb × Option ℤ)
  | .idle, .head =>
    let timerMgr := s.timerMgr.start s.clock
    .ok ({ s with timerMgr, now := s.clock, timeout := timerMgr.nextTimeout s.clock }, none)
  | .head, .polling => .ok (s, some s.timeout)
  | .polling, .handling _ => .ok ({ s with now := s.clock }, none)
  | .calling _, .timers => do
    let (timerMgr, _) ← s.timerMgr.step s.now []
    .ok ({ s with timerMgr }, none)
  | .timers, .head => .ok ({ s with timeout := s.timerMgr.nextTimeout s.now }, none)
  | _, _ => .ok (s, none)

/-- One step; user code that cannot run changes nothing. -/
def step (s : Timed H F Cb) : Op H F Cb → Except Fault (Timed H F Cb × Option ℤ)
  | .tick ms => .ok ({ s with clock := s.clock + ms }, none)
  | .loop op => do
    let (threads, _) ← EventLoop.step s.threads op
    onPhase { s with threads } s.threads.loop.phase threads.loop.phase
  | .runAfter interval cb =>
    if s.threads.loop.inUserCode then do
      let timerMgr ← EventLoop.runAfter s.timerMgr s.clock interval cb
      .ok ({ s with timerMgr }, none)
    else .ok (s, none)
  | .removeTimer id =>
    if s.threads.loop.inUserCode then do
      let timerMgr ← s.timerMgr.removeTimer id
      .ok ({ s with timerMgr }, none)
    else .ok (s, none)

/-! ## The contract and the condition -/

/-- Timers are registered when the loop has started, and `FindPos` reports no overflow. -/
def InRoom (s : Timed H F Cb) : Op H F Cb → Prop
  | .runAfter interval _ => s.threads.loop.phase ≠ .idle ∧
    s.timerMgr.position + s.timerMgr.intervalTo (s.clock + interval.toNat) < 2 ^ 31
  | .loop .next => s.threads.loop.phase = .calling [] →
    s.timerMgr.position + s.timerMgr.intervalTo s.now < 2 ^ 31
  | _ => True

/-- A `Step` that finds a timer pending comes less than `2^31` ms after the last one. -/
def StepsInTime (s : Timed H F Cb) : Op H F Cb → Prop
  | .loop .next => s.threads.loop.phase = .calling [] →
    s.timerMgr.timers = [] ∨ s.now - s.timerMgr.lastExpireTime < 2 ^ 31
  | _ => True

/-- The time at which `Poll` is called is the one that `Run` has seen, or a deadline was over
by then. -/
def PollsAtOnce (s : Timed H F Cb) : Op H F Cb → Prop
  | .loop .next => s.threads.loop.phase = .head → s.threads.loop.quit = false →
    s.timerMgr.timers = [] ∨ s.clock = s.now ∨ ∃ t ∈ s.timerMgr.timers, t.expireTime ≤ s.now
  | _ => True

/-- While a timer is pending, `Poll` is not told to wait without a timeout, nor for longer than
to the earliest deadline. -/
def PollsInTime (s : Timed H F Cb) (op : Op H F Cb) : Prop :=
  ∀ s' timeout, step s op = .ok (s', some timeout) → s.timerMgr.timers ≠ [] →
    timeout ≠ -1 ∧ timeout ≤ sleepTime (s.timerMgr.timers.map Timer.expireTime) s.clock

section

variable [DecidableEq H] [DecidableEq F]

instance (s : Timed H F Cb) : DecidablePred (InRoom s)
  | .runAfter interval _ => inferInstanceAs (Decidable (s.threads.loop.phase ≠ .idle ∧
      s.timerMgr.position + s.timerMgr.intervalTo (s.clock + interval.toNat) < 2 ^ 31))
  | .loop .next => inferInstanceAs (Decidable (s.threads.loop.phase = .calling [] →
      s.timerMgr.position + s.timerMgr.intervalTo s.now < 2 ^ 31))
  | .tick _ | .removeTimer _ | .loop .run | .loop (.poll _) | .loop .handle | .loop .call
  | .loop (.queueInLoop _) | .loop .quit | .loop (.push _) | .loop .pushed | .loop .wakeUp =>
    .isTrue trivial

instance (s : Timed H F Cb) : DecidablePred (StepsInTime s)
  | .loop .next =>
    have : Decidable (s.timerMgr.timers = []) := decidable_of_iff _ List.isEmpty_iff
    inferInstanceAs (Decidable (s.threads.loop.phase = .calling [] →
      s.timerMgr.timers = [] ∨ s.now - s.timerMgr.lastExpireTime < 2 ^ 31))
  | .tick _ | .runAfter _ _ | .removeTimer _ | .loop .run | .loop (.poll _) | .loop .handle
  | .loop .call | .loop (.queueInLoop _) | .loop .quit | .loop (.push _) | .loop .pushed
  | .loop .wakeUp => .isTrue trivial

end

end Timed

/-! ## Phases -/

/-- `Run` goes from one phase to the next, or stays. -/
inductive Moves : Phase H F → Phase H F → Prop
  | stay (p) : Moves p p
  | start : Moves .idle .head
  | exit : Moves .head .exited
  | poll : Moves .head .polling
  | wakeUp (active) : Moves .polling (.handling active)
  | handled (h rest) : Moves (.handling (h :: rest)) (.handling rest)
  | period : Moves (.handling []) .period
  | functors (fs) : Moves .period (.calling fs)
  | called (f rest) : Moves (.calling (f :: rest)) (.calling rest)
  | timers : Moves (.calling []) .timers
  | around : Moves .timers .head

/-- The loop's own step moves it along the phases of `Run`. -/
theorem next_moves (l : EventLoop H F) : Moves l.phase l.next.phase := by
  unfold next
  split
  all_goals
    rename_i hphase
  · split
    · rw [hphase]
      -- at the head of the loop: `quit_` is set, or `Poll` is next
      exact .exit
    · rw [hphase]
      exact .poll
  · rw [hphase]
    exact .period
  · rw [hphase]
    exact .functors _
  · rw [hphase]
    exact .timers
  · rw [hphase]
    exact .around
  · exact .stay _

/-- Every step does, since no other step touches the phase. -/
theorem step_moves {t t' : Threads H F} {op : Op H F} {called : Option F}
    (hok : step t op = .ok (t', called)) : Moves t.loop.phase t'.loop.phase := by
  cases op with
  | run =>
    simp only [step] at hok
    split at hok
    · rename_i hphase
      cases hok
      rw [hphase]
      exact .start
    · cases hok
      exact .stay _
  | next =>
    cases hok
    exact next_moves t.loop
  | poll active =>
    simp only [step] at hok
    split at hok
    · rename_i hphase
      split at hok
      · cases hok
        rw [hphase]
        -- `Poll` returns, if what is active can be
        exact .wakeUp active
      · cases hok
        exact .stay _
    · cases hok
      exact .stay _
  | handle =>
    simp only [step] at hok
    split at hok
    all_goals
      rename_i hphase
      cases hok
    · rw [hphase]
      exact .handled _ _
    · rw [hphase]
      exact .handled _ _
    · exact .stay _
  | call =>
    simp only [step] at hok
    split at hok
    · rename_i hphase
      cases hok
      rw [hphase]
      exact .called _ _
    · cases hok
      exact .stay _
  | queueInLoop f =>
    simp only [step] at hok
    split at hok
    · cases hok
      -- queueing leaves the loop where it is, whoever queues
      rw [(queueInLoop_fields t.loop true f).1]
      exact .stay _
    · cases hok
      exact .stay _
  | pushed =>
    simp only [step] at hok
    split at hok
    · cases hok
      exact .stay _
    · cases hok
      exact .stay _
  | quit | push | wakeUp =>
    cases hok
    exact .stay _

/-- Only `Run` itself leaves the test of `quit_`, and the loop over the functors behind its last
one. -/
theorem step_leaves {t t' : Threads H F} {op : EventLoop.Op H F} {called : Option F}
    (hok : EventLoop.step t op = .ok (t', called))
    (hphase : t.loop.phase = .head ∨ t.loop.phase = .calling [])
    (hmoves : t'.loop.phase ≠ t.loop.phase) :
    op = .next ∧ t' = { t with loop := t.loop.next } := by
  cases op with
  | next =>
    cases hok
    exact ⟨rfl, rfl⟩
  | queueInLoop f =>
    simp only [EventLoop.step] at hok
    split at hok
    · cases hok
      -- the steps of the others do not move the loop
      exact absurd (queueInLoop_fields t.loop true f).1 hmoves
    · cases hok
      exact absurd rfl hmoves
  | pushed =>
    simp only [EventLoop.step] at hok
    split at hok
    · cases hok
      exact absurd rfl hmoves
    · cases hok
      exact absurd rfl hmoves
  | quit | push | wakeUp =>
    cases hok
    exact absurd rfl hmoves
  | run | poll | handle | call =>
    -- these wait for other phases
    rcases hphase with hphase | hphase
    · simp only [EventLoop.step, hphase] at hok
      cases hok
      exact absurd rfl hmoves
    · simp only [EventLoop.step, hphase] at hok
      cases hok
      exact absurd rfl hmoves

namespace Timed

/-! ## The invariant -/

/-- The wheel counts from a time that `Run` has seen, and at the head of the loop the timeout is
the one for the time it has seen last. -/
structure Inv (s : Timed H F Cb) : Prop where
  /-- the timers stand where they are due, seen from the time that `Run` has seen last -/
  sleeps : Sleeps ⟨s.timerMgr, s.now⟩
  /-- the wheel counts from a time that `Run` has seen -/
  base_le : s.timerMgr.lastExpireTime ≤ s.now
  /-- and that time is over -/
  now_le : s.now ≤ s.clock
  /-- at the head of the loop the timeout is the one for the time that `Run` has seen -/
  timeout : s.threads.loop.phase = .head → s.timeout = s.timerMgr.nextTimeout s.now
  /-- no timer is registered before the loop runs -/
  idle : s.threads.loop.phase = .idle → s.timerMgr.timers = []

theorem new_inv (built : ℕ) : Inv (new built : Timed H F Cb) where
  sleeps := sleeps_new built
  base_le := Nat.le_refl _
  now_le := Nat.le_refl _
  timeout := by simp [new, init, EventLoop.new]
  idle _ := rfl

theorem onPhase_stay (s : Timed H F Cb) (p : Phase H F) : onPhase s p p = .ok (s, none) := by
  cases p <;> rfl

/-- A step is applied to the wheel as a call of a client. -/
theorem apply_step {w w' : TimerWheel Cb} {clock now : ℕ} {out : List Cb}
    (hok : w.step now [] = .ok (w', out)) :
    TimerWheel.apply ⟨w, clock⟩ (.step now) = .ok (⟨w', now⟩, out) := by
  simp only [TimerWheel.apply, hok, ok_bind]

/-- A timer added in user code keeps the invariant. -/
theorem Inv.runAfter {s : Timed H F Cb} {w : TimerWheel Cb} {interval : ℤ} {cb : Cb}
    (h : Inv s) (huser : s.threads.loop.inUserCode = true)
    (hroom : InRoom s (.runAfter interval cb))
    (hok : EventLoop.runAfter s.timerMgr s.clock interval cb = .ok w) :
    Inv { s with timerMgr := w } := by
  rcases hroom with ⟨hstarted, hroom⟩
  rcases bind_ok.1 hok with ⟨_, -, hok⟩
  have hbase : w.lastExpireTime = s.timerMgr.lastExpireTime := by
    rcases runAfter_eq hok with ⟨pos, rfl⟩
    rfl
  refine ⟨h.sleeps.runAfter hroom hok, hbase ▸ h.base_le, h.now_le, fun hhead => ?_,
    fun hidle => absurd hidle hstarted⟩
  -- no user code runs at the head of the loop
  have hhead : s.threads.loop.phase = .head := hhead
  simp [inUserCode, hhead] at huser

/-- A timer removed in user code keeps the invariant. -/
theorem Inv.removeTimer {s : Timed H F Cb} {w : TimerWheel Cb} {id : ℕ} (h : Inv s)
    (huser : s.threads.loop.inUserCode = true) (hok : s.timerMgr.removeTimer id = .ok w) :
    Inv { s with timerMgr := w } := by
  rcases removeTimer_inv h.sleeps.inv hok with ⟨t, ht, rfl, -, htimers, -, hbase, -⟩
  have hsleeps : Sleeps ⟨w, s.now⟩ :=
    apply_sleeps ⟨s.timerMgr, s.now⟩ (.removeTimer t.id) ⟨w, s.now⟩ [] h.sleeps
      ⟨⟨t, ht, rfl⟩, trivial⟩ (by simp only [TimerWheel.apply, hok, ok_bind])
  refine ⟨hsleeps, hbase ▸ h.base_le, h.now_le, fun hhead => ?_, fun hidle => ?_⟩
  · have hhead : s.threads.loop.phase = .head := hhead
    simp [inUserCode, hhead] at huser
  · have hnone := h.idle hidle
    show w.timers = []
    rw [htimers, hnone]
    rfl

/-- Stepping the wheel at the stored time keeps its queue and its hands together. -/
theorem Inv.stepTimers {s : Timed H F Cb} {w : TimerWheel Cb} {out : List Cb} (h : Inv s)
    (hroom : s.timerMgr.position + s.timerMgr.intervalTo s.now < 2 ^ 31)
    (htime : s.timerMgr.timers = [] ∨ s.now - s.timerMgr.lastExpireTime < 2 ^ 31)
    (hok : s.timerMgr.step s.now [] = .ok (w, out)) (threads : Threads H F)
    (hphase : threads.loop.phase = .timers) : Inv { s with threads, timerMgr := w } where
  sleeps := apply_sleeps ⟨s.timerMgr, s.now⟩ (.step s.now) ⟨w, s.now⟩ out h.sleeps
    ⟨hroom, htime.imp_right fun hgap => ⟨h.base_le, hgap⟩⟩ (apply_step hok)
  base_le := (step_returns hok).2.le
  now_le := h.now_le
  timeout hhead := by
    have hhead : threads.loop.phase = .head := hhead
    rw [hphase] at hhead
    cases hhead
  idle hidle := by
    have hidle : threads.loop.phase = .idle := hidle
    rw [hphase] at hidle
    cases hidle

/-- A step of the loop, with what it does to the timers on entering a phase, keeps the
invariant. -/
theorem Inv.loop {s s' : Timed H F Cb} {op : EventLoop.Op H F} {timeout : Option ℤ} (h : Inv s)
    (hroom : InRoom s (.loop op)) (htime : StepsInTime s (.loop op))
    (hok : step s (.loop op) = .ok (s', timeout)) : Inv s' := by
  rcases bind_ok.1 hok with ⟨⟨threads, called⟩, hstep, hok⟩
  have hmoves := step_moves hstep
  have hleaves := step_leaves hstep
  dsimp only at hok
  generalize hp : s.threads.loop.phase = p at hok hmoves hleaves
  generalize hp' : threads.loop.phase = p' at hok hmoves hleaves
  -- a step of other phases that leaves timers, clock and timeout alone
  have hsame : p' ≠ .head → p' ≠ .idle → Inv { s with threads } := fun hhead hidle =>
    ⟨h.sleeps, h.base_le, h.now_le, fun he => absurd (hp'.symm.trans he) hhead,
      fun he => absurd (hp'.symm.trans he) hidle⟩
  cases hmoves with
  | stay =>
    rw [onPhase_stay] at hok
    cases hok
    exact ⟨h.sleeps, h.base_le, h.now_le, fun he => h.timeout (hp.trans (hp'.symm.trans he)),
      fun he => h.idle (hp.trans (hp'.symm.trans he))⟩
  | start =>
    cases hok
    have hnone := h.idle hp
    have hsleeps : Sleeps ⟨s.timerMgr.start s.clock, s.clock⟩ :=
      apply_sleeps ⟨s.timerMgr, s.now⟩ (.start s.clock) _ [] h.sleeps ⟨hnone, trivial⟩ rfl
    refine ⟨hsleeps, Nat.le_refl _, Nat.le_refl _, fun _ => rfl, fun he => ?_⟩
    cases hp'.symm.trans he
  | exit | poll | handled h₁ rest | period | functors fs | called f rest =>
    cases hok
    exact hsame (by simp) (by simp)
  | wakeUp active =>
    cases hok
    refine ⟨⟨h.sleeps.inv, h.sleeps.queue⟩, h.base_le.trans h.now_le, Nat.le_refl _,
      fun he => ?_, fun he => ?_⟩
    · cases hp'.symm.trans he
    · cases hp'.symm.trans he
  | timers =>
    rcases bind_ok.1 hok with ⟨⟨w, out⟩, hw, hok⟩
    cases hok
    rcases hleaves (.inr rfl) (by simp) with ⟨rfl, -⟩
    exact h.stepTimers (hroom hp) (htime hp) hw threads hp'
  | around =>
    cases hok
    refine ⟨h.sleeps, h.base_le, h.now_le, fun _ => rfl, fun he => ?_⟩
    cases hp'.symm.trans he

/-- Every operation of a guarded run keeps the invariant. -/
theorem step_inv (s : Timed H F Cb) (op : Op H F Cb) (s' : Timed H F Cb) (out : Option ℤ)
    (h : Inv s) (hguard : InRoom s op ∧ StepsInTime s op) (hok : step s op = .ok (s', out)) :
    Inv s' := by
  rcases hguard with ⟨hroom, htime⟩
  cases op with
  | tick ms =>
    cases hok
    exact ⟨h.sleeps, h.base_le, h.now_le.trans (Nat.le_add_right _ _), h.timeout, h.idle⟩
  | loop op => exact h.loop hroom htime hok
  | runAfter interval cb =>
    simp only [step] at hok
    split at hok
    · rename_i huser
      rcases bind_ok.1 hok with ⟨w, hw, hok⟩
      cases hok
      exact h.runAfter huser hroom hw
    · cases hok
      exact h
  | removeTimer id =>
    simp only [step] at hok
    split at hok
    · rename_i huser
      rcases bind_ok.1 hok with ⟨w, hw, hok⟩
      cases hok
      exact h.removeTimer huser hw
    · cases hok
      exact h

/-! ## The timeout -/

/-- A timeout that is counted from `now` ends in time just when it is counted from `clock`, or
is `0`. -/
theorem sleepTime_le_iff {deadlines : List ℕ} {now clock : ℕ} (hsome : deadlines ≠ [])
    (hnow : now ≤ clock) :
    (sleepTime deadlines now ≠ -1 ∧ sleepTime deadlines now ≤ sleepTime deadlines clock) ↔
      clock = now ∨ ∃ e ∈ deadlines, e ≤ now := by
  obtain ⟨earliest, hmin⟩ : ∃ e, deadlines.min? = some e :=
    Option.ne_none_iff_exists'.1 fun hnone => hsome (List.min?_eq_none_iff.1 hnone)
  rcases List.min?_eq_some_iff.1 hmin with ⟨hmem, hle⟩
  have hover : (∃ e ∈ deadlines, e ≤ now) ↔ earliest ≤ now := by
    constructor
    · rintro ⟨e, he, henow⟩
      exact (hle e he).trans henow
    · intro h
      exact ⟨earliest, hmem, h⟩
  rw [hover]
  simp only [sleepTime, hmin]
  omega

/-- `Poll` is called with the timeout that `Run` holds, unless `quit_` is set. -/
theorem polls_of_head {s : Timed H F Cb} (hhead : s.threads.loop.phase = .head)
    (hquit : s.threads.loop.quit = false) :
    ∃ s', step s (.loop .next) = .ok (s', some s.timeout) := by
  have hnext : s.threads.loop.next = { s.threads.loop with phase := .polling } := by
    simp [next, hhead, hquit]
  refine ⟨{ s with threads := { s.threads with loop := s.threads.loop.next } }, ?_⟩
  simp only [step, EventLoop.step, ok_bind, hnext, hhead, onPhase]

/-- And it is called nowhere else. -/
theorem polls_only {s s' : Timed H F Cb} {op : Op H F Cb} {timeout : ℤ}
    (hok : step s op = .ok (s', some timeout)) :
    op = .loop .next ∧ s.threads.loop.phase = .head ∧ s.threads.loop.quit = false ∧
      timeout = s.timeout := by
  cases op with
  | tick ms => cases hok
  | runAfter interval cb =>
    simp only [step] at hok
    split at hok
    · rcases bind_ok.1 hok with ⟨w, -, hok⟩
      cases hok
    · cases hok
  | removeTimer id =>
    simp only [step] at hok
    split at hok
    · rcases bind_ok.1 hok with ⟨w, -, hok⟩
      cases hok
    · cases hok
  | loop op =>
    rcases bind_ok.1 hok with ⟨⟨threads, called⟩, hstep, hok⟩
    have hmoves := step_moves hstep
    have hleaves := step_leaves hstep
    dsimp only at hok
    generalize hp : s.threads.loop.phase = p at hok hmoves hleaves
    generalize hp' : threads.loop.phase = p' at hok hmoves hleaves
    cases hmoves with
    | poll =>
      -- the test of `quit_`
      cases hok
      rcases hleaves (.inl rfl) (by simp) with ⟨rfl, rfl⟩
      refine ⟨rfl, rfl, ?_, rfl⟩
      cases hquit : s.threads.loop.quit with
      | false => rfl
      | true => simp [next, hp, hquit] at hp'
    | stay =>
      -- another thread, or a call that returns
      rw [onPhase_stay] at hok
      cases hok
    | timers =>
      rcases bind_ok.1 hok with ⟨⟨w, out⟩, -, hok⟩
      cases hok
    | start | exit | wakeUp | handled | period | functors | called | around => cases hok

/-- The timeout at the head of the loop is right just when the clock shows the time that `Run`
has seen, or a deadline was over by then. -/
theorem Inv.timeout_iff {s : Timed H F Cb} (h : Inv s) (hhead : s.threads.loop.phase = .head)
    (hsome : s.timerMgr.timers ≠ []) :
    (s.timeout ≠ -1 ∧ s.timeout ≤ sleepTime (s.timerMgr.timers.map Timer.expireTime) s.clock) ↔
      s.clock = s.now ∨ ∃ t ∈ s.timerMgr.timers, t.expireTime ≤ s.now := by
  rw [h.timeout hhead, h.sleeps.agrees.timeout s.now h.base_le,
    sleepTime_le_iff (by simpa using hsome) h.now_le]
  simp only [List.mem_map, exists_exists_and_eq_and]

/-- Under the invariant, `PollsInTime` and `PollsAtOnce` say the same of every operation. -/
theorem Inv.pollsInTime_iff {s : Timed H F Cb} (h : Inv s) (op : Op H F Cb) :
    PollsInTime s op ↔ PollsAtOnce s op := by
  constructor
  · intro hintime
    unfold PollsAtOnce
    split
    · intro hhead hquit
      rcases Classical.em (s.timerMgr.timers = []) with hnone | hsome
      · exact .inl hnone
      · -- the head of the loop does go into `Poll` with the stored timeout
        rcases polls_of_head hhead hquit with ⟨s', hpolls⟩
        exact .inr ((h.timeout_iff hhead hsome).1 (hintime s' s.timeout hpolls hsome))
    · trivial
  · intro hatonce s' timeout hok hsome
    rcases polls_only hok with ⟨rfl, hhead, hquit, rfl⟩
    refine (h.timeout_iff hhead hsome).2 ?_
    exact (hatonce hhead hquit).resolve_left hsome

/-- In every run whose steps come in time: whenever `Poll` is called while a timer is pending,
its timeout ends before the earliest deadline, if and only if the clock has not moved on since
the last `Poll` returned or a deadline was over by then. -/
theorem polls_in_time_iff (built : ℕ) (ops : List (Op H F Cb))
    (h : Guarded step (fun s op => InRoom s op ∧ StepsInTime s op) (new built) ops) :
    Guarded step PollsInTime (new built) ops ↔ Guarded step PollsAtOnce (new built) ops :=
  Guarded.iff_of_inv Inv step_inv (fun _ op hs _ => hs.pollsInTime_iff op) (new_inv built) h

/-- A handler sets a timer of `100` ms and goes on for `50` ms. -/
def slowHandler : List (Op Unit Unit Unit) :=
  [.loop .run, .loop .next, .tick 5, .loop (.poll [.channel ()]), .runAfter 100 (), .tick 50,
    .loop .handle, .loop .next, .loop .next, .loop .next, .loop .next]

/-- The run of `slowHandler`, whose handler works between the wake-up and the next poll. -/
theorem polls_in_time_run :
    Guarded step PollsInTime (new 7) (slowHandler ++ [.loop .next]) ↔
      Guarded step PollsAtOnce (new 7) (slowHandler ++ [.loop .next]) :=
  polls_in_time_iff 7 (slowHandler ++ [.loop .next]) (by decide +kernel)

/-- Then `Poll` may wait `100` ms, although only `50` are left. -/
theorem work_delays_poll :
    Guarded step (fun s op => InRoom s op ∧ StepsInTime s op) (new 7)
        (slowHandler ++ [.loop .next]) ∧
      (∃ s outs s', Machine.run step (new 7) slowHandler = .ok (s, outs) ∧
        s.timerMgr.timers ≠ [] ∧
        sleepTime (s.timerMgr.timers.map Timer.expireTime) s.clock = 50 ∧
        step s (.loop .next) = .ok (s', some 100)) ∧
      ¬ Guarded step PollsInTime (new 7) (slowHandler ++ [.loop .next]) := by
  refine ⟨by decide +kernel, ?_⟩
  -- one evaluation of the run for all that is said about it
  have hshort : (Machine.run step (new 7) slowHandler).map (fun r =>
      (r.1.timerMgr.timers.isEmpty, sleepTime (r.1.timerMgr.timers.map Timer.expireTime) r.1.clock,
        (step r.1 (.loop .next)).map Prod.snd)) = .ok (false, 50, .ok (some 100)) := by
    decide +kernel
  rcases map_ok.1 hshort with ⟨⟨s, outs⟩, hrun, hshort⟩
  simp only [Prod.mk.injEq] at hshort
  rcases hshort with ⟨hsome, hleft, hpoll⟩
  rcases map_ok.1 hpoll with ⟨⟨s', timeout⟩, hpoll, rfl⟩
  have hsome : s.timerMgr.timers ≠ [] := List.isEmpty_eq_false_iff.1 hsome
  refine ⟨⟨s, outs, s', hrun, hsome, hleft, hpoll⟩, fun hintime => ?_⟩
  rcases (hintime.drop hrun).1 s' 100 hpoll hsome with ⟨-, hle⟩
  rw [hleft] at hle
  exact absurd hle (by decide)

end Timed

end FxServer.EventLoop
