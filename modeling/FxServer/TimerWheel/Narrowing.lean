import FxServer.TimerWheel.Ops

/-!
# FxServer.TimerWheel.Narrowing — which time differences an `int` can hold

`Step` measures the time since the last step, and `RunAt` the time from the last step to the
deadline, in 64 bits, and stores the difference in an `int`. `EventLoop::RunAfter` adds its
interval to the time that the clock shows before it calls `RunAt`, so the difference is the
interval and the time since the last step together.

Narrowing keeps the differences below `2^31` and changes every other one, so each condition is a
bound on one difference.

* `differences_exact_iff` — both are exact exactly when they are below `2^31`.
* `late_timer_overflows` — `RunAfter` of the largest `int`, a millisecond behind the last step.
-/

namespace FxServer

/-- `EventLoop::RunAfter` when the clock shows `now`. -/
def EventLoop.runAfter {Cb : Type} (timerMgr : TimerWheel Cb) (now : ℕ) (interval : ℤ) (cb : Cb) :
    Except Fault (TimerWheel Cb) := do
  check (0 ≤ interval)
  timerMgr.runAt (now + interval.toNat) cb

namespace TimerWheel

variable {Cb : Type}

/-- The interval that `Step(now)` uses is the time since the last step. -/
def StepExact (w : TimerWheel Cb) (now : ℕ) : Prop :=
  w.intervalTo now = (now : ℤ) - w.lastExpireTime

/-- The interval that `RunAt` uses for the loop's `RunAfter(interval)` is the time from the last
step to the deadline, and a timer that is registered has this deadline. -/
def RegistersExact (w : TimerWheel Cb) (now interval : ℕ) : Prop :=
  w.intervalTo (now + interval) = (now : ℤ) + interval - w.lastExpireTime ∧
    ∀ cb w', EventLoop.runAfter w now interval cb = .ok w' →
      ∃ t, w'.timers = w.timers ++ [t] ∧ t.expireTime = now + interval ∧ t.cb = cb

/-- The narrowed difference is the difference exactly below `2 ^ 31`. -/
theorem intervalTo_exact {w : TimerWheel Cb} {time : ℕ} (hclock : w.lastExpireTime ≤ time) :
    w.intervalTo time = (time : ℤ) - w.lastExpireTime ↔ time - w.lastExpireTime < 2 ^ 31 := by
  have hdiff : (time : ℤ) - w.lastExpireTime = ((time - w.lastExpireTime : ℕ) : ℤ) := by omega
  rw [hdiff]
  unfold intervalTo interval
  split
  · exact toInt_eq_self
  · exact iff_of_true (by omega) (by omega)

/-- With a clock that does not go back, the `int` in `Step` is exact if and only if the time
since the last step is below `2^31` ms, and the one in `RunAt` if and only if that time and the
interval together are. -/
theorem differences_exact_iff (w : TimerWheel Cb) (now interval : ℕ)
    (hclock : w.lastExpireTime ≤ now) :
    (StepExact w now ↔ now - w.lastExpireTime < 2 ^ 31) ∧
      (RegistersExact w now interval ↔ now - w.lastExpireTime + interval < 2 ^ 31) := by
  refine ⟨intervalTo_exact hclock, ?_⟩
  have hdeadline : w.lastExpireTime ≤ now + interval := hclock.trans (Nat.le_add_right _ _)
  have hexact : w.intervalTo (now + interval) = (now : ℤ) + interval - w.lastExpireTime ↔
      now - w.lastExpireTime + interval < 2 ^ 31 := by
    rw [← Nat.cast_add, intervalTo_exact hdeadline, Nat.sub_add_comm hclock]
  refine ⟨fun h => hexact.1 h.1, fun hnear => ⟨hexact.2 hnear, fun cb w' hok => ?_⟩⟩
  rcases bind_ok.1 hok with ⟨_, -, hok⟩
  rw [Int.toNat_natCast] at hok
  rcases runAfter_eq hok with ⟨pos, rfl⟩
  refine ⟨_, rfl, ?_, rfl⟩
  show (w.intervalTo (now + interval)).toNat + w.lastExpireTime = now + interval
  rw [hexact.2 hnear]
  show ((now : ℤ) + interval - w.lastExpireTime).toNat + w.lastExpireTime = now + interval
  omega

/-- A timer of `100` ms, `50` ms behind the last step. -/
theorem differences_exact_run :
    StepExact (new 5 : TimerWheel ℕ) 55 ∧ RegistersExact (new 5 : TimerWheel ℕ) 55 100 := by
  rcases differences_exact_iff (new 5 : TimerWheel ℕ) 55 100 (by decide) with ⟨hstep, hregisters⟩
  exact ⟨hstep.2 (by decide), hregisters.2 (by decide)⟩

/-- A millisecond behind the last step, the difference for the largest interval is `2^31`; it
becomes negative, and `FindPos` asserts that it is not. Behind a pause of `2^32` ms, a timer of
`100` ms is registered for the time `100`. -/
theorem late_timer_overflows :
    ¬ RegistersExact (new 0 : TimerWheel ℕ) 1 (2 ^ 31 - 1) ∧
      (EventLoop.runAfter (new 0 : TimerWheel ℕ) 1 (2 ^ 31 - 1) 7).map timers = .error .assertion ∧
      ¬ StepExact (new 0 : TimerWheel ℕ) (2 ^ 32) ∧
      (EventLoop.runAfter (new 0 : TimerWheel ℕ) (2 ^ 32) 100 7).map timers =
        .ok [⟨1, 100, 7⟩] := by
  refine ⟨fun h => absurd h.1 (by decide), by decide, ?_, by decide⟩
  unfold StepExact
  decide

end TimerWheel

end FxServer
