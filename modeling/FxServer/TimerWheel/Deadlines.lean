import FxServer.TimerWheel.Ops

/-!
# FxServer.TimerWheel.Deadlines — the wheel refines a plain set of deadlines

`Deadlines` says what the wheel is for: a list of pending timers, from which a
step takes those that have expired. `Represents` relates a wheel to it; every
call of a client that keeps to `Admissible` and steps promptly keeps them related
and hands out the same callbacks.

The abstract wheel has no hands and no slots: a timer and its deadline, and a step
hands out what is due. That the wheel of slots does the same is the step lemma of
`FxServer.TimerWheel.Step` at the deadlines themselves, with the gap small enough
not to be narrowed.

* `apply_refines` — one call.
* `step_serves_deadlines` — after any run, a `Step` hands out what has expired.
* `long_gap_strands_timer` — a step `2^32 + 5` ms after the last one moves the
  hands by `5` only, and a timer that has expired stays.
-/

namespace FxServer.TimerWheel

open Machine MixedRadix

variable {Cb : Type}

/-! ## The abstract timer -/

/-- A set of deadlines, in the order in which they were set. -/
structure Deadlines (Cb : Type) where
  pending : List (Timer Cb)
  lastId : ℕ
  /-- intervals count from here -/
  base : ℕ
deriving DecidableEq, Repr

namespace Deadlines

/-- No timer, and the base time. -/
def new (now : ℕ) : Deadlines Cb := ⟨[], 0, now⟩

/-- A timer with the next id, due `interval` after the base time. -/
def register (d : Deadlines Cb) (interval : ℤ) (cb : Cb) : Deadlines Cb :=
  { d with
    pending := d.pending ++ [⟨d.lastId + 1, interval.toNat + d.base, cb⟩]
    lastId := d.lastId + 1 }

/-- The calls of a client, served as they should be. -/
def apply (d : Deadlines Cb) : Op Cb → Deadlines Cb × List Cb
  | .runAfter interval cb => (d.register interval cb, [])
  | .runAt expireTime cb => (d.register (interval d.base expireTime) cb, [])
  | .removeTimer id => ({ d with pending := d.pending.filter (·.id ≠ id) }, [])
  | .start now => ({ d with base := now }, [])
  | .step now =>
    ({ d with pending := d.pending.filter (now < ·.expireTime), base := now },
      (d.pending.filter (·.expireTime ≤ now)).map Timer.cb)

end Deadlines

/-! ## The contract of a client -/

/-- The clock never goes back, `Start` finds no timer pending, only pending timers
are removed, and `FindPos` gets an interval that it has room for. -/
def Admissible (s : Clocked Cb) : Op Cb → Prop
  | .runAfter interval _ => 0 ≤ interval ∧ s.wheel.position + interval < 2 ^ 31
  | .runAt expireTime _ =>
    0 ≤ s.wheel.intervalTo expireTime ∧ s.wheel.position + s.wheel.intervalTo expireTime < 2 ^ 31
  | .removeTimer id => ∃ t ∈ s.wheel.timers, t.id = id
  | .start now => s.clock ≤ now ∧ s.wheel.timers = []
  | .step now => s.clock ≤ now ∧ s.wheel.position + s.wheel.intervalTo now < 2 ^ 31

/-- A step comes less than `2^31` ms after the last one. -/
def Prompt (s : Clocked Cb) : Op Cb → Prop
  | .step now => now - s.wheel.lastExpireTime < 2 ^ 31
  | _ => True

instance (s : Clocked Cb) : DecidablePred (Admissible s)
  | .runAfter interval _ =>
    inferInstanceAs (Decidable (0 ≤ interval ∧ s.wheel.position + interval < 2 ^ 31))
  | .runAt expireTime _ => inferInstanceAs (Decidable (0 ≤ s.wheel.intervalTo expireTime ∧
      s.wheel.position + s.wheel.intervalTo expireTime < 2 ^ 31))
  | .removeTimer id => inferInstanceAs (Decidable (∃ t ∈ s.wheel.timers, t.id = id))
  | .start now => inferInstanceAs (Decidable (s.clock ≤ now ∧ s.wheel.timers = []))
  | .step now => inferInstanceAs
      (Decidable (s.clock ≤ now ∧ s.wheel.position + s.wheel.intervalTo now < 2 ^ 31))

instance (s : Clocked Cb) : DecidablePred (Prompt s)
  | .step now => inferInstanceAs (Decidable (now - s.wheel.lastExpireTime < 2 ^ 31))
  | .runAfter _ _ => .isTrue trivial
  | .runAt _ _ => .isTrue trivial
  | .removeTimer _ => .isTrue trivial
  | .start _ => .isTrue trivial

/-! ## Refinement -/

/-- The wheel holds the pending timers of `d`. -/
structure Represents (s : Clocked Cb) (d : Deadlines Cb) : Prop where
  /-- every timer stands exactly where it is due -/
  inv : Inv Exact s.wheel
  /-- and its deadline is in the queue -/
  queue : QueueInv s.wheel
  /-- the timers are the abstract ones -/
  timers : s.wheel.timers = d.pending
  lastId : s.wheel.lastTimerId = d.lastId
  base : s.wheel.lastExpireTime = d.base
  /-- intervals count from the last time that the wheel was given -/
  clock : s.wheel.lastExpireTime = s.clock

theorem represents_new (built : ℕ) :
    Represents (Clocked.new built : Clocked Cb) (Deadlines.new built) :=
  ⟨new_inv Exact built, new_queueInv built, rfl, rfl, rfl, rfl⟩

/-- Registering in the wheel is registering a deadline. -/
theorem Represents.runAfter {s : Clocked Cb} {d : Deadlines Cb} (h : Represents s d)
    {interval : ℤ} (hnonneg : 0 ≤ interval) (hlt : s.wheel.position + interval < 2 ^ 31) (cb : Cb) :
    ∃ w, s.wheel.runAfter interval cb = .ok w ∧
      Represents { s with wheel := w } (d.register interval cb) := by
  rcases Int.eq_ofNat_of_zero_le hnonneg with ⟨n, rfl⟩
  rcases runAfter_spec h.inv (n := n) (by omega) cb (exact_next s.wheel cb n) with
    ⟨w, hok, hinv, htimers, -, hbase, hid, hqueue⟩
  refine ⟨w, hok, hinv, h.queue.of_register htimers hqueue, ?_, ?_, hbase.trans h.base,
    hbase.trans h.clock⟩
  · show w.timers = d.pending ++ [⟨d.lastId + 1, n + d.base, cb⟩]
    rw [htimers, h.timers, nextTimer, h.lastId, h.base]
  · show w.lastTimerId = d.lastId + 1
    rw [hid, h.lastId]

/-- One call, matched by the set of deadlines. -/
theorem apply_refines (s : Clocked Cb) (d : Deadlines Cb) (op : Op Cb) (h : Represents s d)
    (hguard : Admissible s op ∧ Prompt s op) :
    ∃ s' out, apply s op = .ok (s', out) ∧ Represents s' (d.apply op).1 ∧
      out.Perm (d.apply op).2 := by
  rcases hguard with ⟨hadm, hprompt⟩
  cases op with
  | runAfter interval cb =>
    rcases h.runAfter hadm.1 hadm.2 cb with ⟨w, hok, hrep⟩
    exact ⟨{ s with wheel := w }, [], by simp only [apply, hok, ok_bind], hrep, .refl _⟩
  | runAt expireTime cb =>
    rcases h.runAfter hadm.1 hadm.2 cb with ⟨w, hok, hrep⟩
    refine ⟨{ s with wheel := w }, [], by simp only [apply, runAt, hok, ok_bind], ?_, .refl _⟩
    rwa [intervalTo, h.base] at hrep
  | removeTimer id =>
    rcases hadm with ⟨t, ht, rfl⟩
    rcases removeTimer_spec h.inv ht with ⟨w, hok, hinv, htimers, -, hbase, hid, hqueue⟩
    refine ⟨{ s with wheel := w }, [], by simp only [apply, hok, ok_bind],
      ⟨hinv, h.queue.of_remove h.inv.linked.ids ht htimers hqueue, ?_, hid.trans h.lastId,
        hbase.trans h.base, hbase.trans h.clock⟩, .refl _⟩
    rw [htimers, h.timers]
    rfl
  | start now =>
    rcases hadm with ⟨hclock, hnone⟩
    exact ⟨_, [], rfl, ⟨h.inv.start hnone Exact now, ⟨h.queue.sorted, h.queue.perm⟩, h.timers,
      h.lastId, rfl, rfl⟩, .refl _⟩
  | step now =>
    rcases hadm with ⟨hclock, hroom⟩
    -- below 2³¹ the interval is not narrowed, and the step is exact
    have hgap : now - s.wheel.lastExpireTime < 2 ^ 31 := hprompt
    have hinterval : s.wheel.intervalTo now = ((now - s.wheel.lastExpireTime : ℕ) : ℤ) :=
      interval_of_lt hgap
    rcases step_exact h.inv (h.clock ▸ hclock) (by omega) [] with
      ⟨w, fired, hok, hperm, htimers, hinv, hbase, hid, -, hqueue⟩
    refine ⟨{ wheel := w, clock := now }, fired.map Timer.cb,
      by simp only [apply, hok, ok_bind, List.nil_append],
      ⟨hinv, h.queue.of_step htimers hqueue, ?_, hid.trans h.lastId, hbase, hbase⟩, ?_⟩
    · rw [htimers, h.timers]
      rfl
    · rw [h.timers] at hperm
      exact hperm.map Timer.cb

/-- Every run of an admissible, prompt client. -/
theorem run_represents (built : ℕ) {ops : List (Op Cb)}
    (h : Guarded apply (fun s op => Admissible s op ∧ Prompt s op) (Clocked.new built) ops) :
    ∃ s outs, run apply (Clocked.new built) ops = .ok (s, outs) ∧
      Represents s (runTotal Deadlines.apply (Deadlines.new built) ops).1 ∧
      List.Forall₂ List.Perm outs (runTotal Deadlines.apply (Deadlines.new built) ops).2 :=
  run_refines apply_refines (represents_new built) h

/-- `Step(now)` does not fail; it appends the callbacks of the pending timers that
have expired, each once, takes these timers from `timers_` and the slots, and keeps
the others. -/
def StepServes (w : TimerWheel Cb) (now : ℕ) : Prop :=
  ∀ callbacks, ∃ (w' : TimerWheel Cb) (fired : List (Timer Cb)),
    w.step now callbacks = .ok (w', callbacks ++ fired.map Timer.cb) ∧
    fired.Perm (w.timers.filter (·.expireTime ≤ now)) ∧
    w'.timers = w.timers.filter (now < ·.expireTime) ∧ Linked w'.wheels w'.timers

/-- After every run of an admissible, prompt client, the wheel holds the pending
deadlines and a step serves them. -/
theorem step_serves_deadlines (built : ℕ) (ops : List (Op Cb)) (now : ℕ)
    (h : Guarded apply (fun s op => Admissible s op ∧ Prompt s op) (Clocked.new built)
      (ops ++ [.step now])) :
    ∃ s outs, run apply (Clocked.new built) ops = .ok (s, outs) ∧
      s.wheel.timers = (runTotal Deadlines.apply (Deadlines.new built) ops).1.pending ∧
      Linked s.wheel.wheels s.wheel.timers ∧
      List.Forall₂ List.Perm outs (runTotal Deadlines.apply (Deadlines.new built) ops).2 ∧
      StepServes s.wheel now := by
  rcases run_represents built h.take with ⟨s, outs, hrun, hrep, houts⟩
  rcases (h.drop hrun).1 with ⟨⟨hclock, hroom⟩, hgap⟩
  have hgap : now - s.wheel.lastExpireTime < 2 ^ 31 := hgap
  have hinterval : s.wheel.intervalTo now = ((now - s.wheel.lastExpireTime : ℕ) : ℤ) :=
    interval_of_lt hgap
  refine ⟨s, outs, hrun, hrep.timers, hrep.inv.linked, houts, fun callbacks => ?_⟩
  rcases step_exact hrep.inv (hrep.clock ▸ hclock) (by omega) callbacks with
    ⟨w', fired, hok, hperm, htimers, hinv, -⟩
  exact ⟨w', fired, hok, hperm, htimers, hinv.linked⟩

/-- Two timers, of which one is removed, and a step at the deadline of the other. -/
theorem step_serves_deadlines_run :
    ∃ s outs, run apply (Clocked.new 5) [.runAfter 100 7, .runAt 300 8, .removeTimer 2] =
        .ok (s, outs) ∧
      s.wheel.timers = [⟨1, 105, 7⟩] ∧ StepServes s.wheel 105 := by
  obtain ⟨s, outs, hrun, htimers, -, -, hserves⟩ :=
    step_serves_deadlines 5 [.runAfter 100 7, .runAt 300 8, .removeTimer 2] 105 (by decide)
  exact ⟨s, outs, hrun, htimers, hserves⟩

/-- A step `2^32 + 5` ms after the last one is an interval of `5` for `FindPos`. The
timer that was due after `100` ms stays in its slot. -/
theorem long_gap_strands_timer :
    Guarded apply Admissible (Clocked.new 0) [.runAfter 100 7, .step (2 ^ 32 + 5)] ∧
    (run apply (Clocked.new 0) [.runAfter 100 7, .step (2 ^ 32 + 5)]).map Prod.snd =
      .ok [[], []] ∧
    ¬ ∃ s outs, run apply (Clocked.new 0) [.runAfter 100 7] = .ok (s, outs) ∧
      StepServes s.wheel (2 ^ 32 + 5) := by
  refine ⟨by decide, by decide, ?_⟩
  rintro ⟨s, outs, hrun, hserves⟩
  rcases hserves [] with ⟨w', fired, hstep, hperm, -⟩
  have hnone : ((run apply (Clocked.new 0) [.runAfter 100 7]).bind fun r =>
      (r.1.wheel.step (2 ^ 32 + 5) []).map fun r' =>
        (r'.2, r.1.wheel.timers.filter (·.expireTime ≤ 2 ^ 32 + 5))) =
      .ok ([], [⟨1, 100, 7⟩]) := by decide
  simp only [hrun, hstep, Except.bind, Except.map, List.nil_append, Except.ok.injEq,
    Prod.mk.injEq, List.map_eq_nil_iff] at hnone
  rw [hnone.1, hnone.2] at hperm
  exact absurd hperm.length_eq (by decide)

end FxServer.TimerWheel
