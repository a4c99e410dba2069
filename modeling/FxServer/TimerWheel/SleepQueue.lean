import FxServer.TimerWheel.Deadlines

/-!
# FxServer.TimerWheel.SleepQueue — how long the loop may sleep

`expire_time_queue_` is kept apart from the slots: `Step` pops from it what has expired
by the clock, while the timers it hands out come from the slots that the hands pass.

Two sets of times are compared, those in the queue and those of the timers in the slots. `Step`
takes from the one by the clock and from the other by the hands, and the two agree as long as the
hands go as far as the clock does.

* `sleep_queue_agrees` — the queue holds the deadlines of the pending timers, and
  `NextTimeout` is the time to the earliest, as long as every `Step` that finds a timer
  pending goes on by less than `2^31` ms.
* `long_gap_empties_queue` — a step `2^32 + 5` ms after the last one pops the deadline of a
  timer that stays pending: `NextTimeout` is `-1`.
-/

namespace FxServer.TimerWheel

open Machine MixedRadix

variable {Cb : Type}

/-- A run without overflows in which `Start` finds no timer pending and only pending
timers are removed. -/
def Settled (s : Clocked Cb) : Op Cb → Prop
  | .runAfter interval _ => s.wheel.position + interval < 2 ^ 31
  | .runAt expireTime _ => s.wheel.position + s.wheel.intervalTo expireTime < 2 ^ 31
  | .removeTimer id => ∃ t ∈ s.wheel.timers, t.id = id
  | .start _ => s.wheel.timers = []
  | .step now => s.wheel.position + s.wheel.intervalTo now < 2 ^ 31

/-- A step that finds a timer pending goes on, by less than `2^31` ms. -/
def OnTime (s : Clocked Cb) : Op Cb → Prop
  | .step now => s.wheel.timers = [] ∨
    s.wheel.lastExpireTime ≤ now ∧ now - s.wheel.lastExpireTime < 2 ^ 31
  | _ => True

instance (s : Clocked Cb) : DecidablePred (Settled s)
  | .runAfter interval _ => inferInstanceAs (Decidable (s.wheel.position + interval < 2 ^ 31))
  | .runAt expireTime _ =>
    inferInstanceAs (Decidable (s.wheel.position + s.wheel.intervalTo expireTime < 2 ^ 31))
  | .removeTimer id => inferInstanceAs (Decidable (∃ t ∈ s.wheel.timers, t.id = id))
  | .start _ => decidable_of_iff _ List.isEmpty_iff
  | .step now => inferInstanceAs (Decidable (s.wheel.position + s.wheel.intervalTo now < 2 ^ 31))

instance (s : Clocked Cb) : DecidablePred (OnTime s)
  | .step now =>
    have : Decidable (s.wheel.timers = []) := decidable_of_iff _ List.isEmpty_iff
    inferInstanceAs (Decidable (s.wheel.timers = [] ∨
      s.wheel.lastExpireTime ≤ now ∧ now - s.wheel.lastExpireTime < 2 ^ 31))
  | .runAfter _ _ | .runAt _ _ | .removeTimer _ | .start _ => .isTrue trivial

/-- The time from `now` to the earliest of the deadlines; `-1`, for ever, if there is none. -/
def sleepTime (deadlines : List ℕ) (now : ℕ) : ℤ :=
  match deadlines.min? with
  | none => -1
  | some earliest => max 0 ((earliest : ℤ) - now)

/-- The queue and the pending timers agree, and so does the timeout. -/
structure QueueAgrees (w : TimerWheel Cb) : Prop where
  /-- the queue holds the deadlines of the pending timers -/
  perm : w.expireTimeQueue.Perm (w.timers.map Timer.expireTime)
  /-- and `NextTimeout` is the time to the earliest -/
  timeout : ∀ now, w.lastExpireTime ≤ now →
    w.nextTimeout now = sleepTime (w.timers.map Timer.expireTime) now

/-- The timers stand where they are due, and the queue holds their deadlines. -/
structure Sleeps (s : Clocked Cb) : Prop where
  /-- every timer stands exactly where it is due -/
  inv : Inv Exact s.wheel
  /-- and its deadline is in the queue -/
  queue : QueueInv s.wheel

theorem sleeps_new (built : ℕ) : Sleeps (Clocked.new built : Clocked Cb) :=
  ⟨new_inv Exact built, new_queueInv built⟩

/-! ## The timeout -/

/-- The head of a sorted queue is the earliest of its times. -/
theorem min?_of_sorted {queue times : List ℕ} (hsorted : queue.Pairwise (· ≤ ·))
    (hperm : queue.Perm times) : times.min? = queue.head? := by
  cases queue with
  | nil =>
    rw [List.nil_perm] at hperm
    rw [hperm]
    rfl
  | cons next queue =>
    rw [List.pairwise_cons] at hsorted
    refine List.min?_eq_some_iff.2 ⟨hperm.mem_iff.1 (by simp), fun t ht => ?_⟩
    rcases List.mem_cons.1 (hperm.mem_iff.2 ht) with rfl | ht
    · exact le_refl t
    · exact hsorted.1 t ht

/-- A wheel that sleeps right has the sorted deadlines in its queue. -/
theorem Sleeps.agrees {s : Clocked Cb} (h : Sleeps s) : QueueAgrees s.wheel := by
  refine ⟨h.queue.perm, fun now hnow => ?_⟩
  have hmin := min?_of_sorted h.queue.sorted h.queue.perm
  unfold nextTimeout sleepTime
  rw [hmin]
  cases hqueue : s.wheel.expireTimeQueue with
  | nil => rfl
  | cons next queue =>
    show (if next ≤ now then 0 else toInt (next - now : ℕ)) = max 0 ((next : ℤ) - now)
    split
    · omega
    · -- the deadline is near enough for an `int`
      have hnear := h.queue.near h.inv (hqueue ▸ List.mem_cons_self)
      rw [toInt_of_lt (by omega)]
      omega

/-! ## One call -/

/-- Registering keeps it so. -/
theorem Sleeps.runAfter {s : Clocked Cb} (h : Sleeps s) {interval : ℤ} {cb : Cb}
    {w : TimerWheel Cb} (hlt : s.wheel.position + interval < 2 ^ 31)
    (hok : s.wheel.runAfter interval cb = .ok w) : Sleeps { s with wheel := w } := by
  rcases runAfter_inv h.inv hok hlt (exact_next s.wheel cb) with
    ⟨n, -, hinv, htimers, -, -, -, hqueue⟩
  exact ⟨hinv, h.queue.of_register htimers hqueue⟩

/-- A step of a wheel without timers leaves it without timers. -/
theorem Sleeps.step_empty {s : Clocked Cb} (h : Sleeps s) {now : ℕ} {callbacks out : List Cb}
    {w : TimerWheel Cb} (hnone : s.wheel.timers = [])
    (hroom : s.wheel.position + s.wheel.intervalTo now < 2 ^ 31)
    (hok : s.wheel.step now callbacks = .ok (w, out)) : Sleeps ⟨w, now⟩ := by
  rcases bind_ok.1 hok with ⟨found, hfound, -⟩
  rcases Int.eq_ofNat_of_zero_le (findPos_nonneg hfound) with ⟨n, hn⟩
  -- with no timer there is nothing to fire, however far the clock jumps
  have hempty := h.inv.linked.notMem hnone
  obtain ⟨w', fired, hok', hs⟩ := step_spec (fun _ _ => False)
    (Exact (s.wheel.position + n) now) h.inv.digits h.inv.linked
    (fun pos t ht => absurd ht (hempty pos t)) hn (by omega) (fun _ _ hd => hd.elim)
    (fun pos _ t ht => absurd ht (hempty pos t)) callbacks
  rcases Prod.mk.inj (Except.ok.inj (hok'.symm.trans hok)) with ⟨rfl, -⟩
  have hqueue : s.wheel.expireTimeQueue = [] := by
    have hperm := h.queue.perm
    rwa [hnone, List.map_nil, List.perm_nil] at hperm
  refine ⟨hs.inv h.inv, ?_, ?_⟩
  · show w'.expireTimeQueue.Pairwise (· ≤ ·)
    rw [hs.queue, hqueue]
    exact .nil
  · show w'.expireTimeQueue.Perm (w'.timers.map Timer.expireTime)
    rw [hs.queue, hs.timers, hqueue, hnone]
    exact .refl _

/-- Every guarded call does. -/
theorem apply_sleeps (s : Clocked Cb) (op : Op Cb) (s' : Clocked Cb) (out : List Cb)
    (h : Sleeps s) (hguard : Settled s op ∧ OnTime s op) (hok : apply s op = .ok (s', out)) :
    Sleeps s' := by
  rcases hguard with ⟨hsettled, htime⟩
  cases op with
  | runAfter interval cb =>
    rcases bind_ok.1 hok with ⟨w, hw, hok⟩
    cases hok
    exact h.runAfter hsettled hw
  | runAt expireTime cb =>
    rcases bind_ok.1 hok with ⟨w, hw, hok⟩
    cases hok
    exact h.runAfter hsettled hw
  | removeTimer id =>
    rcases bind_ok.1 hok with ⟨w, hw, hok⟩
    cases hok
    rcases removeTimer_inv h.inv hw with ⟨t, ht, rfl, hinv, htimers, -, -, -, hqueue⟩
    exact ⟨hinv, h.queue.of_remove h.inv.linked.ids ht htimers hqueue⟩
  | start now =>
    cases hok
    exact ⟨h.inv.start hsettled Exact now, h.queue.sorted, h.queue.perm⟩
  | step now =>
    rcases bind_ok.1 hok with ⟨⟨w, callbacks⟩, hw, hok⟩
    cases hok
    -- with no timer the jump does not matter; with one the interval is exact
    rcases htime with hnone | ⟨hforward, hgap⟩
    · exact h.step_empty hnone hsettled hw
    · have hinterval : s.wheel.intervalTo now = ((now - s.wheel.lastExpireTime : ℕ) : ℤ) :=
        interval_of_lt hgap
      have hroom : s.wheel.position + s.wheel.intervalTo now < 2 ^ 31 := hsettled
      rcases step_exact h.inv hforward (by omega) [] with
        ⟨w', fired, hw', -, htimers, hinv, -, -, -, hqueue⟩
      rcases Prod.mk.inj (Except.ok.inj (hw'.symm.trans hw)) with ⟨rfl, -⟩
      exact ⟨hinv, h.queue.of_step htimers hqueue⟩

/-! ## Runs -/

/-- After every run whose steps come on time, the queue agrees with the timers. -/
theorem sleep_queue_agrees (built : ℕ) (ops : List (Op Cb))
    (h : Guarded apply (fun s op => Settled s op ∧ OnTime s op) (Clocked.new built) ops)
    (s : Clocked Cb) (outs : List (List Cb))
    (hrun : run apply (Clocked.new built) ops = .ok (s, outs)) : QueueAgrees s.wheel := by
  have hsleeps : Sleeps s := inv_of_run Sleeps apply_sleeps (sleeps_new built) h hrun
  exact hsleeps.agrees

/-- A run with two equal deadlines, one of which is removed. -/
theorem sleep_queue_agrees_run :
    ∃ s outs, run apply (Clocked.new 5) [.runAfter 100 7, .runAfter 100 8, .removeTimer 1,
        .step 90] = .ok (s, outs) ∧ QueueAgrees s.wheel := by
  have houts : (run apply (Clocked.new 5) [.runAfter 100 7, .runAfter 100 8, .removeTimer 1,
      .step 90]).map Prod.snd = .ok [[], [], [], []] := by decide
  rcases map_ok.1 houts with ⟨⟨s, outs⟩, hrun, -⟩
  exact ⟨s, outs, hrun, sleep_queue_agrees 5 [.runAfter 100 7, .runAfter 100 8, .removeTimer 1,
    .step 90] (by decide) s outs hrun⟩

/-- A step `2^32 + 5` ms after the last one is an interval of `5` for `FindPos`, but not for
the queue: the timer that was due after `100` ms stays, its deadline does not. -/
theorem long_gap_empties_queue :
    Guarded apply Admissible (Clocked.new 0) [.runAfter 100 7, .step (2 ^ 32 + 5)] ∧
    ∃ s outs, run apply (Clocked.new 0) [.runAfter 100 7, .step (2 ^ 32 + 5)] = .ok (s, outs) ∧
      s.wheel.timers = [⟨1, 100, 7⟩] ∧ s.wheel.expireTimeQueue = [] ∧
      s.wheel.nextTimeout (2 ^ 32 + 5) = -1 ∧ ¬ QueueAgrees s.wheel := by
  refine ⟨by decide, ?_⟩
  have hlost : (run apply (Clocked.new 0) [.runAfter 100 7, .step (2 ^ 32 + 5)]).map
      (fun r => (r.1.wheel.timers, r.1.wheel.expireTimeQueue,
        r.1.wheel.nextTimeout (2 ^ 32 + 5))) = .ok ([⟨1, 100, 7⟩], [], -1) := by decide
  rcases map_ok.1 hlost with ⟨⟨s, outs⟩, hrun, hlost⟩
  obtain ⟨htimers, hqueue, htimeout⟩ : _ ∧ _ ∧ _ := by simpa using hlost
  refine ⟨s, outs, hrun, htimers, hqueue, htimeout, fun hagrees => ?_⟩
  have hlen := hagrees.perm.length_eq
  rw [htimers, hqueue] at hlen
  exact absurd hlen (by decide)

end FxServer.TimerWheel
