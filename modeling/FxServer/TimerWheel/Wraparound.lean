import FxServer.TimerWheel.Ops

/-!
# FxServer.TimerWheel.Wraparound — deadlines past the turn of the wheel

The hands have room for `2^31` ms. A timer whose position lies past that is put
into the slot of the highest digit of the remainder, which may be ahead of the
hands on a low wheel, and is handed out when the hands come by.

A narrowed interval is never longer than the true one. So the hands may fall behind
the clock, but they do not run ahead, and a timer is handed out late at worst. Only
an overflow puts a timer ahead of its time.

* `no_early_without_overflow` — as long as `FindPos` reports no overflow, no timer
  is handed out early, even if an interval was narrowed.
* `wraparound_fires_early` — a timer of almost `2^31` ms fires after `51` ms.
-/

namespace FxServer.TimerWheel

open Machine MixedRadix

variable {Cb : Type}

/-- No callback of a timer that has not expired is handed out. -/
def NotEarly (w : TimerWheel Cb) (now : ℕ) : Prop :=
  ∀ callbacks w' out, w.step now callbacks = .ok (w', out) →
    ∃ fired : List (Timer Cb), out = callbacks ++ fired.map Timer.cb ∧
      ∀ t ∈ fired, t ∈ w.timers ∧ t.expireTime ≤ now

/-- A run of `RunAfter`, `RemoveTimer` and `Step` under a clock that never goes back. -/
def Forward (s : Clocked Cb) : Op Cb → Prop
  | .runAfter _ _ | .removeTimer _ => True
  | .step now => s.clock ≤ now
  | .runAt _ _ | .start _ => False

/-- The hands have room for the interval that `FindPos` is given. -/
def InRange (s : Clocked Cb) : Op Cb → Prop
  | .runAfter interval _ => s.wheel.position + interval < 2 ^ 31
  | .runAt expireTime _ => s.wheel.position + s.wheel.intervalTo expireTime < 2 ^ 31
  | .step now => s.wheel.position + s.wheel.intervalTo now < 2 ^ 31
  | .removeTimer _ | .start _ => True

instance (s : Clocked Cb) : DecidablePred (Forward s)
  | .runAfter _ _ | .removeTimer _ => .isTrue trivial
  | .step now => inferInstanceAs (Decidable (s.clock ≤ now))
  | .runAt _ _ | .start _ => .isFalse id

instance (s : Clocked Cb) : DecidablePred (InRange s)
  | .runAfter interval _ => inferInstanceAs (Decidable (s.wheel.position + interval < 2 ^ 31))
  | .runAt expireTime _ =>
    inferInstanceAs (Decidable (s.wheel.position + s.wheel.intervalTo expireTime < 2 ^ 31))
  | .step now =>
    inferInstanceAs (Decidable (s.wheel.position + s.wheel.intervalTo now < 2 ^ 31))
  | .removeTimer _ | .start _ => .isTrue trivial

/-- What is left of an interval after its narrowing never exceeds it. -/
theorem interval_le (base time : ℕ) : interval base time ≤ (time - base : ℕ) := by
  unfold interval
  split
  · exact toInt_le _
  · omega

/-- A step that stays in range hands out no timer early and keeps every timer at
or behind its deadline. -/
theorem step_notBefore {w w' : TimerWheel Cb} (h : Inv NotBefore w) {now : ℕ}
    (hclock : w.lastExpireTime ≤ now) (hroom : w.position + w.intervalTo now < 2 ^ 31)
    {callbacks out : List Cb} (hok : w.step now callbacks = .ok (w', out)) :
    Inv NotBefore w' ∧ w'.lastExpireTime = now ∧
      ∃ fired : List (Timer Cb), out = callbacks ++ fired.map Timer.cb ∧
        ∀ t ∈ fired, t ∈ w.timers ∧ t.expireTime ≤ now := by
  rcases bind_ok.1 hok with ⟨found, hfound, -⟩
  rcases Int.eq_ofNat_of_zero_le (findPos_nonneg hfound) with ⟨n, hn⟩
  -- narrowing can only make the interval shorter, so the hands lag the clock and never lead it
  have hgap : n ≤ now - w.lastExpireTime := by
    have := interval_le w.lastExpireTime now
    unfold intervalTo at hn
    omega
  obtain ⟨w₁, fired, hok₁, hs⟩ := step_spec _ (NotBefore (w.position + n) now)
    h.digits h.linked h.waits hn (by omega)
    (fun t d hd _ => by
      unfold NotBefore at hd ⊢
      omega)
    (fun _ _ t _ d hd hdlt hnow => by
      unfold NotBefore at hd ⊢
      omega) callbacks
  rcases Prod.mk.inj (Except.ok.inj (hok₁.symm.trans hok)) with ⟨rfl, rfl⟩
  refine ⟨hs.inv h, hs.lastExpireTime, fired, rfl, fun t ht => ⟨hs.fired_sub t ht, ?_⟩⟩
  rcases hs.fired_due t ht with ⟨_, d, -, hd, -, hlate | ⟨-, hlate⟩⟩
  · unfold NotBefore at hd
    omega
  · exact hlate

/-- No timer stands before its deadline, and intervals count from the clock. -/
def NoneAhead (s : Clocked Cb) : Prop := Inv NotBefore s.wheel ∧ s.wheel.lastExpireTime = s.clock

/-- Every call in range keeps it so. -/
theorem apply_noneAhead (s : Clocked Cb) (op : Op Cb) (s' : Clocked Cb) (out : List Cb)
    (h : NoneAhead s) (hguard : Forward s op ∧ InRange s op) (hok : apply s op = .ok (s', out)) :
    NoneAhead s' := by
  rcases h with ⟨hinv, hbase⟩
  rcases hguard with ⟨hforward, hrange⟩
  cases op with
  | runAfter interval cb =>
    rcases bind_ok.1 hok with ⟨w, hw, hok⟩
    cases hok
    obtain ⟨n, -, hinv', -, -, hbase', -⟩ := runAfter_inv hinv hw hrange fun n => by
      show n + s.wheel.lastExpireTime + s.wheel.position ≤ _
      omega
    exact ⟨hinv', hbase'.trans hbase⟩
  | runAt expireTime cb => exact hforward.elim
  | removeTimer id =>
    rcases bind_ok.1 hok with ⟨w, hw, hok⟩
    cases hok
    rcases removeTimer_inv hinv hw with ⟨t, -, -, hinv', -, -, hbase', -⟩
    exact ⟨hinv', hbase'.trans hbase⟩
  | start now => exact hforward.elim
  | step now =>
    rcases bind_ok.1 hok with ⟨⟨w, callbacks⟩, hw, hok⟩
    cases hok
    rcases step_notBefore hinv (hbase ▸ hforward) hrange hw with ⟨hinv', hbase', -⟩
    exact ⟨hinv', hbase'⟩

/-- In every run in which the hands have room, no step hands out a timer early. -/
theorem no_early_without_overflow (built : ℕ) (ops : List (Op Cb)) (now : ℕ)
    (h : Guarded apply (fun s op => Forward s op ∧ InRange s op) (Clocked.new built)
      (ops ++ [.step now])) (s : Clocked Cb) (outs : List (List Cb))
    (hrun : run apply (Clocked.new built) ops = .ok (s, outs)) : NotEarly s.wheel now := by
  obtain ⟨hinv, hbase⟩ : NoneAhead s :=
    inv_of_run _ apply_noneAhead ⟨new_inv NotBefore built, rfl⟩ h.take hrun
  rcases (h.drop hrun).1 with ⟨hforward, hrange⟩
  intro callbacks w' out hok
  exact (step_notBefore hinv (hbase ▸ hforward) hrange hok).2.2

/-- A timer that is not due at `104`. -/
theorem no_early_without_overflow_run :
    ∃ s outs, run apply (Clocked.new 5) [.runAfter 100 7, .step 90] = .ok (s, outs) ∧
      NotEarly s.wheel 104 := by
  have houts : (run apply (Clocked.new 5) [.runAfter 100 7, .step 90]).map Prod.snd =
      .ok [[], []] := by decide
  rcases map_ok.1 houts with ⟨⟨s, outs⟩, hrun, -⟩
  exact ⟨s, outs, hrun, no_early_without_overflow 5 [.runAfter 100 7, .step 90] 104
    (by decide) s outs hrun⟩

/-- A step that hands out the only timer before its deadline. -/
theorem not_notEarly {w w' : TimerWheel Cb} {t : Timer Cb} {now : ℕ} (htimers : w.timers = [t])
    (hstep : w.step now [] = .ok (w', [t.cb])) (hearly : now < t.expireTime) :
    ¬ NotEarly w now := by
  intro hnot
  rcases hnot [] w' [t.cb] hstep with ⟨fired, hfired, hdue⟩
  obtain ⟨u, rfl, -⟩ : ∃ u, fired = [u] ∧ u.cb = t.cb := by
    simpa [List.map_eq_singleton_iff] using hfired.symm
  rcases hdue u (by simp) with ⟨hmem, hlate⟩
  rw [htimers, List.mem_singleton] at hmem
  rw [hmem] at hlate
  omega

/-- The hands stand at `8192`. A timer of `2^31 - 8142` ms has the position `2^31 + 50`,
whose remainder `50` is a slot of the first wheel. -/
theorem wraparound_fires_early :
    Guarded apply Forward (Clocked.new 0)
      [.step 8192, .runAfter (2 ^ 31 - 8142) 7, .step 8243] ∧
    ∃ s outs, run apply (Clocked.new 0) [.step 8192, .runAfter (2 ^ 31 - 8142) 7] =
        .ok (s, outs) ∧
      s.wheel.timers = [⟨1, 2 ^ 31 + 50, 7⟩] ∧
      (s.wheel.step 8243 []).map Prod.snd = .ok [7] ∧ ¬ NotEarly s.wheel 8243 := by
  refine ⟨by decide, ?_⟩
  have hfires : (do
      let r ← run apply (Clocked.new 0) [.step 8192, .runAfter (2 ^ 31 - 8142) 7]
      let r' ← r.1.wheel.step 8243 []
      .ok (r.1.wheel.timers, r'.2)) = .ok ([⟨1, 2 ^ 31 + 50, 7⟩], [7]) := by decide +kernel
  rcases bind_ok.1 hfires with ⟨⟨s, outs⟩, hrun, hfires⟩
  rcases bind_ok.1 hfires with ⟨⟨w', out⟩, hstep, hfires⟩
  rcases Prod.mk.inj (Except.ok.inj hfires) with ⟨htimers, rfl⟩
  exact ⟨s, outs, hrun, htimers, by rw [hstep]; rfl,
    not_notEarly htimers hstep (show 8243 < 2 ^ 31 + 50 by decide)⟩

end FxServer.TimerWheel
