import FxServer.TimerWheel.Deadlines

/-!
# FxServer.TimerWheel.EarlyTimers — timers registered before the loop runs

`EventLoop::Run` calls `Start(now)`, which moves the base time and nothing else. A
timer registered before stays in the slot that its interval from the construction
of the wheel gave it, although from now on the hands count from `Start`.

Timers that happen to be in the right slots are as good as placed there, so from
`Start` on the wheel is exact. For the other direction it is enough to look at a
single `Step`, at the deadline of a timer that is elsewhere.

* `early_timers_served_iff` — the timers are handed out in time, whatever steps
  follow in the `2^31` ms after `Start`, just when every one of them happens to be
  in the slot where it would be placed after `Start`.
* `start_strands_timer` — a timer of `100` ms, `Start` after `50` ms: the timer is
  not handed out when it is due, and the queue no longer knows it.
-/

namespace FxServer.TimerWheel

open Machine MixedRadix

variable {Cb : Type}

/-- A call made before the loop runs. Intervals are `int`s. -/
def Early : Op Cb → Prop
  | .runAfter interval _ => interval < 2 ^ 31
  | .runAt _ _ | .removeTimer _ => True
  | .start _ | .step _ => False

instance : DecidablePred (Early : Op Cb → Prop)
  | .runAfter interval _ => inferInstanceAs (Decidable (interval < 2 ^ 31))
  | .runAt _ _ | .removeTimer _ => .isTrue trivial
  | .start _ | .step _ => .isFalse id

/-- Steps that do not go back, in the `2^31` ms after `start`. -/
def StepsFrom (start : ℕ) (s : Clocked Cb) : Op Cb → Prop
  | .step now => s.clock ≤ now ∧ now < start + 2 ^ 31
  | _ => False

instance (start : ℕ) (s : Clocked Cb) : DecidablePred (StepsFrom start s)
  | .step now => inferInstanceAs (Decidable (s.clock ≤ now ∧ now < start + 2 ^ 31))
  | .runAfter _ _ | .runAt _ _ | .removeTimer _ | .start _ => .isFalse id

/-- The loop is not told to wait for events only while a timer is pending. -/
def NeverSleeps (s : Clocked Cb) : Prop :=
  s.wheel.timers ≠ [] → ∀ now, s.clock ≤ now → s.wheel.nextTimeout now ≠ -1

/-- However the steps after `Start(start)` come, each serves the pending timers, and
the loop never waits without a timeout for them. -/
def Served (w : TimerWheel Cb) (start : ℕ) : Prop :=
  ∀ ops, Guarded apply (StepsFrom start) ⟨w.start start, start⟩ ops →
    ∃ s outs, run apply ⟨w.start start, start⟩ ops = .ok (s, outs) ∧ NeverSleeps s ∧
      ∀ now, s.clock ≤ now → now < start + 2 ^ 31 → StepServes s.wheel now

/-- Every timer is in the slot where `RunAt` would put a timer with its expire time. -/
def Unmoved (w : TimerWheel Cb) : Prop :=
  ∀ pos, ∀ t ∈ w.wheels pos,
    (w.findPos (w.intervalTo t.expireTime)).map FoundPos.pos = .ok pos

/-! ## Before `Start` -/

/-- The wheel has not moved since it was built. -/
structure Resting (built : ℕ) (s : Clocked Cb) : Prop where
  /-- every timer stands where it is due, seen from the construction -/
  inv : Inv Exact s.wheel
  queue : QueueInv s.wheel
  /-- the hands have not moved -/
  position : s.wheel.position = 0
  base : s.wheel.lastExpireTime = built

/-- A timer added before `Start` is placed from the resting hands. -/
theorem Resting.runAfter {built : ℕ} {s : Clocked Cb} (h : Resting built s) {interval : ℤ} {cb : Cb}
    {w : TimerWheel Cb} (hlt : interval < 2 ^ 31) (hok : s.wheel.runAfter interval cb = .ok w) :
    Resting built { s with wheel := w } := by
  rcases runAfter_inv h.inv hok (by rw [h.position]; omega) (exact_next s.wheel cb) with
    ⟨n, rfl, hinv, htimers, hpos, hbase, -, hqueue⟩
  exact ⟨hinv, h.queue.of_register htimers hqueue, hpos.trans h.position, hbase.trans h.base⟩

theorem interval_lt (base time : ℕ) : interval base time < 2 ^ 31 := by
  unfold interval
  split
  · exact toInt_lt _
  · decide

/-- Every early call leaves the hands at rest. -/
theorem apply_resting {built : ℕ} (s : Clocked Cb) (op : Op Cb) (s' : Clocked Cb) (out : List Cb)
    (h : Resting built s) (hop : Early op) (hok : apply s op = .ok (s', out)) :
    Resting built s' := by
  cases op with
  | runAfter interval cb =>
    rcases bind_ok.1 hok with ⟨w, hw, hok⟩
    cases hok
    exact h.runAfter hop hw
  | runAt expireTime cb =>
    rcases bind_ok.1 hok with ⟨w, hw, hok⟩
    cases hok
    exact h.runAfter (interval_lt _ _) hw
  | removeTimer id =>
    rcases bind_ok.1 hok with ⟨w, hw, hok⟩
    cases hok
    rcases removeTimer_inv h.inv hw with ⟨t, ht, rfl, hinv, htimers, hpos, hbase, -, hqueue⟩
    exact ⟨hinv, h.queue.of_remove h.inv.linked.ids ht htimers hqueue, hpos.trans h.position,
      hbase.trans h.base⟩
  | start now => exact hop.elim
  | step now => exact hop.elim

/-- A run of early calls leaves the hands at rest. -/
theorem run_resting {built : ℕ} {ops : List (Op Cb)} (hops : ∀ op ∈ ops, Early op) {s : Clocked Cb}
    {outs : List (List Cb)} (hrun : run apply (Clocked.new built) ops = .ok (s, outs)) :
    Resting built s :=
  inv_of_run (Resting built) apply_resting ⟨new_inv Exact built, new_queueInv built, rfl, rfl⟩
    (Guarded.of_forall (fun op hop _ => hops op hop) _) hrun

/-! ## After `Start` -/

/-- The exact wheel, at the position the clock has reached. -/
structure Ticking (start : ℕ) (s : Clocked Cb) : Prop where
  /-- every timer stands where it is due, seen from the clock -/
  inv : Inv Exact s.wheel
  queue : QueueInv s.wheel
  base : s.wheel.lastExpireTime = s.clock
  clock : start ≤ s.clock
  /-- the hands have moved as far as the clock since `Start` -/
  position : s.wheel.position = s.clock - start

/-- From `Start` on a step hands out exactly what is due. -/
theorem Ticking.step {start : ℕ} {s : Clocked Cb} (h : Ticking start s) {now : ℕ}
    (hclock : s.clock ≤ now) (hlt : now < start + 2 ^ 31) (callbacks : List Cb) :
    ∃ (w' : TimerWheel Cb) (fired : List (Timer Cb)),
      s.wheel.step now callbacks = .ok (w', callbacks ++ fired.map Timer.cb) ∧
      fired.Perm (s.wheel.timers.filter (·.expireTime ≤ now)) ∧
      w'.timers = s.wheel.timers.filter (now < ·.expireTime) ∧ Ticking start ⟨w', now⟩ := by
  have hstart := h.clock
  rcases step_exact h.inv (h.base ▸ hclock) (by rw [h.position, h.base]; omega) callbacks with
    ⟨w', fired, hok, hperm, htimers, hinv, hbase, -, hpos, hqueue⟩
  refine ⟨w', fired, hok, hperm, htimers, hinv, h.queue.of_step htimers hqueue, hbase, ?_, ?_⟩
  · exact hstart.trans hclock
  · rw [hpos, h.position, h.base]
    show s.clock - start + (now - s.clock) = now - start
    omega

/-- That is what serving asks for. -/
theorem Ticking.stepServes {start : ℕ} {s : Clocked Cb} (h : Ticking start s) {now : ℕ}
    (hclock : s.clock ≤ now) (hlt : now < start + 2 ^ 31) : StepServes s.wheel now := by
  intro callbacks
  rcases h.step hclock hlt callbacks with ⟨w', fired, hok, hperm, htimers, h'⟩
  exact ⟨w', fired, hok, hperm, htimers, h'.inv.linked⟩

/-- From `Start` on `NextTimeout` never sleeps past a deadline. -/
theorem Ticking.neverSleeps {start : ℕ} {s : Clocked Cb} (h : Ticking start s) :
    NeverSleeps s := by
  intro hpending now hnow
  unfold nextTimeout
  split
  · rename_i hempty
    have hperm := h.queue.perm
    rw [hempty, List.nil_perm, List.map_eq_nil_iff] at hperm
    exact absurd hperm hpending
  · rename_i next queue hqueue
    split
    · decide
    · -- the head of the queue is near enough for an `int`
      have hnear := h.queue.near h.inv (hqueue ▸ List.mem_cons_self)
      have hbase := h.base
      rw [toInt_of_lt (by omega)]
      omega

/-- A wheel that ticks from its start serves everything. -/
theorem ticking_served {w : TimerWheel Cb} {start : ℕ} (h : Ticking start ⟨w.start start, start⟩) :
    Served w start := by
  intro ops hops
  obtain ⟨s, outs, hrun, hs⟩ := run_of_inv (Ticking start)
    (fun s op hs hop => by
      cases op with
      | step now =>
        rcases hs.step hop.1 hop.2 [] with ⟨w', fired, hok, -, -, hs'⟩
        exact ⟨⟨w', now⟩, fired.map Timer.cb, by simp only [apply, hok, ok_bind, List.nil_append],
          hs'⟩
      | runAfter _ _ => exact hop.elim
      | runAt _ _ => exact hop.elim
      | removeTimer _ => exact hop.elim
      | start _ => exact hop.elim) h hops
  exact ⟨s, outs, hrun, hs.neverSleeps, fun now => hs.stepServes⟩

/-! ## The condition -/

/-- Timers that `Start` finds where it would place them are exactly placed. -/
theorem Unmoved.ticking {built start : ℕ} {s : Clocked Cb} (h : Resting built s)
    (hstart : built ≤ start) (hunmoved : Unmoved (s.wheel.start start)) :
    Ticking start ⟨s.wheel.start start, start⟩ := by
  refine ⟨⟨h.inv.digits, h.inv.linked, h.inv.ids_le, fun pos t ht => ?_⟩,
    ⟨h.queue.sorted, h.queue.perm⟩, rfl, Nat.le_refl _, ?_⟩
  · rcases h.inv.waits pos t ht with ⟨d, hd, -, hlt, -⟩
    unfold Exact at hd
    rw [h.position, h.base] at hd
    have hroom : (s.wheel.start start).position + (t.expireTime - start) < 2 ^ 31 := by
      show s.wheel.position + _ < _
      rw [h.position]
      omega
    -- from the new start the deadline is nearer, and the slot it is in is still the right one
    have hinterval : (s.wheel.start start).intervalTo t.expireTime =
        ((t.expireTime - start : ℕ) : ℤ) :=
      interval_of_lt (show t.expireTime - start < 2 ^ 31 by omega)
    rcases findPos_of_lt (w := s.wheel.start start) h.inv.digits hroom with ⟨found, hfound, ho⟩
    rcases findPos_spec (w := s.wheel.start start) h.inv.digits hfound ho with ⟨-, -, -, hslot⟩
    -- `FindPos` at the new start finds the slot the timer is in
    have hpos := hunmoved pos t ht
    rw [hinterval, hfound] at hpos
    obtain rfl : found.pos = pos := Except.ok.inj hpos
    exact ⟨_, rfl, Nat.le_add_right _ _, hroom, hslot⟩
  · show s.wheel.position = start - start
    rw [h.position, Nat.sub_self]

/-- A timer that a single step serves is where `Start` would place it. -/
theorem Served.unmoved {built start : ℕ} {s : Clocked Cb} (h : Resting built s)
    (hstart : built ≤ start) (hserved : Served s.wheel start) : Unmoved (s.wheel.start start) := by
  intro pos t ht
  have hmem : t ∈ s.wheel.timers := h.inv.linked.mem pos t ht
  rcases h.inv.waits pos t ht with ⟨d₀, hd₀, -, hlt₀, -⟩
  unfold Exact at hd₀
  rw [h.position, h.base] at hd₀
  -- the step at the deadline, or at once when it is over
  obtain ⟨now, hnow⟩ : ∃ now, now = max start t.expireTime := ⟨_, rfl⟩
  have hposition : (s.wheel.start start).position = 0 := h.position
  have hinterval : (s.wheel.start start).intervalTo now = ((now - start : ℕ) : ℤ) :=
    interval_of_lt (show now - start < 2 ^ 31 by omega)
  obtain ⟨w', fired, hok, hs⟩ := step_spec (fun t d => d = t.expireTime - built)
    (fun _ _ => True) (w := s.wheel.start start) h.inv.digits h.inv.linked
    (fun pos u hu => by
      rcases h.inv.waits pos u hu with ⟨d, hd, hrest⟩
      unfold Exact at hd
      rw [h.position, h.base, Nat.zero_add] at hd
      exact ⟨d, hd, hrest⟩)
    hinterval (by rw [hposition]; omega) (fun _ _ _ _ => trivial)
    (fun _ _ u _ d hd hdlt hlater => ⟨by rw [hposition]; omega, trivial⟩) []
  rcases hserved [] trivial with ⟨s', outs, hrun, -, hserves⟩
  cases hrun
  rcases hserves now (show start ≤ now by omega) (by omega) [] with
    ⟨w₁, fired₁, hok₁, -, htimers, -⟩
  rcases Prod.mk.inj (Except.ok.inj (hok.symm.trans hok₁)) with ⟨rfl, -⟩
  have hgone : t ∉ w'.timers := by
    rw [htimers, List.mem_filter]
    simp [hnow]
  have hfired : t ∈ fired := by
    rw [hs.timers, List.mem_filter] at hgone
    refine (Stepped.mem_ids (w := s.wheel.start start) h.inv.linked.ids hs hmem).1 ?_
    by_contra hnot
    exact hgone ⟨hmem, by simpa using hnot⟩
  rcases hs.fired_due t hfired with ⟨pos', d, ht', rfl, hslot, hlate⟩
  obtain rfl : pos' = pos := h.inv.linked.unique pos' pos t ht' ht
  rw [hposition] at hlate hslot
  -- the hands have not passed the timer, so they stop at it
  have hstop : SlotFor 0 (0 + (t.expireTime - start)) pos' := by
    rcases hlate with hlate | ⟨hstop, -⟩
    · omega
    · rwa [show now - start = t.expireTime - start by omega] at hstop
  obtain ⟨found, hfound, ho⟩ := findPos_of_lt (w := s.wheel.start start) h.inv.digits
    (n := t.expireTime - start) (by rw [hposition]; omega)
  rcases findPos_spec (w := s.wheel.start start) h.inv.digits hfound ho with ⟨-, -, -, hslot'⟩
  rw [hposition, Int.toNat_natCast] at hslot'
  have hinterval' : (s.wheel.start start).intervalTo t.expireTime =
      ((t.expireTime - start : ℕ) : ℤ) :=
    interval_of_lt (show t.expireTime - start < 2 ^ 31 by omega)
  rw [hinterval', hfound]
  exact congrArg Except.ok (hslot'.unique hstop)

/-- The timers registered before `Start(start)` are handed out in time if and only
if `Start` finds each of them where it would place it. -/
theorem early_timers_served_iff (built start : ℕ) (hstart : built ≤ start) (ops : List (Op Cb))
    (hops : ∀ op ∈ ops, Early op) (s : Clocked Cb) (outs : List (List Cb))
    (hrun : run apply (Clocked.new built) ops = .ok (s, outs)) :
    Served s.wheel start ↔ Unmoved (s.wheel.start start) :=
  ⟨Served.unmoved (run_resting hops hrun) hstart,
    fun h => ticking_served (h.ticking (run_resting hops hrun) hstart)⟩

/-- A timer added ten milliseconds before `Start`. -/
theorem early_timers_served_iff_run :
    ∃ s outs, run apply (Clocked.new 0) [.runAfter 200 7] = .ok (s, outs) ∧
      (Served s.wheel 10 ↔ Unmoved (s.wheel.start 10)) := by
  have houts : (run apply (Clocked.new 0) [.runAfter 200 7]).map Prod.snd = .ok [[]] := by decide
  rcases map_ok.1 houts with ⟨⟨s, outs⟩, hrun, -⟩
  exact ⟨s, outs, hrun, early_timers_served_iff 0 10 (by decide) [.runAfter 200 7] (by decide)
    s outs hrun⟩

/-- The timer is due at `100`. After `Start(50)`, a step at `120` moves the hands by
`70`, short of the slot `100` of the timer; its deadline leaves the queue all the same. -/
theorem start_strands_timer :
    ∃ s outs, run apply (Clocked.new 0) [.runAfter 100 7] = .ok (s, outs) ∧
      (∃ w', (s.wheel.start 50).step 120 [] = .ok (w', []) ∧ w'.timers = [⟨1, 100, 7⟩] ∧
        w'.nextTimeout 120 = -1) ∧ ¬ Served s.wheel 50 := by
  have hlost : (do
      let r ← run apply (Clocked.new 0) [.runAfter 100 7]
      let r' ← (r.1.wheel.start 50).step 120 []
      .ok (r.1.wheel.timers, r'.1.timers, r'.1.nextTimeout 120, r'.2)) =
      .ok ([⟨1, 100, 7⟩], [⟨1, 100, 7⟩], -1, []) := by decide +kernel
  rcases bind_ok.1 hlost with ⟨⟨s, outs⟩, hrun, hlost⟩
  rcases bind_ok.1 hlost with ⟨⟨w', out⟩, hstep, hlost⟩
  simp only [Except.ok.injEq, Prod.mk.injEq] at hlost
  rcases hlost with ⟨htimers, htimers', htimeout, rfl⟩
  -- at 120 the timer of 100 is due, and the step leaves it in the wheel with nothing to wait for
  refine ⟨s, outs, hrun, ⟨w', hstep, htimers', htimeout⟩, fun hserved => ?_⟩
  rcases hserved [] trivial with ⟨s₁, outs₁, hrun₁, -, hserves⟩
  cases hrun₁
  rcases hserves 120 (show 50 ≤ 120 by decide) (by decide) [] with ⟨w₁, fired, hstep₁, -, hkept, -⟩
  rcases Prod.mk.inj (Except.ok.inj (hstep.symm.trans hstep₁)) with ⟨rfl, -⟩
  have hkept : w'.timers = s.wheel.timers.filter (120 < ·.expireTime) := hkept
  rw [htimers', htimers] at hkept
  exact absurd hkept (by decide)

end FxServer.TimerWheel
