import FxServer.TimerWheel.Wraparound

/-!
# FxServer.TimerWheel.Rewind — a clock that is set back

A `Step` with an earlier time than the last one leaves the hands where they are, and
makes that time the base from which they count from now on. The timers that wait
keep their slots, which the hands reach earlier than before by as much as the clock
went back.

The positions a timer may have are those that the hands pass at its deadline or
later. Going back changes the time at which the hands pass a position, so a `Step`
may break this without moving anything. The condition asks that it does not.

* `no_early_when_rewound_in_time` — no timer is handed out early if every `Step` that
  goes back finds the timers in slots that the hands leave, on the new base, at
  their deadlines or later.
* `rewind_fires_early` — a timer of `50` ms and a `Step` that goes back by `50` ms: the
  timer is handed out `49` ms before its deadline.
-/

namespace FxServer.TimerWheel

open Machine MixedRadix

variable {Cb : Type}

/-- The timers that `Step(now)` places again. -/
def placedAgain (w : TimerWheel Cb) (now : ℕ) : List (Timer Cb) :=
  match w.findPos (w.intervalTo now) with
  | .ok found => (w.wheels found.pos).filter (now < ·.expireTime)
  | .error _ => []

/-- A run of `RunAfter`, `RunAt`, `RemoveTimer` and `Step` under any clock, in which no
`FindPos` overflows. -/
def NoOverflow (s : Clocked Cb) : Op Cb → Prop
  | .step now => s.wheel.position + s.wheel.intervalTo now < 2 ^ 31 ∧
    ∀ t ∈ s.wheel.placedAgain now,
      s.wheel.position + s.wheel.intervalTo now + toInt (t.expireTime - now : ℕ) < 2 ^ 31
  | .start _ => False
  | .runAfter interval _ => s.wheel.position + interval < 2 ^ 31
  | .runAt expireTime _ => s.wheel.position + s.wheel.intervalTo expireTime < 2 ^ 31
  | .removeTimer _ => True

/-- The slot where the hands are. -/
def handSlot (w : TimerWheel Cb) : SlotPos := (0, w.hands.getD 0 0)

/-- The timers outside the slot where the hands are wait in slots that the hands,
counting from `now`, leave at the deadlines or later. -/
def LeftInTime (w : TimerWheel Cb) (now : ℕ) : Prop :=
  ∀ pos ∈ slotsBelow kWheelCount, pos ≠ w.handSlot →
    ∀ t ∈ w.wheels pos, t.expireTime + w.position ≤ now + slotEnd w.position pos

/-- A `Step` places timers again that are due in less than `2^31` ms, and if it goes
back, the other timers do not stand in the way. -/
def InTime (s : Clocked Cb) : Op Cb → Prop
  | .step now => (∀ t ∈ s.wheel.placedAgain now, t.expireTime - now < 2 ^ 31) ∧
    (now < s.wheel.lastExpireTime → LeftInTime s.wheel now)
  | _ => True

instance (s : Clocked Cb) : DecidablePred (NoOverflow s)
  | .step now => inferInstanceAs (Decidable (s.wheel.position + s.wheel.intervalTo now < 2 ^ 31 ∧
      ∀ t ∈ s.wheel.placedAgain now,
        s.wheel.position + s.wheel.intervalTo now + toInt (t.expireTime - now : ℕ) < 2 ^ 31))
  | .start _ => .isFalse id
  | .runAfter interval _ => inferInstanceAs (Decidable (s.wheel.position + interval < 2 ^ 31))
  | .runAt expireTime _ =>
    inferInstanceAs (Decidable (s.wheel.position + s.wheel.intervalTo expireTime < 2 ^ 31))
  | .removeTimer _ => .isTrue trivial

instance (w : TimerWheel Cb) (now : ℕ) : Decidable (LeftInTime w now) :=
  inferInstanceAs (Decidable (∀ pos ∈ slotsBelow kWheelCount, pos ≠ w.handSlot →
    ∀ t ∈ w.wheels pos, t.expireTime + w.position ≤ now + slotEnd w.position pos))

instance (s : Clocked Cb) : DecidablePred (InTime s)
  | .step now => inferInstanceAs (Decidable ((∀ t ∈ s.wheel.placedAgain now,
      t.expireTime - now < 2 ^ 31) ∧ (now < s.wheel.lastExpireTime → LeftInTime s.wheel now)))
  | .runAfter _ _ | .runAt _ _ | .removeTimer _ | .start _ => .isTrue trivial

/-! ## One step -/

/-- The hands pass no position before the deadlines of the timers that stand there. -/
def PassedInTime : Due Cb := fun here base t d => t.expireTime + here ≤ d + base + 1

/-- The slot the hands are in is the slot for now. -/
theorem handSlot_for {w : TimerWheel Cb} (hd : IsDigits kWheelSlotCount w.hands) :
    SlotFor w.position w.position w.handSlot := by
  have hdigit := hand_eq_digit hd 0
  exact ⟨rfl, hdigit⟩

/-- What waits at the stop and is not due is placed again. -/
theorem mem_placedAgain {w : TimerWheel Cb} (hd : IsDigits kWheelSlotCount w.hands) {now n : ℕ}
    (hn : w.intervalTo now = n) (hroom : w.position + n < 2 ^ 31) {pos : SlotPos}
    (hstop : SlotFor w.position (w.position + n) pos) {t : Timer Cb} (ht : t ∈ w.wheels pos)
    (hnow : now < t.expireTime) : t ∈ w.placedAgain now := by
  rcases findPos_of_lt hd hroom with ⟨found, hfound, ho⟩
  rcases findPos_spec hd hfound ho with ⟨-, -, -, hslot⟩
  rw [Int.toNat_natCast] at hslot
  have hpos : found.pos = pos := hslot.unique hstop
  unfold placedAgain
  rw [hn, hfound]
  refine List.mem_filter.2 ⟨?_, by simpa using hnow⟩
  rw [hpos]
  exact ht

/-- The slot where the hands are is that of their position alone. -/
theorem due_of_handSlot {w : TimerWheel Cb} (hd : IsDigits kWheelSlotCount w.hands) {due : ℕ}
    (h : SlotFor w.position due w.handSlot) : due = w.position := by
  have hquot : w.position / 128 = due / 128 := h.1
  have hmod : due % 128 = w.position % 128 := h.2.symm.trans (handSlot_for hd).2
  omega

/-- What the timers are allowed before a `Step(now)`: on the old base, and if the step
goes back, on the new one, unless they are where the hands are. -/
def RewoundDue (w : TimerWheel Cb) (now : ℕ) (t : Timer Cb) (d : ℕ) : Prop :=
  w.position ≤ d ∧ PassedInTime w.position w.lastExpireTime t d ∧
    (now < w.lastExpireTime → d ≠ w.position → PassedInTime w.position now t d)

/-- Before the step the timers stand where they are allowed to. -/
theorem waits_rewoundDue {w : TimerWheel Cb} (h : Inv PassedInTime w) {now : ℕ}
    (hleft : now < w.lastExpireTime → LeftInTime w now) :
    Waits (RewoundDue w now) w.position w.wheels := by
  intro pos t ht
  rcases h.waits pos t ht with ⟨d, hd, hle, hd31, hslot⟩
  by_cases hback : now < w.lastExpireTime
  · by_cases hhand : pos = w.handSlot
    · rw [hhand] at hslot
      obtain rfl : d = w.position := due_of_handSlot h.digits hslot
      exact ⟨w.position, ⟨hle, hd, fun _ hne => absurd rfl hne⟩, hle, hd31, hhand ▸ hslot⟩
    · -- of the positions of its slot, the last one will do
      rcases hslot.slotEnd hd31 with ⟨last, hend, hlast, hlast31, hslot'⟩
      have hin := hleft hback pos (h.linked.slot pos t ht) hhand t ht
      rw [hend] at hin
      have hold : PassedInTime w.position w.lastExpireTime t last := by
        unfold PassedInTime at hd ⊢
        omega
      have hnew : PassedInTime w.position now t last := by
        unfold PassedInTime
        omega
      exact ⟨last, ⟨by omega, hold, fun _ _ => hnew⟩, by omega, hlast31, hslot'⟩
  · exact ⟨d, ⟨hle, hd, fun hnow => absurd hnow hback⟩, hle, hd31, hslot⟩

/-- A step hands out no timer early, forward or back, and the hands still pass no
position early. -/
theorem step_passedInTime {w w' : TimerWheel Cb} (h : Inv PassedInTime w) {now : ℕ}
    (hroom : w.position + w.intervalTo now < 2 ^ 31)
    (hagain : ∀ t ∈ w.placedAgain now,
      w.position + w.intervalTo now + toInt (t.expireTime - now : ℕ) < 2 ^ 31)
    (hsoon : ∀ t ∈ w.placedAgain now, t.expireTime - now < 2 ^ 31)
    (hleft : now < w.lastExpireTime → LeftInTime w now) {callbacks out : List Cb}
    (hok : w.step now callbacks = .ok (w', out)) :
    Inv PassedInTime w' ∧ ∃ fired : List (Timer Cb), out = callbacks ++ fired.map Timer.cb ∧
      ∀ t ∈ fired, t ∈ w.timers ∧ t.expireTime ≤ now := by
  rcases bind_ok.1 hok with ⟨found, hfound, -⟩
  rcases Int.eq_ofNat_of_zero_le (findPos_nonneg hfound) with ⟨n, hn⟩
  have hgap : n ≤ now - w.lastExpireTime := by
    have hle := interval_le w.lastExpireTime now
    unfold intervalTo at hn
    omega
  rw [hn] at hroom hagain
  obtain ⟨w₁, fired, hok₁, hs⟩ := step_spec _ (PassedInTime (w.position + n) now)
    h.digits h.linked (waits_rewoundDue h hleft) hn (by omega)
    (fun t d hd hahead => by
      rcases hd with ⟨-, hold, hnew⟩
      unfold PassedInTime at hold hnew ⊢
      by_cases hback : now < w.lastExpireTime
      · have hin := hnew hback (by omega)
        omega
      · omega)
    (fun pos hstop t ht d hd hd31 hnow => by
      have hmem : t ∈ w.placedAgain now := mem_placedAgain h.digits hn (by omega) hstop ht hnow
      have hfits := hagain t hmem
      rw [toInt_of_lt (hsoon t hmem)] at hfits
      unfold PassedInTime
      omega)
    callbacks
  rcases Prod.mk.inj (Except.ok.inj (hok₁.symm.trans hok)) with ⟨rfl, rfl⟩
  refine ⟨hs.inv h, fired, rfl, fun t ht => ⟨hs.fired_sub t ht, ?_⟩⟩
  rcases hs.fired_due t ht with ⟨pos, d, -, ⟨hle, hold, -⟩, -, hlate | ⟨-, hlate⟩⟩
  · -- the hands have passed it, so they have moved
    unfold PassedInTime at hold
    omega
  · exact hlate

/-! ## Runs -/

/-- Every call keeps it so that the hands pass no position early. -/
theorem apply_passedInTime (s : Clocked Cb) (op : Op Cb) (s' : Clocked Cb) (out : List Cb)
    (h : Inv PassedInTime s.wheel) (hguard : NoOverflow s op ∧ InTime s op)
    (hok : apply s op = .ok (s', out)) : Inv PassedInTime s'.wheel := by
  rcases hguard with ⟨hroom, htime⟩
  -- a timer that is added is passed exactly at its deadline
  have hnext : ∀ (cb : Cb) (n : ℕ), PassedInTime s.wheel.position s.wheel.lastExpireTime
      (s.wheel.nextTimer n cb) (s.wheel.position + n) := by
    intro cb n
    show n + s.wheel.lastExpireTime + s.wheel.position ≤ _
    omega
  cases op with
  | runAfter interval cb =>
    rcases bind_ok.1 hok with ⟨w, hw, hok⟩
    cases hok
    rcases runAfter_inv h hw hroom (hnext cb) with ⟨n, -, hinv, -⟩
    exact hinv
  | runAt expireTime cb =>
    rcases bind_ok.1 hok with ⟨w, hw, hok⟩
    cases hok
    rcases runAfter_inv h hw hroom (hnext cb) with ⟨n, -, hinv, -⟩
    exact hinv
  | removeTimer id =>
    rcases bind_ok.1 hok with ⟨w, hw, hok⟩
    cases hok
    rcases removeTimer_inv h hw with ⟨t, -, -, hinv, -⟩
    exact hinv
  | start now => exact hroom.elim
  | step now =>
    rcases bind_ok.1 hok with ⟨⟨w, callbacks⟩, hw, hok⟩
    cases hok
    rcases step_passedInTime h hroom.1 hroom.2 htime.1 htime.2 hw with ⟨hinv, -⟩
    exact hinv

/-- In every run without an overflow, under any clock, in which every step that goes
back finds the other timers in slots that the hands leave in time, no step hands out a
timer early. -/
theorem no_early_when_rewound_in_time (built : ℕ) (ops : List (Op Cb)) (now : ℕ)
    (h : Guarded apply (fun s op => NoOverflow s op ∧ InTime s op) (Clocked.new built)
      (ops ++ [.step now])) (s : Clocked Cb) (outs : List (List Cb))
    (hrun : run apply (Clocked.new built) ops = .ok (s, outs)) : NotEarly s.wheel now := by
  have hinv : Inv PassedInTime s.wheel :=
    inv_of_run (fun s => Inv PassedInTime s.wheel) apply_passedInTime (new_inv PassedInTime built)
      h.take hrun
  rcases (h.drop hrun).1 with ⟨hroom, htime⟩
  intro callbacks w' out hok
  rcases step_passedInTime hinv hroom.1 hroom.2 htime.1 htime.2 hok with ⟨-, hfired⟩
  exact hfired

/-- A timer of `200` ms in the second slot of the second wheel, and a step that goes back
by `30` ms, after which the hands leave that slot at its deadline or later. -/
theorem no_early_when_rewound_in_time_run :
    ∃ s outs, run apply (Clocked.new 100) [.runAfter 200 7, .step 70, .step 210] =
        .ok (s, outs) ∧ NotEarly s.wheel 299 := by
  have houts : (run apply (Clocked.new 100) [.runAfter 200 7, .step 70, .step 210]).map Prod.snd =
      .ok [[], [], []] := by decide +kernel
  rcases map_ok.1 houts with ⟨⟨s, outs⟩, hrun, -⟩
  exact ⟨s, outs, hrun, no_early_when_rewound_in_time 100 [.runAfter 200 7, .step 70, .step 210]
    299 (by decide +kernel) s outs hrun⟩

/-- The timer is due at `150`. A step at `50` makes `50` the base, and one at `101` moves
the hands by `51`, past the slot `50` of the timer. -/
theorem rewind_fires_early :
    Guarded apply NoOverflow (Clocked.new 100) [.runAfter 50 7, .step 50, .step 101] ∧
    ∃ s outs, run apply (Clocked.new 100) [.runAfter 50 7, .step 50] = .ok (s, outs) ∧
      s.wheel.timers = [⟨1, 150, 7⟩] ∧
      (s.wheel.step 101 []).map Prod.snd = .ok [7] ∧ ¬ NotEarly s.wheel 101 := by
  refine ⟨by decide +kernel, ?_⟩
  have hfires : (do
      let r ← run apply (Clocked.new 100) [.runAfter 50 7, .step 50]
      let r' ← r.1.wheel.step 101 []
      .ok (r.1.wheel.timers, r'.2)) = .ok ([⟨1, 150, 7⟩], [7]) := by decide +kernel
  rcases bind_ok.1 hfires with ⟨⟨s, outs⟩, hrun, hfires⟩
  rcases bind_ok.1 hfires with ⟨⟨w', out⟩, hstep, hfires⟩
  rcases Prod.mk.inj (Except.ok.inj hfires) with ⟨htimers, rfl⟩
  exact ⟨s, outs, hrun, htimers, by rw [hstep]; rfl,
    not_notEarly htimers hstep (show 101 < 150 by decide)⟩

end FxServer.TimerWheel
