import FxServer.TimerWheel.Ops

/-!
# FxServer.TimerWheel.Indices — which slots the wheel looks at

The hands have room for `2^31` ms. When an interval does not fit, `FindPos` reports an overflow,
and answers with the highest hand of the remainder that is not `0`; there is none when the
remainder is `0`. `Step` then goes on with the wheel behind the last one.

Each call has the list of the slots that it subscripts. The hands stay digits in every run, so a
subscript can only be wrong behind an overflow; the invariant says that no pending timer can
cause one.

* `indices_safe_iff` — in a run without long gaps, all indices are in their ranges exactly when no
  `Step` makes the hands turn, and no `RunAfter` asks for the very moment at which they turn.
* `turn_leaves_wheel` — two steps of less than `2^31` ms each.
-/

namespace FxServer.TimerWheel

open Machine MixedRadix

variable {Cb : Type}

/-- `wheels_[pos.1][pos.2]` exists. -/
def InWheel (pos : SlotPos) : Prop := pos.1 < kWheelCount ∧ pos.2 < slotCount pos.1

/-- The slot for an interval, when `FindPos` returns. -/
def slotOf (w : TimerWheel Cb) (interval : ℤ) : List SlotPos :=
  match w.findPos interval with
  | .ok found => [found.pos]
  | .error _ => []

/-- The indices that a call uses on `wheels_`. -/
def indices (w : TimerWheel Cb) : Op Cb → List SlotPos
  | .runAfter interval _ => w.slotOf interval
  | .runAt expireTime _ => w.slotOf (w.intervalTo expireTime)
  | .step now =>
    match w.findPos (w.intervalTo now) with
    | .error _ => []
    | .ok found =>
      let endWheelPos := if found.overflow then kWheelCount else found.pos.1
      let slotPos := found.pos.2
      let hand := w.hands.getD endWheelPos 0
      let between := if found.overflow then [] else
        (List.range' hand (slotPos - hand)).map fun slotIdx => (endWheelPos, slotIdx)
      let again := ((w.wheels (endWheelPos, slotPos)).filter (now < ·.expireTime)).flatMap
        fun t => slotOf { w with hands := found.newHands } (toInt (t.expireTime - now : ℕ))
      slotsBelow endWheelPos ++ between ++ (endWheelPos, slotPos) :: again
  | .removeTimer _ | .start _ => []

/-- The call returns, and all its indices exist. -/
structure Safe (s : Clocked Cb) (op : Op Cb) : Prop where
  returns : ∃ r, apply s op = .ok r
  inWheel : ∀ pos ∈ indices s.wheel op, InWheel pos

/-- A run of `RunAfter`, `RemoveTimer` of a pending timer, and `Step`, less than `2^31` ms
apart. -/
def Frequent (s : Clocked Cb) : Op Cb → Prop
  | .runAfter interval _ => 0 ≤ interval ∧ interval < 2 ^ 31
  | .removeTimer id => ∃ t ∈ s.wheel.timers, t.id = id
  | .step now => s.clock ≤ now ∧ now - s.clock < 2 ^ 31
  | .runAt _ _ | .start _ => False

/-- The hands do not turn, and no timer is due when they would. -/
def Unturned (s : Clocked Cb) : Op Cb → Prop
  | .runAfter interval _ => s.wheel.position + interval ≠ 2 ^ 31
  | .step now => s.wheel.position + (now - s.clock) < 2 ^ 31
  | .runAt _ _ | .removeTimer _ | .start _ => True

instance (s : Clocked Cb) : DecidablePred (Frequent s)
  | .runAfter interval _ => inferInstanceAs (Decidable (0 ≤ interval ∧ interval < 2 ^ 31))
  | .removeTimer id => inferInstanceAs (Decidable (∃ t ∈ s.wheel.timers, t.id = id))
  | .step now => inferInstanceAs (Decidable (s.clock ≤ now ∧ now - s.clock < 2 ^ 31))
  | .runAt _ _ | .start _ => .isFalse id

instance (s : Clocked Cb) : DecidablePred (Unturned s)
  | .runAfter interval _ => inferInstanceAs (Decidable (s.wheel.position + interval ≠ 2 ^ 31))
  | .step now => inferInstanceAs (Decidable (s.wheel.position + (now - s.clock) < 2 ^ 31))
  | .runAt _ _ | .removeTimer _ | .start _ => .isTrue trivial

/-! ## FindPos -/

/-- A slot that exists is one of a wheel that exists. -/
theorem inWheel_of_slot {pos : SlotPos} (h : pos.2 < slotCount pos.1) : InWheel pos := by
  refine ⟨?_, h⟩
  by_contra hout
  have hnone : slotCount pos.1 = 0 := by
    unfold slotCount
    rw [List.getD_eq_getElem?_getD, List.getElem?_eq_none (Nat.not_lt.1 hout)]
    rfl
  omega

/-- What `FindPos` finds is a slot. -/
theorem findPos_inWheel {w : TimerWheel Cb} {interval : ℤ} {found : FoundPos}
    (h : w.findPos interval = .ok found) : InWheel found.pos := by
  rcases bind_ok.1 h with ⟨_, -, h⟩
  dsimp only at h
  split at h
  · rcases bind_ok.1 h with ⟨_, hslot, h⟩
    cases h
    exact inWheel_of_slot (check_ok.1 hslot)
  · split at h
    · rcases bind_ok.1 h with ⟨_, hslot, h⟩
      cases h
      exact inWheel_of_slot (check_ok.1 hslot)
    · cases h

/-- The interval of a timer leads to a slot. -/
theorem slotOf_inWheel {w : TimerWheel Cb} {interval : ℤ} {pos : SlotPos}
    (h : pos ∈ w.slotOf interval) : InWheel pos := by
  unfold slotOf at h
  split at h
  · rename_i hfound
    rw [List.mem_singleton.1 h]
    exact findPos_inWheel hfound
  · cases h

/-- The five hands. -/
theorem isDigits_eq {hands : List ℕ} (h : IsDigits kWheelSlotCount hands) :
    ∃ a b c d e, hands = [a, b, c, d, e] ∧ a < 128 ∧ b < 64 ∧ c < 64 ∧ d < 64 ∧ e < 64 := by
  unfold IsDigits kWheelSlotCount at h
  simp only [List.forall₂_cons_left_iff, List.forall₂_nil_left_iff] at h
  rcases h with
    ⟨a, _, ha, ⟨b, _, hb, ⟨c, _, hc, ⟨d, _, hd, ⟨e, _, he, rfl, rfl⟩, rfl⟩, rfl⟩, rfl⟩, rfl⟩
  exact ⟨a, b, c, d, e, rfl, ha, hb, hc, hd, he⟩

/-- Only hands that show `0` have no highest hand. -/
theorem highestNonzeroHand_spec {hands : List ℕ} (h : IsDigits kWheelSlotCount hands) :
    (value kWheelSlotCount hands = 0 → highestNonzeroHand hands = none) ∧
      (value kWheelSlotCount hands ≠ 0 →
        ∃ pos, highestNonzeroHand hands = some pos ∧ pos.2 < slotCount pos.1) := by
  rcases isDigits_eq h with ⟨a, b, c, d, e, rfl, ha, hb, hc, hd, he⟩
  -- the search from the highest wheel down, for the five hands there are
  have hfind : highestNonzeroHand [a, b, c, d, e] =
      if e ≠ 0 then some (4, e) else if d ≠ 0 then some (3, d) else if c ≠ 0 then some (2, c)
      else if b ≠ 0 then some (1, b) else if a ≠ 0 then some (0, a) else none := by
    simp only [highestNonzeroHand, List.zipIdx, List.reverse_cons, List.reverse_nil,
      List.nil_append, List.cons_append, List.find?_cons]
    split_ifs <;> simp_all
  have hvalue : value kWheelSlotCount [a, b, c, d, e] =
      a + 128 * (b + 64 * (c + 64 * (d + 64 * (e + 64 * 0)))) := rfl
  rw [hfind, hvalue]
  constructor
  · intro hzero
    rw [if_neg (by omega), if_neg (by omega), if_neg (by omega), if_neg (by omega),
      if_neg (by omega)]
  · intro hne
    split_ifs with h₄ h₃ h₂ h₁ h₀
    · exact ⟨_, rfl, he⟩
    · exact ⟨_, rfl, hd⟩
    · exact ⟨_, rfl, hc⟩
    · exact ⟨_, rfl, hb⟩
    · exact ⟨_, rfl, ha⟩
    · omega

/-- `FindPos` fails its assertion just when the sum is the moment at which the hands turn. -/
theorem findPos_isOk {w : TimerWheel Cb} (hd : IsDigits kWheelSlotCount w.hands) {n : ℕ}
    (hn : n < 2 ^ 31) :
    (∃ found, w.findPos n = .ok found) ↔ w.position + n ≠ 2 ^ 31 := by
  have hroom : w.position < 2 ^ 31 := kWheelSlotCount_prod ▸ value_lt hd
  rcases add_value hd n with ⟨hdigits, hvalue⟩
  rcases add_spec hd n with ⟨hsome, -⟩
  have hposition : value kWheelSlotCount w.hands = w.position := rfl
  rw [kWheelSlotCount_prod, hposition] at hvalue
  rcases Nat.lt_or_ge (w.position + n) (2 ^ 31) with hlt | hge
  · rcases findPos_of_lt hd hlt with ⟨found, hfound, -⟩
    exact iff_of_true ⟨found, hfound⟩ hlt.ne
  · -- the carry leaves the last digit
    have hnone : (add kWheelSlotCount w.hands n).2 = none := by
      rw [Option.eq_none_iff_forall_ne_some]
      intro p hp
      have hless := (hsome p hp).1
      rw [kWheelSlotCount_prod] at hless
      exact absurd hless (Nat.not_lt.2 hge)
    have hrest : value kWheelSlotCount (add kWheelSlotCount w.hands n).1 =
        w.position + n - 2 ^ 31 := by
      rw [hvalue, Nat.mod_eq_sub_mod hge, Nat.mod_eq_of_lt (by omega)]
    rcases highestNonzeroHand_spec hdigits with ⟨hzero, hnonzero⟩
    rw [hrest] at hzero hnonzero
    constructor
    · rintro ⟨found, hfound⟩ heq
      simp only [findPos, check_true (Int.natCast_nonneg n), Int.toNat_natCast, findPosLoop_hands,
        hnone, hzero (by omega), ok_bind] at hfound
      cases hfound
    · intro hne
      rcases hnonzero (by omega) with ⟨pos, hpos, hslot⟩
      refine ⟨⟨(add kWheelSlotCount w.hands n).1, pos, true⟩, ?_⟩
      simp only [findPos, check_true (Int.natCast_nonneg n), Int.toNat_natCast, findPosLoop_hands,
        hnone, hpos, check_true hslot, ok_bind]

/-- An answer without an overflow is one in the room that is left. -/
theorem findPos_overflow {w : TimerWheel Cb} (hd : IsDigits kWheelSlotCount w.hands) {n : ℕ}
    {found : FoundPos} (h : w.findPos n = .ok found) :
    found.overflow = false ↔ w.position + n < 2 ^ 31 := by
  constructor
  · intro ho
    have hlt := (findPos_spec hd h ho).1
    rwa [Int.toNat_natCast] at hlt
  · intro hlt
    rcases findPos_of_lt hd hlt with ⟨found', hfound, ho⟩
    obtain rfl : found' = found := Except.ok.inj (hfound.symm.trans h)
    exact ho

/-! ## The last loop of `Step` -/

/-- The loop goes through when `FindPos` has a slot for every timer. -/
theorem adjust_isOk (now : ℕ) (rest : List (Timer Cb)) (w : TimerWheel Cb)
    (hl : Linked w.wheels w.timers)
    (hrest : ∀ t ∈ rest, t ∈ w.timers ∧ now < t.expireTime ∧
      ∃ found, w.findPos (toInt (t.expireTime - now : ℕ)) = .ok found) :
    ∃ wheels, adjust now rest w = .ok { w with wheels } ∧ Linked wheels w.timers := by
  induction rest generalizing w with
  | nil => exact ⟨w.wheels, rfl, hl⟩
  | cons t rest ih =>
    rcases hrest t List.mem_cons_self with ⟨ht, hnow, found, hfound⟩
    rcases hl.linked t ht with ⟨pos, hpos⟩
    -- the first timer is moved, and the table is linked again for the rest
    have hl' : Linked (pushBack (unlink w.wheels t.id) found.pos t) w.timers :=
      hl.move ht (mem_slotsBelow.2 (findPos_inWheel hfound))
    obtain ⟨wheels, hadjust, hlinked⟩ := ih
      { w with wheels := pushBack (unlink w.wheels t.id) found.pos t } hl'
      fun u hu => hrest u (List.mem_cons_of_mem _ hu)
    refine ⟨wheels, ?_, hlinked⟩
    rw [adjust, check_true hnow, check_true (isLinked_of_mem (hl.slot pos t hpos) hpos),
      ok_bind, ok_bind, hfound, ok_bind]
    exact hadjust

/-! ## One call -/

/-- No pending timer is due when the hands turn. -/
structure Spins (s : Clocked Cb) : Prop where
  /-- every hand points to a slot of its wheel -/
  digits : IsDigits kWheelSlotCount s.wheel.hands
  /-- the timers are in slots -/
  linked : Linked s.wheel.wheels s.wheel.timers
  ids_le : ∀ t ∈ s.wheel.timers, t.id ≤ s.wheel.lastTimerId
  /-- intervals count from the clock -/
  base : s.wheel.lastExpireTime = s.clock
  /-- no deadline is further away than an `int` can tell -/
  near : ∀ t ∈ s.wheel.timers, t.expireTime < s.clock + 2 ^ 31
  /-- and none is at the moment when the hands turn -/
  due : ∀ t ∈ s.wheel.timers, t.expireTime + s.wheel.position ≠ s.clock + 2 ^ 31

theorem spins_new (built : ℕ) : Spins (Clocked.new built : Clocked Cb) where
  digits := (new_inv Exact built).digits
  linked := (new_inv Exact built).linked
  ids_le := by simp [Clocked.new, new]
  base := rfl
  near := by simp [Clocked.new, new]
  due := by simp [Clocked.new, new]

/-- Registering fails only where the sum is the whole turn. -/
theorem Spins.runAfter_isOk {s : Clocked Cb} (h : Spins s) {n : ℕ} (hn : n < 2 ^ 31) (cb : Cb) :
    (∃ w, s.wheel.runAfter n cb = .ok w) ↔ s.wheel.position + n ≠ 2 ^ 31 := by
  rw [← findPos_isOk h.digits hn]
  constructor
  · rintro ⟨w, hw⟩
    rcases bind_ok.1 hw with ⟨found, hfound, -⟩
    exact ⟨found, hfound⟩
  · rintro ⟨found, hfound⟩
    have hnone : (findTimer s.wheel.timers (s.wheel.lastTimerId + 1)).isNone = true := by
      rw [findTimer_next h.ids_le, Option.isNone_none]
    exact ⟨_, bind_ok.2 ⟨found, hfound, bind_ok.2 ⟨(), check_true hnone, rfl⟩⟩⟩

/-- Otherwise the wheel spins on. -/
theorem Spins.runAfter {s : Clocked Cb} (h : Spins s) {n : ℕ} (hn : n < 2 ^ 31) {cb : Cb}
    {w : TimerWheel Cb} (hok : s.wheel.runAfter n cb = .ok w) : Spins { s with wheel := w } := by
  have hbase := h.base
  -- the one interval at which the new hands would all be 0 is ruled out
  have hturn := (h.runAfter_isOk hn cb).1 ⟨w, hok⟩
  rcases bind_ok.1 hok with ⟨found, hfound, hok⟩
  rcases bind_ok.1 hok with ⟨_, -, hok⟩
  cases hok
  have hmem : ∀ t ∈ s.wheel.timers ++ [s.wheel.nextTimer n cb],
      t ∈ s.wheel.timers ∨ t = s.wheel.nextTimer n cb := by simp
  refine ⟨h.digits, ?_, fun t ht => ?_, hbase, fun t ht => ?_, fun t ht => ?_⟩
  · exact h.linked.add (id_ne_next h.ids_le n cb) (mem_slotsBelow.2 (findPos_inWheel hfound))
  · rcases hmem t ht with ht | rfl
    · exact Nat.le_succ_of_le (h.ids_le t ht)
    · exact Nat.le_refl _
  · rcases hmem t ht with ht | rfl
    · exact h.near t ht
    · show n + s.wheel.lastExpireTime < s.clock + 2 ^ 31
      omega
  · rcases hmem t ht with ht | rfl
    · exact h.due t ht
    · show n + s.wheel.lastExpireTime + s.wheel.position ≠ s.clock + 2 ^ 31
      omega

/-- A timer that is there can be removed. -/
theorem Spins.removeTimer {s : Clocked Cb} (h : Spins s) {t : Timer Cb} (ht : t ∈ s.wheel.timers) :
    ∃ w, s.wheel.removeTimer t.id = .ok w ∧ Spins { s with wheel := w } := by
  refine ⟨_, by simp only [TimerWheel.removeTimer, findTimer_of_mem h.linked.ids ht]; rfl, ?_⟩
  have hmem : ∀ u ∈ eraseTimer s.wheel.timers t.id, u ∈ s.wheel.timers := fun u hu =>
    (List.mem_filter.1 hu).1
  exact ⟨h.digits, h.linked.unlink t.id, fun u hu => h.ids_le u (hmem u hu), h.base,
    fun u hu => h.near u (hmem u hu), fun u hu => h.due u (hmem u hu)⟩

/-- The interval to a time that is not too far is the difference. -/
theorem Spins.interval {s : Clocked Cb} (h : Spins s) {now : ℕ} (hgap : now - s.clock < 2 ^ 31) :
    s.wheel.intervalTo now = ((now - s.clock : ℕ) : ℤ) := by
  rw [intervalTo, h.base]
  exact interval_of_lt hgap

/-- A step within the turn succeeds. -/
theorem Spins.step {s : Clocked Cb} (h : Spins s) {now : ℕ} (hclock : s.clock ≤ now)
    (hroom : s.wheel.position + (now - s.clock) < 2 ^ 31) :
    ∃ w out, s.wheel.step now [] = .ok (w, out) ∧ Spins ⟨w, now⟩ := by
  have hinterval : s.wheel.intervalTo now = ((now - s.clock : ℕ) : ℤ) := h.interval (by omega)
  rcases findPos_of_lt h.digits hroom with ⟨found, hfound, ho⟩
  rcases findPos_spec h.digits hfound ho with ⟨-, hdigits, hvalue, hstop⟩
  rw [Int.toNat_natCast] at hvalue hstop
  have hhand : s.wheel.hands.getD found.pos.1 0 ≤ found.pos.2 := by
    rw [hand_eq_digit h.digits, hstop.2]
    exact hstop.1.digit_le (Nat.le_add_right _ _)
  have hposition : (s.wheel.handedOut found now).position =
      s.wheel.position + (now - s.clock) := hvalue
  obtain ⟨wheels, hadjust, hlinked⟩ := adjust_isOk now
    ((s.wheel.wheels found.pos).filter (now < ·.expireTime)) (s.wheel.handedOut found now)
    (h.linked.linked_handedOut found now) (by
      intro t ht
      rcases List.mem_filter.1 ht with ⟨ht, hnow⟩
      have hnow : now < t.expireTime := by simpa using hnow
      have hmem := h.linked.mem found.pos t ht
      have hnot : t ∉ s.wheel.fired found.pos now := by
        rw [h.linked.mem_fired ht]
        simp [stop_not_passed, hnow]
      refine ⟨List.mem_filter.2 ⟨hmem, by simpa [h.linked.mem_fired_ids hmem] using hnot⟩, hnow, ?_⟩
      -- the timer is due at the moment that was computed when it was registered
      have hnear := h.near t hmem
      have hdue := h.due t hmem
      rw [toInt_of_lt (by omega), findPos_isOk hdigits (by omega), hposition]
      omega)
  refine ⟨{ s.wheel.handedOut found now with wheels, lastExpireTime := now },
    [] ++ (s.wheel.fired found.pos now).map Timer.cb, ?_, ?_⟩
  · rw [h.linked.step_eq (hinterval ▸ hfound) ho hhand, hadjust]
    rfl
  · have hmem : ∀ t ∈ (s.wheel.handedOut found now).timers, t ∈ s.wheel.timers := fun t ht =>
      (List.mem_filter.1 ht).1
    refine ⟨hdigits, hlinked, fun t ht => h.ids_le t (hmem t ht), rfl, fun t ht => ?_,
      fun t ht => ?_⟩
    · have hnear := h.near t (hmem t ht)
      show t.expireTime < now + 2 ^ 31
      omega
    · have hdue := h.due t (hmem t ht)
      show t.expireTime + (s.wheel.handedOut found now).position ≠ now + 2 ^ 31
      rw [hposition]
      omega

/-- A step succeeds exactly within the turn. -/
theorem Spins.step_isOk {s : Clocked Cb} (h : Spins s) {now : ℕ} (hclock : s.clock ≤ now)
    (hgap : now - s.clock < 2 ^ 31) :
    (∃ r, s.wheel.step now [] = .ok r) ↔ s.wheel.position + (now - s.clock) < 2 ^ 31 := by
  constructor
  · rintro ⟨r, hok⟩
    rcases step_returns hok with ⟨⟨found, hfound, ho⟩, -⟩
    rw [h.interval hgap] at hfound
    exact (findPos_overflow h.digits hfound).1 ho
  · intro hroom
    rcases h.step hclock hroom with ⟨w, out, hok, -⟩
    exact ⟨(w, out), hok⟩

/-- Every frequent call keeps the wheel spinning. -/
theorem apply_spins (s : Clocked Cb) (op : Op Cb) (s' : Clocked Cb) (out : List Cb)
    (h : Spins s) (hop : Frequent s op) (hok : apply s op = .ok (s', out)) : Spins s' := by
  cases op with
  | runAfter interval cb =>
    rcases Int.eq_ofNat_of_zero_le hop.1 with ⟨n, rfl⟩
    rcases bind_ok.1 hok with ⟨w, hw, hok⟩
    cases hok
    exact h.runAfter (by exact_mod_cast hop.2) hw
  | runAt expireTime cb => exact hop.elim
  | removeTimer id =>
    rcases hop with ⟨t, ht, rfl⟩
    rcases h.removeTimer ht with ⟨w, hw, hspins⟩
    rcases bind_ok.1 hok with ⟨w', hw', hok⟩
    cases hok
    obtain rfl : w = w' := Except.ok.inj (hw.symm.trans hw')
    exact hspins
  | start now => exact hop.elim
  | step now =>
    rcases bind_ok.1 hok with ⟨⟨w, out⟩, hw, hok⟩
    cases hok
    rcases h.step hop.1 ((h.step_isOk hop.1 hop.2).1 ⟨_, hw⟩) with ⟨w', out', hw', hspins⟩
    rcases Prod.mk.inj (Except.ok.inj (hw'.symm.trans hw)) with ⟨rfl, -⟩
    exact hspins

/-- Without an overflow `Step` stays inside the wheels. -/
theorem step_inWheel {w : TimerWheel Cb} {now : ℕ} {found : FoundPos}
    (hfound : w.findPos (w.intervalTo now) = .ok found) (ho : found.overflow = false) :
    ∀ pos ∈ indices w (.step now), InWheel pos := by
  rcases findPos_inWheel hfound with ⟨hwheel, hslot⟩
  intro pos hpos
  simp only [indices, hfound, ho, Bool.false_eq_true, if_false] at hpos
  -- the wheels below the stop, the slots of its wheel before it, the stop, and where its timers
  -- go
  rcases List.mem_append.1 hpos with hpos | hpos
  · rcases List.mem_append.1 hpos with hpos | hpos
    · rcases mem_slotsBelow.1 hpos with ⟨hbelow, hslot'⟩
      exact ⟨hbelow.trans hwheel, hslot'⟩
    · rcases List.mem_map.1 hpos with ⟨slotIdx, hslotIdx, rfl⟩
      rw [List.mem_range'_1] at hslotIdx
      exact ⟨hwheel, show slotIdx < slotCount found.pos.1 by omega⟩
  · rcases List.mem_cons.1 hpos with rfl | hpos
    · exact ⟨hwheel, hslot⟩
    · rcases List.mem_flatMap.1 hpos with ⟨t, -, hpos⟩
      exact slotOf_inWheel hpos

/-- One call is safe exactly if it does not turn the wheel over. -/
theorem Spins.safe_iff {s : Clocked Cb} {op : Op Cb} (h : Spins s) (hop : Frequent s op) :
    Safe s op ↔ Unturned s op := by
  cases op with
  | runAfter interval cb =>
    rcases Int.eq_ofNat_of_zero_le hop.1 with ⟨n, rfl⟩
    have hn : n < 2 ^ 31 := by exact_mod_cast hop.2
    -- a `RunAfter` may overflow: only the one that lands on 0 exactly is unsafe
    have hturn : Unturned s (.runAfter n cb) ↔ s.wheel.position + n ≠ 2 ^ 31 := by
      unfold Unturned
      omega
    rw [hturn, ← h.runAfter_isOk hn cb]
    constructor
    · rintro ⟨⟨r, hok⟩, -⟩
      rcases bind_ok.1 hok with ⟨w, hw, -⟩
      exact ⟨w, hw⟩
    · rintro ⟨w, hw⟩
      exact ⟨⟨_, bind_ok.2 ⟨w, hw, rfl⟩⟩, fun pos hpos => slotOf_inWheel hpos⟩
  | runAt expireTime cb => exact hop.elim
  | removeTimer id =>
    rcases hop with ⟨t, ht, rfl⟩
    rcases h.removeTimer ht with ⟨w, hw, -⟩
    refine iff_of_true ⟨⟨_, bind_ok.2 ⟨w, hw, rfl⟩⟩, ?_⟩ trivial
    intro pos hpos
    cases hpos
  | start now => exact hop.elim
  | step now =>
    -- a `Step` may not: its overflow ends in `wheels_[5]`
    have hturn : Unturned s (.step now) ↔ s.wheel.position + (now - s.clock) < 2 ^ 31 := by
      have hclock : s.clock ≤ now := hop.1
      unfold Unturned
      omega
    rw [hturn, ← h.step_isOk hop.1 hop.2]
    constructor
    · rintro ⟨⟨r, hok⟩, -⟩
      rcases bind_ok.1 hok with ⟨r', hstep, -⟩
      exact ⟨r', hstep⟩
    · rintro ⟨r, hstep⟩
      rcases step_returns hstep with ⟨⟨found, hfound, ho⟩, -⟩
      exact ⟨⟨_, bind_ok.2 ⟨r, hstep, rfl⟩⟩, step_inWheel hfound ho⟩

/-! ## Runs -/

/-- In a run whose steps are less than `2^31` ms apart, every call finds its slots and `FindPos`
an answer, if and only if the hands never turn and no timer is due when they would. -/
theorem indices_safe_iff (built : ℕ) (ops : List (Op Cb))
    (h : Guarded apply Frequent (Clocked.new built) ops) :
    Guarded apply Safe (Clocked.new built) ops ↔ Guarded apply Unturned (Clocked.new built) ops :=
  Guarded.iff_of_inv Spins apply_spins (fun _ _ hs hop => hs.safe_iff hop) (spins_new built) h

/-- A run of safe calls goes through. -/
theorem safe_run {s : Clocked Cb} {ops : List (Op Cb)} (h : Guarded apply Safe s ops) :
    ∃ s' outs, run apply s ops = .ok (s', outs) := by
  obtain ⟨s', outs, hrun, -⟩ := run_of_inv (fun _ => True)
    (fun s op _ hsafe => by
      rcases hsafe.returns with ⟨⟨s', out⟩, hok⟩
      exact ⟨s', out, hok, trivial⟩) trivial h
  exact ⟨s', outs, hrun⟩

/-- A run that registers, steps and removes. -/
theorem indices_safe_run :
    Guarded apply Safe (Clocked.new 0) [.runAfter 100 7, .step 90, .removeTimer 1, .step 200] :=
  (indices_safe_iff 0 _ (by decide)).2 (by decide)

/-- Two steps that are `2^31 - 1` ms and a millisecond long: the hands have turned, no hand is
left that is not `0`, and the assertion behind the loop fails. When the second step is `5` ms
longer, the last loop reads the wheel behind the last one. -/
theorem turn_leaves_wheel :
    Guarded apply Frequent (Clocked.new 0 : Clocked ℕ) [.step (2 ^ 31 - 1), .step (2 ^ 31)] ∧
    (run apply (Clocked.new 0) [.step (2 ^ 31 - 1), .step (2 ^ 31)]).map Prod.snd =
      (.error .assertion : Except Fault (List (List ℕ))) ∧
    ¬ Guarded apply Safe (Clocked.new 0 : Clocked ℕ) [.step (2 ^ 31 - 1), .step (2 ^ 31)] ∧
    (run apply (Clocked.new 0) [.step (2 ^ 31 - 1), .step (2 ^ 31 + 5)]).map Prod.snd =
      (.error .outOfBounds : Except Fault (List (List ℕ))) := by
  have hturn : (run apply (Clocked.new 0) [.step (2 ^ 31 - 1), .step (2 ^ 31)]).map Prod.snd =
      (.error .assertion : Except Fault (List (List ℕ))) := by decide +kernel
  refine ⟨by decide +kernel, hturn, fun hsafe => ?_, by decide +kernel⟩
  rcases safe_run hsafe with ⟨s, outs, hrun⟩
  rw [hrun] at hturn
  cases hturn

end FxServer.TimerWheel
