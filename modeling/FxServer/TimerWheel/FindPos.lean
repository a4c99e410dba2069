import FxServer.TimerWheel.Indices

/-!
# FxServer.TimerWheel.FindPos — the hands after an interval

`FindPos` adds an interval to the hands, digit by digit, and drops what is carried out of the
last wheel. When nothing is, it answers with the highest hand that has changed.

The first loop is the addition of `MixedRadix`, and without an overflow its answer is the leading
digit of the sum. With one, the answer comes from the second loop, which looks at the new hands
alone.

* `findPos_adds_iff` — for every interval from `0` to `2^31 - 1` these are the hands, the overflow
  flag and the slot, unless the hands come round to `0` exactly: there `FindPos` looks for a hand
  that is not `0`, and its assertion fails.
* `findPos_aborts` — one millisecond after the hands have shown `2^31 - 1`.
-/

namespace FxServer.TimerWheel

open MixedRadix

variable {Cb : Type}

/-- The hands move on by `n`, modulo `2^31`. -/
def MovesOn (w : TimerWheel Cb) (n : ℕ) (found : FoundPos) : Prop :=
  IsDigits kWheelSlotCount found.newHands ∧
    value kWheelSlotCount found.newHands = (w.position + n) % 2 ^ 31

/-- The slot of the highest hand that the interval `n` changes. -/
def SlotOfChange (w : TimerWheel Cb) (n : ℕ) (pos : SlotPos) : Prop :=
  HighestDiffering kWheelSlotCount w.position (w.position + n) pos.1 ∧
    pos.2 = digit kWheelSlotCount (w.position + n) pos.1

/-- `FindPos(n)` adds `n` to the hands. -/
def Adds (w : TimerWheel Cb) (n : ℕ) : Prop :=
  ∃ found, w.findPos n = .ok found ∧ w.MovesOn n found ∧
    (found.overflow = true ↔ 2 ^ 31 ≤ w.position + n) ∧
    (found.overflow = false → w.SlotOfChange n found.pos)

/-- On every way out of `FindPos` the new hands are those of the addition. -/
theorem findPos_newHands {w : TimerWheel Cb} {n : ℕ} {found : FoundPos}
    (h : w.findPos n = .ok found) : found.newHands = (add kWheelSlotCount w.hands n).1 := by
  unfold findPos at h
  rcases bind_ok.1 h with ⟨_, -, h⟩
  simp only [findPosLoop_hands, Int.toNat_natCast] at h
  split at h
  · -- the first loop returns
    rcases bind_ok.1 h with ⟨_, -, h⟩
    cases h
    rfl
  · -- the second loop looks for a hand
    split at h
    · rcases bind_ok.1 h with ⟨_, -, h⟩
      cases h
      rfl
    · cases h

/-- The hands that `FindPos` finds are those the time moves on to. -/
theorem findPos_movesOn {w : TimerWheel Cb} (hd : IsDigits kWheelSlotCount w.hands) {n : ℕ}
    {found : FoundPos} (h : w.findPos n = .ok found) : w.MovesOn n found := by
  rcases add_value hd n with ⟨hdigits, hvalue⟩
  rw [kWheelSlotCount_prod] at hvalue
  rw [MovesOn, findPos_newHands h]
  exact ⟨hdigits, hvalue⟩

/-- The slot it finds is on the highest wheel whose hand changes. -/
theorem findPos_slotOfChange {w : TimerWheel Cb} (hd : IsDigits kWheelSlotCount w.hands) {n : ℕ}
    {found : FoundPos} (h : w.findPos n = .ok found) (ho : found.overflow = false) :
    w.SlotOfChange n found.pos := by
  rcases findPos_spec hd h ho with ⟨-, -, -, hlead, hslot⟩
  rw [Int.toNat_natCast] at hlead hslot
  exact ⟨hlead.highestDiffering, hslot⟩

/-- `FindPos` adds every interval but the one that takes the hands round to `0`. -/
theorem findPos_adds_iff {w : TimerWheel Cb} (hd : IsDigits kWheelSlotCount w.hands) {n : ℕ}
    (hn : n < 2 ^ 31) : w.Adds n ↔ w.position + n ≠ 2 ^ 31 := by
  rw [← findPos_isOk hd hn]
  constructor
  · rintro ⟨found, hfound, -⟩
    exact ⟨found, hfound⟩
  · rintro ⟨found, hfound⟩
    have hoverflow := findPos_overflow hd hfound
    refine ⟨found, hfound, findPos_movesOn hd hfound, ?_, findPos_slotOfChange hd hfound⟩
    rw [← Nat.not_lt, ← hoverflow, Bool.not_eq_false]

/-- An hour from hands in the middle of their wheels. -/
theorem findPos_adds_hour :
    Adds { (new 0 : TimerWheel ℕ) with hands := [100, 63, 63, 5, 0] } 3600000 :=
  (findPos_adds_iff (by unfold IsDigits; decide) (by decide)).2 (by decide)

/-- The hands show the last moment before they turn. -/
theorem findPos_aborts :
    IsDigits kWheelSlotCount [127, 63, 63, 63, 63] ∧
    findPos { (new 0 : TimerWheel ℕ) with hands := [127, 63, 63, 63, 63] } 1 =
      .error .assertion ∧
    ¬ Adds { (new 0 : TimerWheel ℕ) with hands := [127, 63, 63, 63, 63] } 1 := by
  have habort : findPos { (new 0 : TimerWheel ℕ) with hands := [127, 63, 63, 63, 63] } 1 =
      .error .assertion := by decide
  refine ⟨by unfold IsDigits; decide, habort, ?_⟩
  rintro ⟨found, hfound, -⟩
  rw [Nat.cast_one, habort] at hfound
  cases hfound

end FxServer.TimerWheel
