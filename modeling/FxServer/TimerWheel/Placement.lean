import FxServer.MixedRadix
import FxServer.TimerWheel

/-!
# FxServer.TimerWheel.Placement — `FindPos` is mixed-radix addition

The hands are the digits of a position in `[0, 2^31)`. `FindPos(interval)` adds
the interval to them and answers with the leading digit of the sum: the wheel is
the highest digit that the addition changes, the slot is the new digit there.

The loops with masks and shifts are read as the addition of `MixedRadix` here, and
nowhere else.
-/

namespace FxServer.TimerWheel

open MixedRadix

variable {Cb : Type}

/-- The time the hands show, counted from where they started. -/
def position (w : TimerWheel Cb) : ℕ := value kWheelSlotCount w.hands

/-- `pos` is the slot of a timer due at position `due` when the hands show `here`. -/
def SlotFor (here due : ℕ) (pos : SlotPos) : Prop :=
  Lead kWheelSlotCount here due pos.1 ∧ pos.2 = digit kWheelSlotCount due pos.1

/-- The wheels together have `2 ^ 31` positions. -/
theorem kWheelSlotCount_prod : kWheelSlotCount.prod = 2 ^ 31 := by decide

theorem kWheelSlotCount_pos : ∀ r ∈ kWheelSlotCount, 0 < r := by decide

theorem SlotFor.wheel_lt {here due : ℕ} {pos : SlotPos} (h : SlotFor here due pos) :
    pos.1 < kWheelCount := h.1.lt_length

theorem SlotFor.slot_lt {here due : ℕ} {pos : SlotPos} (h : SlotFor here due pos) :
    pos.2 < slotCount pos.1 := by
  rw [h.2]
  exact digit_lt kWheelSlotCount_pos due h.1.lt_length

/-- There is only one. -/
theorem SlotFor.unique {here due : ℕ} {pos pos' : SlotPos} (h : SlotFor here due pos)
    (h' : SlotFor here due pos') : pos = pos' := by
  have hwheel : pos.1 = pos'.1 := h.1.unique h'.1
  exact Prod.ext hwheel (by rw [h.2, h'.2, hwheel])

theorem mem_slotsBelow {n : ℕ} {pos : SlotPos} :
    pos ∈ slotsBelow n ↔ pos.1 < n ∧ pos.2 < slotCount pos.1 := by
  rcases pos with ⟨wheelIdx, slotIdx⟩
  simp only [slotsBelow, List.mem_flatMap, List.mem_range, List.mem_map, Prod.mk.injEq]
  constructor
  · rintro ⟨i, hi, j, hj, rfl, rfl⟩
    exact ⟨hi, hj⟩
  · rintro ⟨hi, hj⟩
    exact ⟨wheelIdx, hi, slotIdx, hj, rfl, rfl⟩

theorem SlotFor.mem_slots {here due : ℕ} {pos : SlotPos} (h : SlotFor here due pos) :
    pos ∈ slotsBelow kWheelCount := mem_slotsBelow.2 ⟨h.wheel_lt, h.slot_lt⟩

/-- The hands that show `here` have left the slot `pos`, which lies ahead, when they
show this position. -/
def slotEnd (here : ℕ) (pos : SlotPos) : ℕ := blockEnd kWheelSlotCount here pos.1 pos.2

/-- A slot goes on to the position before its end. -/
theorem SlotFor.slotEnd {here due : ℕ} {pos : SlotPos} (h : SlotFor here due pos)
    (hdue : due < 2 ^ 31) :
    ∃ last, slotEnd here pos = last + 1 ∧ due ≤ last ∧ last < 2 ^ 31 ∧ SlotFor here last pos := by
  rw [← kWheelSlotCount_prod] at hdue
  rcases h.1.blockEnd kWheelSlotCount_pos hdue with ⟨last, hend, hle, hlt, hlead, hdigit⟩
  rw [kWheelSlotCount_prod] at hlt
  rw [← h.2] at hend hdigit
  exact ⟨last, hend, hle, hlt, hlead, hdigit.symm⟩

/-! ## `FindPos` -/

/-- The masks and shifts of the loop are the remainders and quotients of `add`. -/
theorem findPosLoop_eq_add (offsets hands : List ℕ) (idx interval : ℕ) :
    findPosLoop (offsets.zip (offsets.map (2 ^ ·))) hands idx interval =
      ((add (offsets.map (2 ^ ·)) hands interval).1,
        (add (offsets.map (2 ^ ·)) hands interval).2.map fun p => (idx + p.1, p.2)) := by
  induction offsets generalizing hands idx interval with
  | nil => simp [findPosLoop, add]
  | cons offset offsets ih =>
    cases hands with
    | nil => simp [findPosLoop, add]
    | cons hand hands =>
      simp only [List.map_cons, List.zip_cons_cons, findPosLoop, add,
        Nat.and_two_pow_sub_one_eq_mod, Nat.shiftRight_eq_div_pow]
      split_ifs with hcarry hq
      all_goals simp only [ih, Option.map_some, Option.map_map, Function.comp_def, Nat.add_zero]
      all_goals simp [Nat.add_assoc, Nat.add_comm 1]

/-- The offsets are the logarithms of the counts. -/
theorem kWheels_eq : kWheelSlotOffset.zip kWheelSlotCount =
    kWheelSlotOffset.zip (kWheelSlotOffset.map (2 ^ ·)) := by decide

theorem kWheelSlotCount_eq : kWheelSlotOffset.map (2 ^ ·) = kWheelSlotCount := by decide

/-- The loop adds the interval to the hands, digit by digit. -/
theorem findPosLoop_hands (hands : List ℕ) (interval : ℕ) :
    findPosLoop (kWheelSlotOffset.zip kWheelSlotCount) hands 0 interval =
      add kWheelSlotCount hands interval := by
  rw [kWheels_eq, findPosLoop_eq_add, kWheelSlotCount_eq]
  simp

/-- `assert(interval >= 0)` -/
theorem findPos_nonneg {w : TimerWheel Cb} {interval : ℤ} {found : FoundPos}
    (h : w.findPos interval = .ok found) : 0 ≤ interval := by
  rcases bind_ok.1 h with ⟨_, hnonneg, -⟩
  exact check_ok.1 hnonneg

/-- What `FindPos` answers when it reports no overflow. -/
theorem findPos_spec {w : TimerWheel Cb} (hd : IsDigits kWheelSlotCount w.hands) {interval : ℤ}
    {found : FoundPos} (h : w.findPos interval = .ok found) (ho : found.overflow = false) :
    w.position + interval.toNat < 2 ^ 31 ∧ IsDigits kWheelSlotCount found.newHands ∧
      value kWheelSlotCount found.newHands = w.position + interval.toNat ∧
      SlotFor w.position (w.position + interval.toNat) found.pos := by
  unfold findPos at h
  rcases bind_ok.1 h with ⟨_, -, h⟩
  simp only [findPosLoop_hands] at h
  rcases add_value hd interval.toNat with ⟨hdigits, hvalue⟩
  rcases add_spec hd interval.toNat with ⟨hsome, -⟩
  split at h
  · rename_i pos hpos
    rcases bind_ok.1 h with ⟨_, -, h⟩
    cases h
    -- a wheel whose hand moves: the highest one is where the timer goes
    rcases hsome pos hpos with ⟨hlt, hlead, hslot⟩
    rw [kWheelSlotCount_prod] at hlt hvalue
    exact ⟨hlt, hdigits, hvalue.trans (Nat.mod_eq_of_lt hlt), hlead, hslot⟩
  · -- no hand moves: this is the overflow, or the assertion that is never to be reached
    split at h
    · rcases bind_ok.1 h with ⟨_, -, h⟩
      cases h
      cases ho
    · cases h

/-- Below `2^31` there is no overflow. -/
theorem findPos_of_lt {w : TimerWheel Cb} (hd : IsDigits kWheelSlotCount w.hands) {n : ℕ}
    (h : w.position + n < 2 ^ 31) :
    ∃ found, w.findPos n = .ok found ∧ found.overflow = false := by
  rcases add_spec hd n with ⟨hsome, hnone⟩
  cases hadd : (add kWheelSlotCount w.hands n).2 with
  | none =>
    rw [kWheelSlotCount_prod] at hnone
    rcases Nat.eq_zero_or_pos n with rfl | hn
    · -- adding `0` stops at once
      exfalso
      obtain ⟨h₀, hs⟩ : ∃ h₀ hs, w.hands = h₀ :: hs :=
        List.exists_cons_of_length_pos (by rw [hd.length_eq]; decide)
      rw [hs.choose_spec] at hd hadd
      cases hd with
      | cons hlt _ => simp [add, Nat.not_le.2 hlt, kWheelSlotCount] at hadd
    · exact absurd (hnone hadd hn) (Nat.not_le.2 h)
  | some pos =>
    rcases hsome pos hadd with ⟨-, hlead, hslot⟩
    have hfor : SlotFor w.position (w.position + n) pos := ⟨hlead, hslot⟩
    refine ⟨⟨(add kWheelSlotCount w.hands n).1, pos, false⟩, ?_, rfl⟩
    simp only [findPos, check_true (Int.natCast_nonneg n), Int.toNat_natCast, findPosLoop_hands,
      hadd, check_true hfor.slot_lt, ok_bind]

end FxServer.TimerWheel
