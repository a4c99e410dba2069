import Mathlib.Data.List.Sort
import Mathlib.Logic.Function.Basic
import FxServer.Basic

/-!
# FxServer.TimerWheel — the timer wheel of an event loop

The model of `src/fx_timer_wheel.cc`. Five wheels of 128, 64, 64, 64 and 64 slots
write a time in milliseconds in mixed radix; `hands` is the time the wheel has
reached, counted from where the hands started. A timer waits in the slot of the
highest digit its due time does not share with the hands. `Step` hands out the
slots that the hands pass and places again what is left in the slot they stop at.

A `Timer` object never changes after it is registered, so the nodes in the slots
and the pointers in `timers_` are modelled by its value. The intrusive lists
unlink a node from whatever list it is in.

The wheel works in intervals from `last_expire_time_`, and an interval is an `int`;
the clock is 64 bits wide. Both widths are kept, as much of what can go wrong comes
from the difference.
-/

namespace FxServer

/-- A registered callback. Times are in milliseconds. -/
structure Timer (Cb : Type) where
  id : ℕ
  expireTime : ℕ
  cb : Cb
deriving DecidableEq, Repr

/-- A wheel and a slot of it. -/
abbrev SlotPos := ℕ × ℕ

/-- The lists `wheels_[i][j]`. -/
abbrev Wheels (Cb : Type) := SlotPos → List (Timer Cb)

namespace TimerWheel

def kWheelCount : ℕ := 5

def kWheelSlotOffset : List ℕ := [7, 6, 6, 6, 6]

def kWheelSlotCount : List ℕ := [128, 64, 64, 64, 64]

end TimerWheel

/-- The fields of a `TimerWheel`. Both copies of the hands are kept, as `FindPos` fills the
one that is not in use. -/
structure TimerWheel (Cb : Type) where
  /-- `hands_`: the copy of the hands in use -/
  hands : List ℕ
  /-- the other copy, `hands_copy_[1 - hands_idx_]` -/
  spareHands : List ℕ
  lastTimerId : ℕ
  lastExpireTime : ℕ
  wheels : Wheels Cb
  /-- `timers_`, in the order of its keys -/
  timers : List (Timer Cb)
  /-- `expire_time_queue_`, the top first -/
  expireTimeQueue : List ℕ

namespace TimerWheel

variable {Cb : Type}

/-- A wheel built when the clock shows `now`. -/
def new (now : ℕ) : TimerWheel Cb where
  hands := [0, 0, 0, 0, 0]
  spareHands := [0, 0, 0, 0, 0]
  lastTimerId := 0
  lastExpireTime := now
  wheels := fun _ => []
  timers := []
  expireTimeQueue := []

/-! ## FindPos -/

/-- The first loop of `FindPos`, from the wheel `idx` on: the new hands, and the
slot when the loop returns. -/
def findPosLoop : List (ℕ × ℕ) → List ℕ → ℕ → ℕ → List ℕ × Option SlotPos
  | (slotOffset, slotCount) :: ws, hand :: hands, idx, interval =>
    -- a carry out of this digit is added to what is left of the interval
    let mod := interval &&& (slotCount - 1)
    let res := interval >>> slotOffset
    let newHand := if slotCount ≤ mod + hand then mod + hand - slotCount else mod + hand
    let res := if slotCount ≤ mod + hand then res + 1 else res
    if res = 0 then (newHand :: hands, some (idx, newHand))
    else (newHand :: (findPosLoop ws hands (idx + 1) res).1,
      (findPosLoop ws hands (idx + 1) res).2)
  | _, hands, _, _ => (hands, none)

/-- The second loop of `FindPos`: on an overflow, the highest hand that is not `0`. -/
def highestNonzeroHand (newHands : List ℕ) : Option SlotPos :=
  (newHands.zipIdx.reverse.find? (·.1 ≠ 0)).map fun (hand, idx) => (idx, hand)

/-- What `FindPos` gives back: the slot, the new hands and the overflow flag. -/
structure FoundPos where
  newHands : List ℕ
  pos : SlotPos
  overflow : Bool
deriving DecidableEq, Repr

/-- How many slots the wheel has. -/
def slotCount (wheelIdx : ℕ) : ℕ := kWheelSlotCount.getD wheelIdx 0

/-- `FindPos`: the slot for an interval, and the hands when the interval is over. -/
def findPos (w : TimerWheel Cb) (interval : ℤ) : Except Fault FoundPos := do
  check (0 ≤ interval)
  let (newHands, pos) :=
    findPosLoop (kWheelSlotOffset.zip kWheelSlotCount) w.hands 0 interval.toNat
  match pos with
  | some pos =>
    check (pos.2 < slotCount pos.1)
    .ok { newHands, pos, overflow := false }
  | none =>
    match highestNonzeroHand newHands with
    | some pos =>
      check (pos.2 < slotCount pos.1)
      .ok { newHands, pos, overflow := true }
    -- "never be here"
    | none => .error .assertion

/-- The two copies of the hands change places. -/
def switchHands (w : TimerWheel Cb) : TimerWheel Cb :=
  { w with hands := w.spareHands, spareHands := w.hands }

/-! ## Lists of timers -/

/-- `wheels_[pos.first][pos.second].push_back(t)` -/
def pushBack (wheels : Wheels Cb) (pos : SlotPos) (t : Timer Cb) : Wheels Cb :=
  Function.update wheels pos (wheels pos ++ [t])

/-- `t.unlink()` for the timer with this id, whatever list it is in. -/
def unlink (wheels : Wheels Cb) (id : ℕ) : Wheels Cb :=
  fun pos => (wheels pos).filter (·.id ≠ id)

/-- The slots of the wheels below `endWheelPos`, in the order of the loops over them. -/
def slotsBelow (endWheelPos : ℕ) : List SlotPos :=
  (List.range endWheelPos).flatMap fun wheelIdx =>
    (List.range (slotCount wheelIdx)).map fun slotIdx => (wheelIdx, slotIdx)

/-- `t.is_linked()` for the timer with this id. -/
def isLinked (wheels : Wheels Cb) (id : ℕ) : Bool :=
  (slotsBelow kWheelCount).any fun pos => (wheels pos).any (·.id = id)

/-- `l.splice(l.end(), wheels_[i][j])` for every slot of a list in order, with the
test for an empty slot that one of the two loops makes. -/
def spliceAll : List SlotPos → Wheels Cb → List (Timer Cb) → Wheels Cb × List (Timer Cb)
  | [], wheels, l => (wheels, l)
  | pos :: rest, wheels, l =>
    if (wheels pos).isEmpty then spliceAll rest wheels l
    else spliceAll rest (Function.update wheels pos []) (l ++ wheels pos)

/-- `timers_.find(id)` -/
def findTimer (timers : List (Timer Cb)) (id : ℕ) : Option (Timer Cb) :=
  timers.find? (·.id = id)

/-- `timers_.erase(iter)` -/
def eraseTimer (timers : List (Timer Cb)) (id : ℕ) : List (Timer Cb) :=
  timers.filter (·.id ≠ id)

/-! ## The public operations -/

/-- `NextTimeout`: the time to the head of the queue, `0` when it is over and `-1` when the
queue is empty. -/
def nextTimeout (w : TimerWheel Cb) (now : ℕ) : ℤ :=
  match w.expireTimeQueue with
  | [] => -1
  | nextExpireTime :: _ =>
    if nextExpireTime ≤ now then 0 else toInt (nextExpireTime - now : ℕ)

/-- `Start`: intervals count from `now` on. -/
def start (w : TimerWheel Cb) (now : ℕ) : TimerWheel Cb :=
  { w with lastExpireTime := now }

/-- `RunAfter`: the deadline counts from `last_expire_time_`, not from the clock. -/
def runAfter (w : TimerWheel Cb) (interval : ℤ) (cb : Cb) : Except Fault (TimerWheel Cb) := do
  let found ← w.findPos interval
  let t : Timer Cb :=
    { id := w.lastTimerId + 1, expireTime := interval.toNat + w.lastExpireTime, cb }
  check (findTimer w.timers t.id).isNone
  .ok { w with
    lastTimerId := t.id
    wheels := pushBack w.wheels found.pos t
    timers := w.timers ++ [t]
    expireTimeQueue := w.expireTimeQueue.orderedInsert (· ≤ ·) t.expireTime }

/-- The interval from a time to a later one, narrowed to an `int`. -/
def interval (base time : ℕ) : ℤ :=
  if base < time then toInt (time - base : ℕ) else 0

/-- The interval from the base time of the wheel. -/
def intervalTo (w : TimerWheel Cb) (time : ℕ) : ℤ := interval w.lastExpireTime time

/-- `RunAt`: a time that is over becomes the interval `0`. -/
def runAt (w : TimerWheel Cb) (expireTime : ℕ) (cb : Cb) :
    Except Fault (TimerWheel Cb) :=
  w.runAfter (w.intervalTo expireTime) cb

/-- The loop of `RemoveTimer` over the queue: one copy of `expireTime` is dropped. -/
def dropExpireTime (expireTime : ℕ) :
    List ℕ → Bool → List ℕ → List ℕ
  | [], _, tmp => tmp
  | ts :: queue, removed, tmp =>
    if ts = expireTime ∧ removed = false then dropExpireTime expireTime queue true tmp
    else dropExpireTime expireTime queue removed (tmp.orderedInsert (· ≤ ·) ts)

/-- `RemoveTimer`, which asserts that the id is there. -/
def removeTimer (w : TimerWheel Cb) (id : ℕ) : Except Fault (TimerWheel Cb) :=
  match findTimer w.timers id with
  | none => .error .assertion
  | some t => .ok { w with
      wheels := unlink w.wheels id
      timers := eraseTimer w.timers id
      expireTimeQueue := dropExpireTime t.expireTime w.expireTimeQueue false [] }

/-! ## Step -/

/-- The loop of `Step` over the timers of the slot where the hands stop: the ones
that are due move to `l`. -/
def moveDue (now : ℕ) (timers : List (Timer Cb)) :
    List ℕ → Wheels Cb → List (Timer Cb) → Except Fault (Wheels Cb × List (Timer Cb))
  | [], wheels, l => .ok (wheels, l)
  | id :: ids, wheels, l =>
    match findTimer timers id with
    | none => .error .assertion
    | some t =>
      if t.expireTime ≤ now then moveDue now timers ids (unlink wheels id) (l ++ [t])
      else moveDue now timers ids wheels l

/-- The loop of `Step` that takes the timers handed out from `timers_`. -/
def eraseTimers : List ℕ → List (Timer Cb) → Except Fault (List (Timer Cb))
  | [], timers => .ok timers
  | id :: ids, timers =>
    match findTimer timers id with
    | none => .error .assertion
    | some _ => eraseTimers ids (eraseTimer timers id)

/-- The last loop of `Step`: the timers left where the hands stop are placed again. -/
def adjust (now : ℕ) : List (Timer Cb) → TimerWheel Cb → Except Fault (TimerWheel Cb)
  | [], w => .ok w
  | t :: ts, w => do
    check (now < t.expireTime)
    check (isLinked w.wheels t.id)
    let found ← w.findPos (toInt (t.expireTime - now : ℕ))
    adjust now ts { w with wheels := pushBack (unlink w.wheels t.id) found.pos t }

/-- `Step(now, &callbacks)`. The hands move by the narrowed interval, the slots they pass
are handed out, and of the slot where they stop what is due; the rest of it is placed again,
and the queue loses what has expired by the clock. -/
def step (w : TimerWheel Cb) (now : ℕ) (callbacks : List Cb) :
    Except Fault (TimerWheel Cb × List Cb) := do
  let found ← w.findPos (w.intervalTo now)
  let endWheelPos := if found.overflow then kWheelCount else found.pos.1
  let slotPos := found.pos.2
  let (wheels, l) := spliceAll (slotsBelow endWheelPos) w.wheels []
  let (wheels, l) ←
    if found.overflow then .ok (wheels, l)
    else do
      check (w.hands.getD endWheelPos 0 ≤ slotPos)
      let hand := w.hands.getD endWheelPos 0
      -- the slots that the hand passes; in the one where it stops not all timers are due
      let (wheels, l) := spliceAll
        ((List.range' hand (slotPos - hand)).map fun slotIdx => (endWheelPos, slotIdx)) wheels l
      moveDue now w.timers ((wheels (endWheelPos, slotPos)).map Timer.id) wheels l
  let w := switchHands { w with spareHands := found.newHands, wheels }
  let timers ← eraseTimers (l.map Timer.id) w.timers
  let w := { w with timers, expireTimeQueue := w.expireTimeQueue.dropWhile (· ≤ now) }
  -- after an overflow the last loop runs over `wheels_[kWheelCount]`
  if found.overflow then .error .outOfBounds
  else do
    let w ← adjust now (w.wheels (endWheelPos, slotPos)) w
    .ok ({ w with lastExpireTime := now }, callbacks ++ l.map Timer.cb)

end TimerWheel

end FxServer
