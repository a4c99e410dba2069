import Mathlib.Data.List.Sort
import FxServer.Machine
import FxServer.TimerWheel.Step

/-!
# FxServer.TimerWheel.Ops — a client's calls and the invariant they keep

`Op` is a call of a client and `apply` the machine that serves it. Its state
carries, beside the wheel, the last clock value the wheel was given (`clock`): at
its construction, or by `Start` or `Step`.

`Inv due` is the invariant of the wheel, for a relation `due` between the
position and base time of the hands, a timer, and the position the timer may
stand at. Each operation keeps it if `due` allows the position it uses.

What a function does to the wheel is said by one lemma for each, with the invariant
as a parameter. The modules behind choose the positions that a timer may have, and
get their own invariant from it.
-/

namespace FxServer.TimerWheel

open MixedRadix

variable {Cb : Type}

/-- A call of a client. -/
inductive Op (Cb : Type) where
  | runAfter (interval : ℤ) (cb : Cb)
  | runAt (expireTime : ℕ) (cb : Cb)
  | removeTimer (id : ℕ)
  | start (now : ℕ)
  | step (now : ℕ)
deriving DecidableEq, Repr

/-- A wheel and the last clock value it was given. -/
structure Clocked (Cb : Type) where
  wheel : TimerWheel Cb
  clock : ℕ

/-- A wheel built when the clock shows `now`. -/
def Clocked.new (now : ℕ) : Clocked Cb := ⟨.new now, now⟩

/-- Serve a call; the output is the list of callbacks handed out. -/
def apply (s : Clocked Cb) : Op Cb → Except Fault (Clocked Cb × List Cb)
  | .runAfter interval cb => do
    let w ← s.wheel.runAfter interval cb
    .ok ({ s with wheel := w }, [])
  | .runAt expireTime cb => do
    let w ← s.wheel.runAt expireTime cb
    .ok ({ s with wheel := w }, [])
  | .removeTimer id => do
    let w ← s.wheel.removeTimer id
    .ok ({ s with wheel := w }, [])
  | .start now => .ok ({ wheel := s.wheel.start now, clock := now }, [])
  | .step now => do
    let (w, callbacks) ← s.wheel.step now []
    .ok ({ wheel := w, clock := now }, callbacks)

/-- A relation between the position and base time of the hands, a timer and the
position it may stand at. -/
abbrev Due (Cb : Type) := ℕ → ℕ → Timer Cb → ℕ → Prop

/-- Every timer stands exactly as far ahead of the hands as it is due after the base time. -/
def Exact : Due Cb := fun here base t d => d = here + (t.expireTime - base)

/-- No timer stands nearer to the hands than it is due after the base time. -/
def NotBefore : Due Cb := fun here base t d => t.expireTime + here ≤ d + base

/-- The invariant of the wheel. -/
structure Inv (due : Due Cb) (w : TimerWheel Cb) : Prop where
  /-- every hand points to a slot of its wheel -/
  digits : IsDigits kWheelSlotCount w.hands
  /-- the slots and `timers_` hold the same timers -/
  linked : Linked w.wheels w.timers
  /-- the next id is new -/
  ids_le : ∀ t ∈ w.timers, t.id ≤ w.lastTimerId
  /-- every timer stands at a position that `due` allows -/
  waits : Waits (due w.position w.lastExpireTime) w.position w.wheels

/-- The queue holds the deadlines of the pending timers, in order. -/
structure QueueInv (w : TimerWheel Cb) : Prop where
  /-- the earliest deadline is at the top -/
  sorted : w.expireTimeQueue.Pairwise (· ≤ ·)
  perm : w.expireTimeQueue.Perm (w.timers.map Timer.expireTime)

/-- When no timer is pending no slot depends on the base time. -/
theorem Inv.start {due : Due Cb} {w : TimerWheel Cb} (h : Inv due w) (hnone : w.timers = [])
    (due' : Due Cb) (now : ℕ) : Inv due' (w.start now) where
  digits := h.digits
  linked := h.linked
  ids_le := h.ids_le
  waits pos t ht := absurd ht (h.linked.notMem hnone pos t)

/-- A time in the queue is the deadline of a timer that waits in a slot, so it is near. -/
theorem QueueInv.near {w : TimerWheel Cb} (hqueue : QueueInv w) (h : Inv Exact w) {next : ℕ}
    (hnext : next ∈ w.expireTimeQueue) : next - w.lastExpireTime < 2 ^ 31 := by
  have hmem := hqueue.perm.mem_iff.1 hnext
  rcases List.mem_map.1 hmem with ⟨t, ht, rfl⟩
  rcases h.linked.linked t ht with ⟨pos, hpos⟩
  rcases h.waits pos t hpos with ⟨d, hd, -, hlt, -⟩
  unfold Exact at hd
  omega

theorem new_inv (due : Due Cb) (now : ℕ) : Inv due (new now) where
  digits := by
    show IsDigits kWheelSlotCount [0, 0, 0, 0, 0]
    unfold IsDigits
    decide
  linked := by
    constructor <;> simp [new]
  ids_le := by simp [new]
  waits := by
    intro pos t ht
    simp [new] at ht

theorem new_queueInv (now : ℕ) : QueueInv (new now : TimerWheel Cb) :=
  ⟨.nil, .refl _⟩

/-! ## Registering a timer -/

/-- The timer that `RunAfter(n, cb)` registers. -/
def nextTimer (w : TimerWheel Cb) (n : ℕ) (cb : Cb) : Timer Cb :=
  { id := w.lastTimerId + 1, expireTime := n + w.lastExpireTime, cb }

/-- No timer has the next id. -/
theorem findTimer_next {w : TimerWheel Cb} (hids : ∀ t ∈ w.timers, t.id ≤ w.lastTimerId) :
    findTimer w.timers (w.lastTimerId + 1) = none := by
  cases hfind : findTimer w.timers (w.lastTimerId + 1) with
  | none => rfl
  | some t =>
    rcases findTimer_eq_some hfind with ⟨ht, hid⟩
    have := hids t ht
    omega

/-- The id of a new timer is not in use. -/
theorem id_ne_next {w : TimerWheel Cb} (hids : ∀ t ∈ w.timers, t.id ≤ w.lastTimerId) (n : ℕ)
    (cb : Cb) : ∀ u ∈ w.timers, u.id ≠ (w.nextTimer n cb).id := by
  intro u hu he
  have hle := hids u hu
  rw [he] at hle
  exact absurd hle (Nat.not_succ_le_self _)

/-- What `RunAfter` does to the wheel, if the hands do not overflow. -/
theorem runAfter_spec {due : Due Cb} {w : TimerWheel Cb} (h : Inv due w) {n : ℕ}
    (hlt : w.position + n < 2 ^ 31) (cb : Cb)
    (hdue : due w.position w.lastExpireTime (w.nextTimer n cb) (w.position + n)) :
    ∃ w', w.runAfter n cb = .ok w' ∧ Inv due w' ∧
      w'.timers = w.timers ++ [w.nextTimer n cb] ∧ w'.position = w.position ∧
      w'.lastExpireTime = w.lastExpireTime ∧ w'.lastTimerId = w.lastTimerId + 1 ∧
      w'.expireTimeQueue =
        w.expireTimeQueue.orderedInsert (· ≤ ·) (n + w.lastExpireTime) := by
  rcases findPos_of_lt h.digits hlt with ⟨found, hfound, ho⟩
  rcases findPos_spec h.digits hfound ho with ⟨-, -, -, hslot⟩
  rw [Int.toNat_natCast] at hslot
  have hnew : ∀ u ∈ w.timers, u.id ≠ (w.nextTimer n cb).id := id_ne_next h.ids_le n cb
  refine ⟨{ w with
    lastTimerId := w.lastTimerId + 1
    wheels := pushBack w.wheels found.pos (w.nextTimer n cb)
    timers := w.timers ++ [w.nextTimer n cb]
    expireTimeQueue := w.expireTimeQueue.orderedInsert (· ≤ ·) (n + w.lastExpireTime) },
    ?_, ⟨h.digits, h.linked.add hnew hslot.mem_slots, ?_, ?_⟩, rfl, rfl, rfl, rfl, rfl⟩
  · simp only [runAfter, hfound, ok_bind, findTimer_next h.ids_le, check_true, Option.isNone_none,
      Int.toNat_natCast, nextTimer]
  · intro t ht
    rcases List.mem_append.1 ht with ht | ht
    · exact Nat.le_succ_of_le (h.ids_le t ht)
    · rw [List.mem_singleton.1 ht]
      exact Nat.le_refl _
  · intro pos t ht
    rcases mem_pushBack.1 ht with ht | ⟨rfl, rfl⟩
    · exact h.waits pos t ht
    · exact ⟨_, hdue, Nat.le_add_right _ _, hlt, hslot⟩

/-- A `RunAfter` that returns was given an interval that is not negative. -/
theorem runAfter_inv {due : Due Cb} {w w' : TimerWheel Cb} (h : Inv due w) {interval : ℤ}
    {cb : Cb} (hok : w.runAfter interval cb = .ok w') (hlt : w.position + interval < 2 ^ 31)
    (hdue : ∀ n : ℕ, due w.position w.lastExpireTime (w.nextTimer n cb) (w.position + n)) :
    ∃ n : ℕ, interval = n ∧ Inv due w' ∧
      w'.timers = w.timers ++ [w.nextTimer n cb] ∧ w'.position = w.position ∧
      w'.lastExpireTime = w.lastExpireTime ∧ w'.lastTimerId = w.lastTimerId + 1 ∧
      w'.expireTimeQueue =
        w.expireTimeQueue.orderedInsert (· ≤ ·) (n + w.lastExpireTime) := by
  rcases bind_ok.1 hok with ⟨found, hfound, -⟩
  rcases Int.eq_ofNat_of_zero_le (findPos_nonneg hfound) with ⟨n, rfl⟩
  rcases runAfter_spec h (n := n) (by omega) cb (hdue n) with ⟨w₁, hok₁, hspec⟩
  obtain rfl : w₁ = w' := Except.ok.inj (hok₁.symm.trans hok)
  exact ⟨n, rfl, hspec⟩

/-- What a `RunAfter` that returns has done. -/
theorem runAfter_eq {w w' : TimerWheel Cb} {interval : ℤ} {cb : Cb}
    (hok : w.runAfter interval cb = .ok w') :
    ∃ pos, w' = { w with
      lastTimerId := w.lastTimerId + 1
      wheels := pushBack w.wheels pos (w.nextTimer interval.toNat cb)
      timers := w.timers ++ [w.nextTimer interval.toNat cb]
      expireTimeQueue :=
        w.expireTimeQueue.orderedInsert (· ≤ ·) (interval.toNat + w.lastExpireTime) } := by
  rcases bind_ok.1 hok with ⟨found, -, hok⟩
  rcases bind_ok.1 hok with ⟨_, -, hok⟩
  cases hok
  exact ⟨found.pos, rfl⟩

theorem exact_next (w : TimerWheel Cb) (cb : Cb) (n : ℕ) :
    Exact w.position w.lastExpireTime (w.nextTimer n cb) (w.position + n) := by
  unfold Exact nextTimer
  simp

/-- Inserting a deadline in order keeps the queue sorted and complete. -/
theorem QueueInv.of_register {w w' : TimerWheel Cb} (h : QueueInv w) {t : Timer Cb}
    (htimers : w'.timers = w.timers ++ [t])
    (hqueue : w'.expireTimeQueue = w.expireTimeQueue.orderedInsert (· ≤ ·) t.expireTime) :
    QueueInv w' := by
  refine ⟨hqueue ▸ h.sorted.orderedInsert _ _, ?_⟩
  rw [htimers, hqueue, List.map_append]
  exact (List.perm_orderedInsert _ _ _).trans
    ((h.perm.cons _).trans (List.perm_append_singleton _ _).symm)

/-! ## Removing a timer -/

/-- Unlinking an id takes its timer out of the slots. -/
theorem Linked.unlink {w : TimerWheel Cb} (h : Linked w.wheels w.timers) (id : ℕ) :
    Linked (unlink w.wheels id) (eraseTimer w.timers id) :=
  h.restrict (·.id ≠ id) (fun _ => List.filter_sublist) fun _ _ => mem_unlink

/-- What `RemoveTimer` does to the wheel, for an id that is there. -/
theorem removeTimer_spec {due : Due Cb} {w : TimerWheel Cb} (h : Inv due w) {t : Timer Cb}
    (ht : t ∈ w.timers) :
    ∃ w', w.removeTimer t.id = .ok w' ∧ Inv due w' ∧
      w'.timers = eraseTimer w.timers t.id ∧ w'.position = w.position ∧
      w'.lastExpireTime = w.lastExpireTime ∧ w'.lastTimerId = w.lastTimerId ∧
      w'.expireTimeQueue = dropExpireTime t.expireTime w.expireTimeQueue false [] := by
  refine ⟨{ w with
    wheels := unlink w.wheels t.id
    timers := eraseTimer w.timers t.id
    expireTimeQueue := dropExpireTime t.expireTime w.expireTimeQueue false [] },
    by simp only [removeTimer, findTimer_of_mem h.linked.ids ht],
    ⟨h.digits, h.linked.unlink t.id, ?_, ?_⟩, rfl, rfl, rfl, rfl, rfl⟩
  · intro u hu
    exact h.ids_le u (List.mem_filter.1 hu).1
  · intro pos u hu
    exact h.waits pos u (mem_unlink.1 hu).1

/-- If it succeeds, the id was there. -/
theorem removeTimer_inv {due : Due Cb} {w w' : TimerWheel Cb} (h : Inv due w) {id : ℕ}
    (hok : w.removeTimer id = .ok w') :
    ∃ t ∈ w.timers, t.id = id ∧ Inv due w' ∧ w'.timers = eraseTimer w.timers id ∧
      w'.position = w.position ∧ w'.lastExpireTime = w.lastExpireTime ∧
      w'.lastTimerId = w.lastTimerId ∧
      w'.expireTimeQueue = dropExpireTime t.expireTime w.expireTimeQueue false [] := by
  cases hfind : findTimer w.timers id with
  | none => simp [removeTimer, hfind] at hok
  | some t =>
    rcases findTimer_eq_some hfind with ⟨ht, rfl⟩
    rcases removeTimer_spec h ht with ⟨w₁, hok₁, hrest⟩
    obtain rfl : w₁ = w' := Except.ok.inj (hok₁.symm.trans hok)
    exact ⟨t, ht, rfl, hrest⟩

/-- The rebuilt queue has lost one copy of the deadline. -/
theorem dropExpireTime_spec (expireTime : ℕ) (queue : List ℕ) (removed : Bool)
    (tmp : List ℕ) (htmp : tmp.Pairwise (· ≤ ·)) :
    (dropExpireTime expireTime queue removed tmp).Pairwise (· ≤ ·) ∧
      (dropExpireTime expireTime queue removed tmp).Perm
        ((if removed then queue else queue.erase expireTime) ++ tmp) := by
  induction queue generalizing removed tmp with
  | nil => simp [dropExpireTime, htmp]
  | cons ts queue ih =>
    rw [dropExpireTime]
    split
    · rename_i h
      rcases h with ⟨rfl, rfl⟩
      simpa using ih true tmp htmp
    · rename_i h
      rcases ih removed _ (htmp.orderedInsert ts _) with ⟨hsorted, hperm⟩
      refine ⟨hsorted, hperm.trans ?_⟩
      -- an element that is kept goes to its place in the new queue
      have hmid : ∀ q : List ℕ,
          (q ++ tmp.orderedInsert (· ≤ ·) ts).Perm (ts :: q ++ tmp) := fun q =>
        ((List.perm_orderedInsert _ ts tmp).append_left q).trans List.perm_middle
      -- only the first of equal times is dropped
      cases removed with
      | true => exact hmid queue
      | false =>
        have hne : ts ≠ expireTime := fun he => h ⟨he, rfl⟩
        simpa [List.erase_cons, hne] using hmid (queue.erase expireTime)

/-- Dropping one deadline of that value keeps the queue. -/
theorem QueueInv.of_remove {w w' : TimerWheel Cb} (h : QueueInv w)
    (hids : (w.timers.map Timer.id).Nodup) {t : Timer Cb} (ht : t ∈ w.timers)
    (htimers : w'.timers = eraseTimer w.timers t.id)
    (hqueue : w'.expireTimeQueue = dropExpireTime t.expireTime w.expireTimeQueue false []) :
    QueueInv w' := by
  rcases dropExpireTime_spec t.expireTime w.expireTimeQueue false [] List.Pairwise.nil with
    ⟨hsorted, hperm⟩
  refine ⟨hqueue ▸ hsorted, ?_⟩
  rw [htimers, hqueue]
  refine hperm.trans ?_
  -- `timers_` is the timer itself and the others
  have hsplit : w.timers.Perm (t :: eraseTimer w.timers t.id) := by
    have hnd : w.timers.Nodup := hids.of_map _
    refine (List.perm_ext_iff_of_nodup hnd ?_).2 fun u => ?_
    · exact List.nodup_cons.2 ⟨by simp [eraseTimer], hnd.filter _⟩
    · by_cases hut : u.id = t.id
      · have := eq_of_id_eq (t := u) (u := t) hids
        simp only [eraseTimer, List.mem_cons, List.mem_filter]
        constructor
        · exact fun hu => .inl (this hu ht hut)
        · rintro (rfl | ⟨hu, -⟩)
          · exact ht
          · exact hu
      · have hne : u ≠ t := fun he => hut (he ▸ rfl)
        simp [eraseTimer, hut, hne]
  have hmap := h.perm.trans (hsplit.map Timer.expireTime)
  simpa using (hmap.erase t.expireTime)

/-! ## Step -/

/-- A step that returns has found no overflow, and counts from its time on. -/
theorem step_returns {w : TimerWheel Cb} {now : ℕ} {callbacks : List Cb}
    {r : TimerWheel Cb × List Cb} (hok : w.step now callbacks = .ok r) :
    (∃ found, w.findPos (w.intervalTo now) = .ok found ∧ found.overflow = false) ∧
      r.1.lastExpireTime = now := by
  rcases bind_ok.1 hok with ⟨found, hfound, hok⟩
  cases ho : found.overflow with
  | true =>
    -- the loop over the timers to be placed again is outside of the wheels
    simp only [ho, if_true, ok_bind] at hok
    rcases bind_ok.1 hok with ⟨timers, -, hok⟩
    cases hok
  | false =>
    simp only [ho, Bool.false_eq_true, if_false] at hok
    rcases bind_ok.1 hok with ⟨_, -, hok⟩
    rcases bind_ok.1 hok with ⟨collected, -, hok⟩
    rcases bind_ok.1 hok with ⟨timers, -, hok⟩
    rcases bind_ok.1 hok with ⟨left, -, hok⟩
    cases hok
    exact ⟨⟨found, hfound, ho⟩, rfl⟩

/-- An interval below `2^31` survives its narrowing. -/
theorem interval_of_lt {base time : ℕ} (h : time - base < 2 ^ 31) :
    interval base time = ((time - base : ℕ) : ℤ) := by
  unfold interval
  split
  · exact toInt_of_lt h
  · rw [Nat.sub_eq_zero_of_le (by omega)]
    rfl

/-- Popping what has expired from a sorted queue leaves the rest. -/
theorem dropWhile_eq_filter {queue : List ℕ} (h : queue.Pairwise (· ≤ ·))
    (now : ℕ) : queue.dropWhile (· ≤ now) = queue.filter (now < ·) := by
  induction queue with
  | nil => rfl
  | cons ts queue ih =>
    rw [List.pairwise_cons] at h
    by_cases hts : ts ≤ now
    · rw [List.dropWhile_cons_of_pos (by simpa using hts), ih h.2,
        List.filter_cons_of_neg (by simpa using hts)]
    · rw [List.dropWhile_cons_of_neg (by simpa using hts)]
      refine (List.filter_eq_self.2 fun u hu => ?_).symm
      rcases List.mem_cons.1 hu with rfl | hu
      · simpa using hts
      · have := h.1 u hu
        simp only [decide_eq_true_eq]
        omega

/-- What a step leaves satisfies the invariant at its new time. -/
theorem Stepped.inv {due due₁ : Due Cb} {due₀ : Timer Cb → ℕ → Prop} {w w' : TimerWheel Cb}
    {here now : ℕ} {fired : List (Timer Cb)} (h : Inv due₁ w)
    (hs : Stepped due₀ (due here now) w w' here now fired) : Inv due w' where
  digits := hs.digits
  linked := hs.linked
  ids_le t ht := by
    rw [hs.timers] at ht
    rw [hs.lastTimerId]
    exact h.ids_le t (List.mem_filter.1 ht).1
  waits := by
    rw [hs.position, hs.lastExpireTime]
    exact hs.waits

/-- A timer is handed out when a timer of its id is. -/
theorem Stepped.mem_ids {due due' : Timer Cb → ℕ → Prop} {w w' : TimerWheel Cb} {here now : ℕ}
    {fired : List (Timer Cb)} (hids : (w.timers.map Timer.id).Nodup)
    (hs : Stepped due due' w w' here now fired) {t : Timer Cb} (ht : t ∈ w.timers) :
    t.id ∈ fired.map Timer.id ↔ t ∈ fired := by
  refine ⟨fun h => ?_, List.mem_map_of_mem⟩
  rcases List.mem_map.1 h with ⟨u, hu, hid⟩
  exact eq_of_id_eq hids (hs.fired_sub u hu) ht hid ▸ hu

/-- A step of the exact wheel hands out the expired timers, each once, and keeps
the others. -/
theorem step_exact {w : TimerWheel Cb} (h : Inv Exact w) {now : ℕ}
    (hclock : w.lastExpireTime ≤ now) (hlt : w.position + (now - w.lastExpireTime) < 2 ^ 31)
    (callbacks : List Cb) :
    ∃ (w' : TimerWheel Cb) (fired : List (Timer Cb)),
      w.step now callbacks = .ok (w', callbacks ++ fired.map Timer.cb) ∧
      fired.Perm (w.timers.filter (·.expireTime ≤ now)) ∧
      w'.timers = w.timers.filter (now < ·.expireTime) ∧ Inv Exact w' ∧
      w'.lastExpireTime = now ∧ w'.lastTimerId = w.lastTimerId ∧
      w'.position = w.position + (now - w.lastExpireTime) ∧
      w'.expireTimeQueue = w.expireTimeQueue.dropWhile (· ≤ now) := by
  obtain ⟨w', fired, hstep, hs⟩ := step_spec _
    (Exact (w.position + (now - w.lastExpireTime)) now)
    h.digits h.linked h.waits (interval_of_lt (by omega)) hlt
    (fun t d hd hahead => by
      unfold Exact at hd ⊢
      omega)
    (fun _ _ t _ d hd hdlt hnow => by
      unfold Exact at hd ⊢
      omega) callbacks
  -- with exact deadlines a timer fires exactly when it is due
  have hmem : ∀ t ∈ w.timers, t ∈ fired ↔ t.expireTime ≤ now := by
    intro t ht
    constructor
    · intro hf
      rcases hs.fired_due t hf with ⟨_, d, -, hd, -, hlate | ⟨-, hlate⟩⟩
      · unfold Exact at hd
        omega
      · exact hlate
    · intro hdue
      by_contra hf
      rcases hs.kept_due t ht hf with ⟨d, hd, hlate⟩
      unfold Exact at hd
      omega
  have htimers : w'.timers = w.timers.filter (now < ·.expireTime) := by
    rw [hs.timers]
    refine List.filter_congr fun t ht => ?_
    simp [hs.mem_ids h.linked.ids ht, hmem t ht]
  refine ⟨w', fired, hstep, ?_, htimers, hs.inv h, hs.lastExpireTime, hs.lastTimerId,
    hs.position, hs.queue⟩
  refine (List.perm_ext_iff_of_nodup hs.nodup ((h.linked.ids.of_map _).filter _)).2 fun t => ?_
  rw [List.mem_filter]
  constructor
  · intro ht
    exact ⟨hs.fired_sub t ht, by simpa using (hmem t (hs.fired_sub t ht)).1 ht⟩
  · rintro ⟨ht, hdue⟩
    exact (hmem t ht).2 (by simpa using hdue)

/-- Dropping the deadlines that are over keeps the queue. -/
theorem QueueInv.of_step {w w' : TimerWheel Cb} (h : QueueInv w) {now : ℕ}
    (htimers : w'.timers = w.timers.filter (now < ·.expireTime))
    (hqueue : w'.expireTimeQueue = w.expireTimeQueue.dropWhile (· ≤ now)) : QueueInv w' := by
  rw [dropWhile_eq_filter h.sorted] at hqueue
  refine ⟨hqueue ▸ h.sorted.filter _, ?_⟩
  rw [hqueue, htimers]
  refine (h.perm.filter _).trans ?_
  rw [List.filter_map]
  exact .refl _

end FxServer.TimerWheel
