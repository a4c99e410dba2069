import FxServer.TimerWheel.SleepQueue

/-!
# FxServer.TimerWheel.Order — timers with one deadline

`Step` hands the timers out slot by slot and, on its way, moves timers from slot to slot.
Timers that are due at the same time wait in the same slot, since the place of a timer follows
from its deadline alone, and each slot keeps them in the order in which they were registered.

Timers with one deadline have one position, so they stand in one slot until they are handed out
together. A slot is filled at its end and handed out as it stands, and when it is placed again
its timers keep their order.

* `equal_deadlines_in_order` — of two timers with one deadline, the callback of the one
  registered first is handed out first.
-/

namespace FxServer.TimerWheel

open Machine MixedRadix

variable {Cb : Type}

/-- If both have one deadline, `t` was registered before `u`. -/
def InTurn (t u : Timer Cb) : Prop := t.expireTime = u.expireTime → t.id < u.id

/-- The timers that a call hands out, in the order of their callbacks. -/
def handsOut (w : TimerWheel Cb) : Op Cb → List (Timer Cb)
  | .step now =>
    match w.findPos (w.intervalTo now) with
    | .ok found => w.fired found.pos now
    | .error _ => []
  | .runAfter _ _ | .runAt _ _ | .removeTimer _ | .start _ => []

/-- The timers handed out in a run. -/
def runHandsOut (s : Clocked Cb) : List (Op Cb) → List (Timer Cb)
  | [] => []
  | op :: ops =>
    s.wheel.handsOut op ++
      match apply s op with
      | .ok (s', _) => runHandsOut s' ops
      | .error _ => []

/-- `Step` is given times that do not go back. -/
def Onward (s : Clocked Cb) : Op Cb → Prop
  | .step now => s.clock ≤ now
  | .runAfter _ _ | .runAt _ _ | .removeTimer _ | .start _ => True

instance (s : Clocked Cb) : DecidablePred (Onward s)
  | .step now => inferInstanceAs (Decidable (s.clock ≤ now))
  | .runAfter _ _ | .runAt _ _ | .removeTimer _ | .start _ => .isTrue trivial

/-! ## The last loop of `Step` -/

/-- Timers placed again one after the other stand behind the ones placed before them. What
counts is the order among the timers that the loop is done with. -/
theorem adjust_inTurn {now : ℕ} {rest : List (Timer Cb)} {w w' : TimerWheel Cb}
    (hok : adjust now rest w = .ok w') (hrest : rest.Pairwise InTurn)
    (hids : (rest.map Timer.id).Nodup)
    (hslots : ∀ pos, ((w.wheels pos).filter (·.id ∉ rest.map Timer.id)).Pairwise InTurn)
    (hbefore : ∀ pos, ∀ u ∈ w.wheels pos, u.id ∉ rest.map Timer.id → ∀ t ∈ rest, InTurn u t)
    (pos : SlotPos) : (w'.wheels pos).Pairwise InTurn := by
  induction rest generalizing w with
  | nil =>
    cases hok
    simpa using hslots pos
  | cons t rest ih =>
    rcases bind_ok.1 hok with ⟨-, -, hok⟩
    rcases bind_ok.1 hok with ⟨-, -, hok⟩
    rcases bind_ok.1 hok with ⟨found, -, hok⟩
    rw [List.pairwise_cons] at hrest
    rw [List.map_cons, List.nodup_cons] at hids
    -- the timers that stay where they are, without `t`
    have hold : ∀ p, (unlink w.wheels t.id p).filter (·.id ∉ rest.map Timer.id) =
        (w.wheels p).filter (·.id ∉ (t :: rest).map Timer.id) := fun p => by
      rw [unlink, List.filter_filter]
      refine List.filter_congr fun u _ => ?_
      by_cases hut : u.id = t.id <;> simp [hut]
    refine ih hok hrest.2 hids.2 (fun p => ?_) (fun p u hu hdone v hv => ?_)
    · by_cases hp : p = found.pos
      · subst hp
        show ((pushBack (unlink w.wheels t.id) found.pos t found.pos).filter _).Pairwise InTurn
        rw [pushBack, Function.update_self, List.filter_append, hold]
        refine List.pairwise_append.2 ⟨hslots found.pos, List.Pairwise.filter _ (by simp), ?_⟩
        intro u hu v hv
        rcases List.mem_filter.1 hu with ⟨hmem, hdone⟩
        rw [List.mem_singleton.1 (List.mem_filter.1 hv).1]
        exact hbefore found.pos u hmem (of_decide_eq_true hdone) t List.mem_cons_self
      · show ((pushBack (unlink w.wheels t.id) found.pos t p).filter _).Pairwise InTurn
        rw [pushBack, Function.update_of_ne hp, hold]
        exact hslots p
    · rcases mem_pushBack.1 hu with hu | ⟨-, rfl⟩
      · rcases mem_unlink.1 hu with ⟨hu, hne⟩
        have hdone : u.id ∉ (t :: rest).map Timer.id := by
          rw [List.map_cons, List.mem_cons, not_or]
          exact ⟨hne, hdone⟩
        exact hbefore p u hu hdone v (List.mem_cons_of_mem t hv)
      · exact hrest.1 v hv

/-! ## The invariant -/

/-- The place of a timer, given by its deadline. -/
def AtPlace (place : ℕ → ℕ) : Due Cb := fun _ _ t d => d = place t.expireTime

/-- `log` has been handed out. Deadlines ahead of the base time have their exact place, and
timers with one deadline are in turn: in `log`, in each slot, and the former before the
latter. -/
structure InOrder (log : List (Timer Cb)) (s : Clocked Cb) : Prop where
  /-- a deadline ahead of the base time has a place of its own -/
  placed : ∃ place, Inv (AtPlace place) s.wheel ∧ ∀ e, s.wheel.lastExpireTime ≤ e →
    place e = s.wheel.position + (e - s.wheel.lastExpireTime)
  clock : s.wheel.lastExpireTime = s.clock
  /-- each slot is in turn -/
  slots : ∀ pos, (s.wheel.wheels pos).Pairwise InTurn
  /-- so is what was handed out -/
  inTurn : log.Pairwise InTurn
  /-- and it is ahead of what is pending -/
  before : ∀ t ∈ log, ∀ u ∈ s.wheel.timers, InTurn t u
  ids_le : ∀ t ∈ log, t.id ≤ s.wheel.lastTimerId

theorem new_inOrder (built : ℕ) : InOrder [] (Clocked.new built : Clocked Cb) where
  placed := ⟨fun e => e - built, new_inv _ built, fun e _ => by
    show e - built = 0 + (e - built)
    rw [Nat.zero_add]⟩
  clock := rfl
  slots _ := .nil
  inTurn := .nil
  before := by simp
  ids_le := by simp

/-- Timers with one deadline stand in one slot. -/
theorem Inv.same_slot {place : ℕ → ℕ} {w : TimerWheel Cb} (h : Inv (AtPlace place) w)
    {p q : SlotPos} {t u : Timer Cb} (ht : t ∈ w.wheels p) (hu : u ∈ w.wheels q)
    (hsame : t.expireTime = u.expireTime) : p = q := by
  rcases h.waits p t ht with ⟨d, hd, -, -, hp⟩
  rcases h.waits q u hu with ⟨e, he, -, -, hq⟩
  have hde : d = e := by
    rw [hd, he, hsame]
  subst hde
  exact hp.unique hq

/-- They are handed out by the same step. -/
theorem Inv.fired_together {place : ℕ → ℕ} {w : TimerWheel Cb} (h : Inv (AtPlace place) w)
    {stop : SlotPos} {now : ℕ} {t u : Timer Cb} (ht : t ∈ w.fired stop now) (hu : u ∈ w.timers)
    (hsame : t.expireTime = u.expireTime) : u ∈ w.fired stop now := by
  rcases fired_sub ht with ⟨p, hp⟩
  rcases h.linked.linked u hu with ⟨q, hq⟩
  obtain rfl : p = q := h.same_slot hp hq hsame
  rw [h.linked.mem_fired hp, hsame] at ht
  exact (h.linked.mem_fired hq).2 ht

/-- One step hands them out in turn. -/
theorem Inv.fired_inTurn {place : ℕ → ℕ} {w : TimerWheel Cb} (h : Inv (AtPlace place) w)
    (hslots : ∀ pos, (w.wheels pos).Pairwise InTurn) (stop : SlotPos) (now : ℕ) :
    (w.fired stop now).Pairwise InTurn := by
  refine List.pairwise_append.2 ⟨?_, (hslots stop).filter _, ?_⟩
  · refine List.pairwise_flatMap.2 ⟨fun pos _ => hslots pos, ?_⟩
    refine (w.passed_nodup stop).imp fun {p q} hpq t ht u hu hsame => ?_
    exact absurd (h.same_slot ht hu hsame) hpq
  · intro t ht u hu hsame
    rcases List.mem_flatMap.1 ht with ⟨p, hp, ht⟩
    obtain rfl := h.same_slot ht (List.mem_filter.1 hu).1 hsame
    exact absurd hp stop_not_passed

/-- The slots are in turn behind the last loop of `Step`, too. -/
theorem Inv.left_inTurn {place : ℕ → ℕ} {w v : TimerWheel Cb} (h : Inv (AtPlace place) w)
    (hslots : ∀ pos, (w.wheels pos).Pairwise InTurn) {found : FoundPos} {now : ℕ}
    (hadjust : adjust now ((w.wheels found.pos).filter (now < ·.expireTime))
      (w.handedOut found now) = .ok v) (pos : SlotPos) : (v.wheels pos).Pairwise InTurn := by
  have hleft : ∀ p, ∀ u ∈ w.leftWheels found.pos now p, u ∈ w.wheels p := fun p u hu =>
    (w.leftWheels_sublist found.pos now p).subset hu
  refine adjust_inTurn hadjust ((hslots found.pos).filter _) ?_ (fun p => ?_)
    (fun p u hu hnot t ht hsame => ?_) pos
  · have hsub := (List.filter_sublist (p := fun t : Timer Cb => now < t.expireTime)
      (l := w.wheels found.pos)).map Timer.id
    refine hsub.nodup ?_
    exact (h.linked.nodup found.pos).map_on fun t ht u hu =>
      eq_of_id_eq h.linked.ids (h.linked.mem _ t ht) (h.linked.mem _ u hu)
  · exact ((hslots p).sublist (w.leftWheels_sublist found.pos now p)).filter _
  · -- a timer with the deadline of `t` is in the slot where the hands stop, and is left there
    have ht := List.mem_filter.1 ht
    obtain rfl := h.same_slot (hleft p u hu) ht.1 hsame
    refine absurd (List.mem_map_of_mem ?_) hnot
    exact List.mem_filter.2 ⟨hleft found.pos u hu, hsame ▸ ht.2⟩

/-! ## One call -/

/-- A new timer is behind those with its deadline. -/
theorem InOrder.runAfter {log : List (Timer Cb)} {s : Clocked Cb} {w : TimerWheel Cb}
    {interval : ℤ} {cb : Cb} (h : InOrder log s)
    (hlt : s.wheel.position + interval < 2 ^ 31)
    (hok : s.wheel.runAfter interval cb = .ok w) : InOrder log { s with wheel := w } := by
  rcases h.placed with ⟨place, hinv, hplace⟩
  have hdue : ∀ n : ℕ, AtPlace place s.wheel.position s.wheel.lastExpireTime
      (s.wheel.nextTimer n cb) (s.wheel.position + n) := fun n => by
    show s.wheel.position + n = place (n + s.wheel.lastExpireTime)
    rw [hplace _ (Nat.le_add_left _ _), Nat.add_sub_cancel]
  rcases runAfter_inv hinv hok hlt hdue with ⟨n, rfl, hinv', htimers, hposition, hbase, hid, -⟩
  rcases runAfter_eq hok with ⟨found, hw⟩
  refine ⟨⟨place, hinv', ?_⟩, hbase.trans h.clock, fun pos => ?_, h.inTurn, fun t ht u hu => ?_,
    fun t ht => ?_⟩
  · show ∀ e, w.lastExpireTime ≤ e → place e = w.position + (e - w.lastExpireTime)
    rw [hbase, hposition]
    exact hplace
  · show (w.wheels pos).Pairwise InTurn
    rw [hw]
    show (pushBack s.wheel.wheels found (s.wheel.nextTimer n cb) pos).Pairwise InTurn
    by_cases hp : pos = found
    · subst hp
      rw [pushBack, Function.update_self]
      refine List.pairwise_append.2 ⟨h.slots pos, List.pairwise_singleton _ _, ?_⟩
      intro t ht u hu _
      rw [List.mem_singleton.1 hu]
      exact Nat.lt_succ_of_le (hinv.ids_le t (hinv.linked.mem pos t ht))
    · rw [pushBack, Function.update_of_ne hp]
      exact h.slots pos
  · rw [show w.timers = _ from htimers] at hu
    rcases List.mem_append.1 hu with hu | hu
    · exact h.before t ht u hu
    · intro _
      rw [List.mem_singleton.1 hu]
      exact Nat.lt_succ_of_le (h.ids_le t ht)
  · show t.id ≤ w.lastTimerId
    rw [hid]
    exact Nat.le_succ_of_le (h.ids_le t ht)

/-- Removing one changes no order. -/
theorem InOrder.removeTimer {log : List (Timer Cb)} {s : Clocked Cb} {w : TimerWheel Cb}
    {id : ℕ} (h : InOrder log s) (hok : s.wheel.removeTimer id = .ok w) :
    InOrder log { s with wheel := w } := by
  rcases h.placed with ⟨place, hinv, hplace⟩
  rcases removeTimer_inv hinv hok with ⟨t, ht, rfl, hinv', htimers, hposition, hbase, hid, -⟩
  refine ⟨⟨place, hinv', ?_⟩, hbase.trans h.clock, fun pos => ?_, h.inTurn, fun t ht u hu => ?_,
    fun t ht => ?_⟩
  · show ∀ e, w.lastExpireTime ≤ e → place e = w.position + (e - w.lastExpireTime)
    rw [hbase, hposition]
    exact hplace
  · simp only [TimerWheel.removeTimer, findTimer_of_mem hinv.linked.ids ht] at hok
    cases hok
    exact (h.slots pos).filter _
  · rw [show w.timers = _ from htimers] at hu
    exact h.before t ht u (List.mem_filter.1 hu).1
  · show t.id ≤ w.lastTimerId
    rw [hid]
    exact h.ids_le t ht

/-- No timer is pending, so `Start` changes no place that is taken. -/
theorem InOrder.start {log : List (Timer Cb)} {s : Clocked Cb} (h : InOrder log s) (now : ℕ)
    (hnone : s.wheel.timers = []) : InOrder log ⟨s.wheel.start now, now⟩ := by
  rcases h.placed with ⟨place, hinv, -⟩
  exact ⟨⟨fun e => s.wheel.position + (e - now), hinv.start hnone _ now, fun e _ => rfl⟩, rfl,
    h.slots, h.inTurn, h.before, h.ids_le⟩

/-- A deadline that lies ahead keeps its place. -/
theorem place_kept {place : ℕ → ℕ} {position base now n e : ℕ} (hbase : base ≤ now)
    (hplace : ∀ e, base ≤ e → place e = position + (e - base)) (hn : interval base now = n)
    (hlt : place e < 2 ^ 31) (he : now ≤ e) : position + n + (e - now) = place e := by
  have hexact := hplace e (hbase.trans he)
  have hgap : interval base now = ((now - base : ℕ) : ℤ) := interval_of_lt (by omega)
  omega

/-- A step hands out in order, behind all that was handed out. -/
theorem InOrder.step {log : List (Timer Cb)} {s : Clocked Cb} {w : TimerWheel Cb} {now : ℕ}
    {out : List Cb} (h : InOrder log s) (honward : s.clock ≤ now)
    (hlt : s.wheel.position + s.wheel.intervalTo now < 2 ^ 31)
    (hok : s.wheel.step now [] = .ok (w, out)) :
    out = (s.wheel.handsOut (.step now)).map Timer.cb ∧
      InOrder (log ++ s.wheel.handsOut (.step now)) ⟨w, now⟩ := by
  rcases h.placed with ⟨place, hinv, hplace⟩
  rcases bind_ok.1 hok with ⟨_, hfound₀, -⟩
  rcases Int.eq_ofNat_of_zero_le (findPos_nonneg hfound₀) with ⟨n, hn⟩
  have hbase : s.wheel.lastExpireTime ≤ now := h.clock ▸ honward
  have hkept : ∀ e, place e < 2 ^ 31 → now ≤ e →
      s.wheel.position + n + (e - now) = place e := fun e => place_kept hbase hplace hn
  -- places of deadlines that are over are left as they are
  let place' : ℕ → ℕ := fun e =>
    if now ≤ e then s.wheel.position + n + (e - now) else place e
  obtain ⟨found, v, hfound, hadjust, hok', hs⟩ :=
    step_stops (fun t d => d = place t.expireTime ∧ d < 2 ^ 31)
      (AtPlace place' (s.wheel.position + n) now) hinv.digits hinv.linked
      (fun pos t ht => by
        rcases hinv.waits pos t ht with ⟨d, hd, hle, hlt, hslot⟩
        exact ⟨d, ⟨hd, hlt⟩, hle, hlt, hslot⟩) hn (by omega)
      (fun t d hd _ => by
        rcases hd with ⟨rfl, hdlt⟩
        show place t.expireTime = if now ≤ t.expireTime then _ else _
        split
        · rename_i he
          exact (hkept _ hdlt he).symm
        · rfl)
      (fun pos _ t _ d hd hdlt hnow => by
        rcases hd with ⟨rfl, -⟩
        refine ⟨(hkept _ hdlt hnow.le).symm ▸ hdlt, ?_⟩
        show _ = if now ≤ t.expireTime then _ else _
        rw [if_pos hnow.le]) []
  rcases Prod.mk.inj (Except.ok.inj (hok'.symm.trans hok)) with ⟨rfl, rfl⟩
  have hhands : s.wheel.handsOut (.step now) = s.wheel.fired found.pos now := by
    simp only [handsOut, hfound]
  rw [hhands]
  have htogether : ∀ t ∈ s.wheel.fired found.pos now, ∀ u ∈ s.wheel.timers,
      t.expireTime = u.expireTime → u ∈ s.wheel.fired found.pos now :=
    fun t ht u hu => hinv.fired_together ht hu
  have hsub := hs.fired_sub
  have htimers := hs.timers
  have hid := hs.lastTimerId
  have hposition := hs.position
  refine ⟨rfl, ⟨place', hs.inv hinv, fun e he => ?_⟩, rfl,
    fun pos => hinv.left_inTurn h.slots hadjust pos, ?_, fun t ht u hu hsame => ?_, fun t ht => ?_⟩
  · show (if now ≤ e then _ else _) = position { v with lastExpireTime := now } + (e - now)
    rw [if_pos he, hposition]
  · refine List.pairwise_append.2 ⟨h.inTurn, hinv.fired_inTurn h.slots found.pos now, ?_⟩
    exact fun t ht u hu => h.before t ht u (hsub u hu)
  · have hu : u ∈ s.wheel.timers.filter _ := htimers ▸ hu
    rcases List.mem_filter.1 hu with ⟨hpending, hnot⟩
    rcases List.mem_append.1 ht with ht | ht
    · exact h.before t ht u hpending hsame
    · -- `u` would have been handed out with `t`
      exact absurd (List.mem_map_of_mem (htogether t ht u hpending hsame)) (of_decide_eq_true hnot)
  · show t.id ≤ _
    rw [hid]
    rcases List.mem_append.1 ht with ht | ht
    · exact h.ids_le t ht
    · exact hinv.ids_le t (hsub t ht)

/-- Every settled call keeps the order. -/
theorem apply_inOrder {log : List (Timer Cb)} {s s' : Clocked Cb} {op : Op Cb} {out : List Cb}
    (h : InOrder log s) (hguard : Settled s op ∧ Onward s op) (hok : apply s op = .ok (s', out)) :
    out = (s.wheel.handsOut op).map Timer.cb ∧ InOrder (log ++ s.wheel.handsOut op) s' := by
  rcases hguard with ⟨hsettled, honward⟩
  cases op with
  | step now =>
    rcases bind_ok.1 hok with ⟨⟨w, callbacks⟩, hw, hok⟩
    cases hok
    -- only `Step` hands out callbacks, so only it adds to the log
    exact h.step honward hsettled hw
  | runAfter interval cb =>
    rcases bind_ok.1 hok with ⟨w, hw, hok⟩
    cases hok
    refine ⟨rfl, ?_⟩
    rw [handsOut, List.append_nil]
    exact h.runAfter hsettled hw
  | runAt expireTime cb =>
    rcases bind_ok.1 hok with ⟨w, hw, hok⟩
    cases hok
    refine ⟨rfl, ?_⟩
    rw [handsOut, List.append_nil]
    exact h.runAfter hsettled hw
  | removeTimer id =>
    rcases bind_ok.1 hok with ⟨w, hw, hok⟩
    cases hok
    refine ⟨rfl, ?_⟩
    rw [handsOut, List.append_nil]
    exact h.removeTimer hw
  | start now =>
    cases hok
    refine ⟨rfl, ?_⟩
    rw [handsOut, List.append_nil]
    exact h.start now hsettled

/-! ## Runs -/

/-- Every settled run keeps the order. -/
theorem run_inOrder {log : List (Timer Cb)} {s s' : Clocked Cb} {ops : List (Op Cb)}
    {outs : List (List Cb)} (h : InOrder log s)
    (hg : Guarded apply (fun s op => Settled s op ∧ Onward s op) s ops)
    (hrun : run apply s ops = .ok (s', outs)) :
    outs.flatten = (runHandsOut s ops).map Timer.cb ∧
      (log ++ runHandsOut s ops).Pairwise InTurn := by
  induction ops generalizing log s outs with
  | nil =>
    cases hrun
    exact ⟨rfl, by simpa [runHandsOut] using h.inTurn⟩
  | cons op ops ih =>
    rcases run_cons_inv hrun with ⟨s₁, out, outs', happly, hrest, rfl⟩
    rcases apply_inOrder h hg.1 happly with ⟨rfl, hnext⟩
    rcases ih hnext (hg.2 s₁ _ happly) hrest with ⟨houts, hturn⟩
    rw [List.append_assoc] at hturn
    simp only [runHandsOut, happly, List.flatten_cons, List.map_append]
    exact ⟨by rw [houts], hturn⟩

/-- In every run without overflows whose steps do not go back, the callbacks of timers with one
deadline are handed out in the order in which the timers were registered. -/
theorem equal_deadlines_in_order (built : ℕ) (ops : List (Op Cb))
    (h : Guarded apply (fun s op => Settled s op ∧ Onward s op) (Clocked.new built) ops)
    (s : Clocked Cb) (outs : List (List Cb))
    (hrun : run apply (Clocked.new built) ops = .ok (s, outs)) :
    outs.flatten = (runHandsOut (Clocked.new built) ops).map Timer.cb ∧
      (runHandsOut (Clocked.new built) ops).Pairwise InTurn :=
  run_inOrder (new_inOrder built) h hrun

/-- Two timers for the time `205`: a step moves the first one to a lower wheel before the second
one is registered. -/
theorem equal_deadlines_in_order_run :
    ∃ s outs, run apply (Clocked.new 5) [.runAfter 200 7, .step 133, .runAfter 72 8, .step 206] =
        .ok (s, outs) ∧ outs = [[], [], [], [7, 8]] ∧
      (runHandsOut (Clocked.new 5) [.runAfter 200 7, .step 133, .runAfter 72 8,
        .step 206]).Pairwise InTurn := by
  have houts : (run apply (Clocked.new 5) [.runAfter 200 7, .step 133, .runAfter 72 8,
      .step 206]).map Prod.snd = .ok [[], [], [], [7, 8]] := by decide
  rcases map_ok.1 houts with ⟨⟨s, outs⟩, hrun, houts⟩
  exact ⟨s, outs, hrun, houts, (equal_deadlines_in_order 5 [.runAfter 200 7, .step 133,
    .runAfter 72 8, .step 206] (by decide) s outs hrun).2⟩

end FxServer.TimerWheel
