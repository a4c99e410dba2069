import FxServer.TimerWheel.Indices

/-!
# FxServer.TimerWheel.Conservation — no timer is lost or doubled

Nothing is asked of the clock here: it may go back or leap, `Start` may come at any time, and a
timer may be placed where the hands overflow. Timers may then fire at the wrong time, but each
callback that was registered has been handed out once, or was removed, or is pending.

Timers are told apart by their ids, which are given out once. So what is pending, what was handed
out and what was removed are three lists that together are a rearrangement of what was
registered.

* `adjust_linked` — the last loop of `Step` keeps slots and `timers_` in agreement.
* `timers_conserved` — the account over a run.
-/

namespace FxServer.TimerWheel

open Machine

variable {Cb : Type}

/-- The callback that a call registers. -/
def Op.registers : Op Cb → List Cb
  | .runAfter _ cb | .runAt _ cb => [cb]
  | .removeTimer _ | .start _ | .step _ => []

/-- The timer that a call removes. -/
def Op.removes : Op Cb → List ℕ
  | .removeTimer id => [id]
  | .runAfter _ _ | .runAt _ _ | .start _ | .step _ => []

/-! ## One operation -/

/-- What holds of a wheel whatever its clock has been. -/
structure Whole (w : TimerWheel Cb) : Prop where
  /-- the slots and `timers_` hold the same timers -/
  linked : Linked w.wheels w.timers
  /-- no timer has an id that is still to be given out -/
  ids_le : ∀ t ∈ w.timers, t.id ≤ w.lastTimerId

theorem new_whole (now : ℕ) : Whole (new now : TimerWheel Cb) :=
  ⟨(new_inv NotBefore now).linked, (new_inv NotBefore now).ids_le⟩

/-- `timers_` is what is taken from it, and the rest. -/
theorem perm_taken {timers ts : List (Timer Cb)} (hids : (timers.map Timer.id).Nodup)
    (hts : ∀ t ∈ ts, t ∈ timers) (hnodup : ts.Nodup) :
    timers.Perm (ts ++ timers.filter (·.id ∉ ts.map Timer.id)) := by
  -- ids are unique, so a timer is taken exactly when its id is
  have hrest : ∀ t ∈ timers, t.id ∈ ts.map Timer.id ↔ t ∈ ts := by
    intro t ht
    refine ⟨fun h => ?_, List.mem_map_of_mem⟩
    rcases List.mem_map.1 h with ⟨u, hu, hid⟩
    exact eq_of_id_eq hids (hts u hu) ht hid ▸ hu
  have htimers : timers.Nodup := hids.of_map _
  refine (List.perm_ext_iff_of_nodup htimers ?_).2 fun t => ?_
  · refine List.Nodup.append hnodup (htimers.filter _) ?_
    intro t ht hleft
    have hout := (List.mem_filter.1 hleft).2
    simp only [decide_eq_true_eq] at hout
    exact hout (List.mem_map_of_mem ht)
  · rw [List.mem_append, List.mem_filter]
    constructor
    · intro ht
      by_cases hmem : t ∈ ts
      · exact .inl hmem
      · refine .inr ⟨ht, ?_⟩
        simpa only [decide_eq_true_eq, hrest t ht] using hmem
    · rintro (ht | ⟨ht, -⟩)
      · exact hts t ht
      · exact ht

/-- Registering adds one timer. -/
theorem Whole.runAfter {w w' : TimerWheel Cb} (h : Whole w) {interval : ℤ} {cb : Cb}
    (hok : w.runAfter interval cb = .ok w') :
    Whole w' ∧ w'.lastTimerId = w.lastTimerId + 1 ∧
      w'.timers = w.timers ++ [w.nextTimer interval.toNat cb] := by
  rcases bind_ok.1 hok with ⟨found, hfound, hok⟩
  rcases bind_ok.1 hok with ⟨_, -, hok⟩
  cases hok
  have hslot : found.pos ∈ slotsBelow kWheelCount := mem_slotsBelow.2 (findPos_inWheel hfound)
  refine ⟨⟨h.linked.add (id_ne_next h.ids_le interval.toNat cb) hslot, ?_⟩, rfl, rfl⟩
  intro t ht
  rcases List.mem_append.1 ht with ht | ht
  · exact Nat.le_succ_of_le (h.ids_le t ht)
  · rw [List.mem_singleton.1 ht]

/-- Removing takes one away. -/
theorem Whole.removeTimer {w w' : TimerWheel Cb} (h : Whole w) {id : ℕ}
    (hok : w.removeTimer id = .ok w') :
    Whole w' ∧ w'.lastTimerId = w.lastTimerId ∧
      ∃ t ∈ w.timers, t.id = id ∧ w.timers.Perm (t :: w'.timers) := by
  unfold TimerWheel.removeTimer at hok
  split at hok
  · cases hok
  · rename_i t hfind
    cases hok
    rcases findTimer_eq_some hfind with ⟨ht, rfl⟩
    refine ⟨⟨h.linked.unlink t.id, fun u hu => h.ids_le u (List.mem_filter.1 hu).1⟩, rfl, t, ht,
      rfl, ?_⟩
    have hperm : w.timers.Perm ([t] ++ w.timers.filter (·.id ∉ [t].map Timer.id)) :=
      perm_taken h.linked.ids (by simpa using ht) (by simp)
    simpa [eraseTimer] using hperm

/-- The last loop of `Step`, whatever slots it finds. -/
theorem adjust_linked {now : ℕ} {rest : List (Timer Cb)} {w w' : TimerWheel Cb}
    (h : Linked w.wheels w.timers) (hrest : ∀ t ∈ rest, t ∈ w.timers)
    (hok : adjust now rest w = .ok w') :
    Linked w'.wheels w'.timers ∧ w'.timers = w.timers ∧ w'.lastTimerId = w.lastTimerId := by
  induction rest generalizing w with
  | nil =>
    cases hok
    exact ⟨h, rfl, rfl⟩
  | cons t rest ih =>
    rcases bind_ok.1 hok with ⟨_, -, hok⟩
    rcases bind_ok.1 hok with ⟨_, -, hok⟩
    rcases bind_ok.1 hok with ⟨found, hfound, hok⟩
    have hslot : found.pos ∈ slotsBelow kWheelCount := mem_slotsBelow.2 (findPos_inWheel hfound)
    have hmoved := h.move (hrest t List.mem_cons_self) hslot
    exact ih (w := { w with wheels := pushBack (unlink w.wheels t.id) found.pos t }) hmoved
      (fun u hu => hrest u (List.mem_cons_of_mem _ hu)) hok

/-- A step splits the timers into those it hands out and those it keeps. -/
theorem Whole.step {w w' : TimerWheel Cb} (h : Whole w) {now : ℕ} {out : List Cb}
    (hok : w.step now [] = .ok (w', out)) :
    Whole w' ∧ w'.lastTimerId = w.lastTimerId ∧
      ∃ ts : List (Timer Cb), ts.map Timer.cb = out ∧ w.timers.Perm (ts ++ w'.timers) := by
  rcases (step_returns hok).1 with ⟨found, hfound, ho⟩
  have hhand : w.hands.getD found.pos.1 0 ≤ found.pos.2 := by
    have hok' := hok
    unfold TimerWheel.step at hok'
    simp only [hfound, ok_bind, ho, Bool.false_eq_true, if_false] at hok'
    rcases bind_ok.1 hok' with ⟨_, hhand, -⟩
    exact check_ok.1 hhand
  rw [h.linked.step_eq hfound ho hhand] at hok
  rcases bind_ok.1 hok with ⟨w₁, hadjust, hok⟩
  cases hok
  -- what fires comes from the slots, and these hold timers of the table only
  have hfired : ∀ t ∈ w.fired found.pos now, t ∈ w.timers := by
    intro t ht
    rcases fired_sub ht with ⟨pos, hpos⟩
    exact h.linked.mem pos t hpos
  -- what is not yet due in the last slot stays in the table, and is placed again
  have hrest : ∀ t ∈ (w.wheels found.pos).filter (now < ·.expireTime),
      t ∈ (w.handedOut found now).timers := by
    intro t ht
    rcases List.mem_filter.1 ht with ⟨ht, hnow⟩
    have hnot : t ∉ w.fired found.pos now := by
      rw [h.linked.mem_fired ht]
      simpa [stop_not_passed] using hnow
    refine List.mem_filter.2 ⟨h.linked.mem _ t ht, ?_⟩
    simpa [h.linked.mem_fired_ids (h.linked.mem _ t ht)] using hnot
  rcases adjust_linked (h.linked.linked_handedOut found now) hrest hadjust with
    ⟨hlinked, htimers, hlast⟩
  refine ⟨⟨hlinked, fun t ht => ?_⟩, hlast, w.fired found.pos now, rfl, ?_⟩
  · have ht : t ∈ (w.handedOut found now).timers := htimers ▸ ht
    have hle := h.ids_le t (List.mem_filter.1 ht).1
    exact hle.trans (le_of_eq hlast.symm)
  · show w.timers.Perm (w.fired found.pos now ++ w₁.timers)
    rw [htimers]
    exact perm_taken h.linked.ids hfired (h.linked.fired_nodup found.pos now)

/-! ## Runs -/

/-- The account: every timer that was registered was handed out, or removed, or is pending. -/
structure Accounts (s : Clocked Cb) (registered out removed : List (Timer Cb)) : Prop where
  whole : Whole s.wheel
  /-- ids are given out once -/
  ids : (registered.map Timer.id).Nodup
  ids_le : ∀ t ∈ registered, t.id ≤ s.wheel.lastTimerId
  /-- what was registered is out, removed or pending -/
  conserved : registered.Perm (out ++ removed ++ s.wheel.timers)

theorem new_accounts (built : ℕ) : Accounts (Clocked.new built : Clocked Cb) [] [] [] :=
  ⟨new_whole built, .nil, fun _ ht => absurd ht List.not_mem_nil, .refl _⟩

/-- A timer is registered. -/
theorem Accounts.register {s : Clocked Cb} {registered out removed : List (Timer Cb)}
    (h : Accounts s registered out removed) {w : TimerWheel Cb} {interval : ℤ} {cb : Cb}
    (hok : s.wheel.runAfter interval cb = .ok w) :
    ∃ t : Timer Cb, t.cb = cb ∧
      Accounts { s with wheel := w } (registered ++ [t]) out removed := by
  rcases h.whole.runAfter hok with ⟨hwhole, hlast, htimers⟩
  refine ⟨s.wheel.nextTimer interval.toNat cb, rfl, hwhole, ?_, fun t ht => ?_, ?_⟩
  · rw [List.map_append]
    refine List.Nodup.append h.ids (by simp) fun id hold hnew => ?_
    rcases List.mem_map.1 hold with ⟨u, hu, rfl⟩
    have hid : u.id = s.wheel.lastTimerId + 1 := by simpa [nextTimer] using hnew
    have hle := h.ids_le u hu
    omega
  · show t.id ≤ w.lastTimerId
    rw [hlast]
    rcases List.mem_append.1 ht with ht | ht
    · exact Nat.le_succ_of_le (h.ids_le t ht)
    · rw [List.mem_singleton.1 ht]
      rfl
  · show (registered ++ _).Perm (out ++ removed ++ w.timers)
    rw [htimers, ← List.append_assoc]
    exact h.conserved.append_right _

/-- Every call balances. -/
theorem apply_accounts {s s' : Clocked Cb} {op : Op Cb} {callbacks : List Cb}
    {registered out removed : List (Timer Cb)} (h : Accounts s registered out removed)
    (hok : apply s op = .ok (s', callbacks)) :
    ∃ registered' out' removed' : List (Timer Cb), registered'.map Timer.cb = op.registers ∧
      out'.map Timer.cb = callbacks ∧ removed'.map Timer.id = op.removes ∧
      Accounts s' (registered ++ registered') (out ++ out') (removed ++ removed') := by
  cases op with
  | runAfter interval cb =>
    rcases bind_ok.1 hok with ⟨w, hw, hok⟩
    cases hok
    -- the new timer is registered, and nothing is handed out or removed
    rcases h.register hw with ⟨t, rfl, h'⟩
    exact ⟨[t], [], [], rfl, rfl, rfl, by simpa using h'⟩
  | runAt expireTime cb =>
    rcases bind_ok.1 hok with ⟨w, hw, hok⟩
    cases hok
    rcases h.register hw with ⟨t, rfl, h'⟩
    exact ⟨[t], [], [], rfl, rfl, rfl, by simpa using h'⟩
  | removeTimer id =>
    rcases bind_ok.1 hok with ⟨w, hw, hok⟩
    cases hok
    -- the timer moves from the table to what is removed
    rcases h.whole.removeTimer hw with ⟨hwhole, hlast, t, -, rfl, hperm⟩
    refine ⟨[], [], [t], rfl, rfl, rfl, hwhole, by simpa using h.ids, fun u hu => ?_, ?_⟩
    · show u.id ≤ w.lastTimerId
      rw [hlast]
      exact h.ids_le u (by simpa using hu)
    · rw [List.append_nil, List.append_nil]
      refine h.conserved.trans ((hperm.append_left _).trans ?_)
      simp
  | start now =>
    cases hok
    refine ⟨[], [], [], rfl, rfl, rfl, ?_⟩
    simp only [List.append_nil]
    exact ⟨⟨h.whole.linked, h.whole.ids_le⟩, h.ids, h.ids_le, h.conserved⟩
  | step now =>
    rcases bind_ok.1 hok with ⟨⟨w, callbacks'⟩, hw, hok⟩
    cases hok
    -- what the step hands out moves from the table to what is out
    rcases h.whole.step hw with ⟨hwhole, hlast, ts, hts, hperm⟩
    refine ⟨[], ts, [], rfl, hts, rfl, hwhole, by simpa using h.ids, fun u hu => ?_, ?_⟩
    · show u.id ≤ w.lastTimerId
      rw [hlast]
      exact h.ids_le u (by simpa using hu)
    · rw [List.append_nil, List.append_nil]
      have hswap : (removed ++ ts).Perm (ts ++ removed) := List.perm_append_comm
      have hmoved := (hswap.append_right w.timers).append_left out
      refine h.conserved.trans ((hperm.append_left _).trans ?_)
      simpa [List.append_assoc] using hmoved

/-- Every run balances. -/
theorem run_accounts {s s' : Clocked Cb} {ops : List (Op Cb)} {outs : List (List Cb)}
    {registered out removed : List (Timer Cb)} (h : Accounts s registered out removed)
    (hrun : run apply s ops = .ok (s', outs)) :
    ∃ registered' out' removed' : List (Timer Cb),
      registered'.map Timer.cb = ops.flatMap Op.registers ∧
      out'.map Timer.cb = outs.flatten ∧ removed'.map Timer.id = ops.flatMap Op.removes ∧
      Accounts s' (registered ++ registered') (out ++ out') (removed ++ removed') := by
  induction ops generalizing s registered out removed outs with
  | nil =>
    cases hrun
    exact ⟨[], [], [], rfl, rfl, rfl, by simpa using h⟩
  | cons op ops ih =>
    rcases run_cons_inv hrun with ⟨s₁, callbacks, outs', hop, hrest, rfl⟩
    rcases apply_accounts h hop with ⟨r₁, o₁, d₁, hr₁, ho₁, hd₁, h₁⟩
    rcases ih h₁ hrest with ⟨r₂, o₂, d₂, hr₂, ho₂, hd₂, h₂⟩
    refine ⟨r₁ ++ r₂, o₁ ++ o₂, d₁ ++ d₂, ?_, ?_, ?_, ?_⟩
    · rw [List.map_append, hr₁, hr₂, List.flatMap_cons]
    · rw [List.map_append, ho₁, ho₂, List.flatten_cons]
    · rw [List.map_append, hd₁, hd₂, List.flatMap_cons]
    · simpa only [List.append_assoc] using h₂

end FxServer.TimerWheel
