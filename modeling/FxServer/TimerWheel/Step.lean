import Mathlib.Data.List.Nodup
import FxServer.TimerWheel.Placement

/-!
# FxServer.TimerWheel.Step — what one `Step` does to the slots

Two invariants tie the slots to `timers_` and to the hands.

* `Linked` — the slots and `timers_` hold the same timers, each in one slot, once.
* `Waits due` — a timer in a slot stands in the slot of a position that `due`
  allows for it, not before the hands. The exact wheel allows one position for
  each timer; the wheel under a narrowed clock allows later ones.

`step_spec` says of both at once what `Step` does: the timers it hands out are
the ones whose position the hands have passed and the expired ones of the slot
where they stop, and the invariants hold of what is left.

The proof goes along the code. The slots that are passed are collected, the one at
the stop is split, `timers_` follows, and what is left at the stop is placed again;
each loop has one lemma, and `SlotFor.after_move` says what the move of the hands
means for the others.
-/

namespace FxServer.TimerWheel

open MixedRadix

variable {Cb : Type}

/-- The slots and `timers_` hold the same timers. -/
structure Linked (wheels : Wheels Cb) (timers : List (Timer Cb)) : Prop where
  /-- ids tell timers apart -/
  ids : (timers.map Timer.id).Nodup
  /-- no slot holds a timer twice -/
  nodup : ∀ pos, (wheels pos).Nodup
  /-- what is in a slot is in `timers_` -/
  mem : ∀ pos, ∀ t ∈ wheels pos, t ∈ timers
  /-- only slots that exist hold timers -/
  slot : ∀ pos, ∀ t ∈ wheels pos, pos ∈ slotsBelow kWheelCount
  /-- a timer is in one slot only -/
  unique : ∀ pos pos' t, t ∈ wheels pos → t ∈ wheels pos' → pos = pos'
  /-- what is in `timers_` is in a slot -/
  linked : ∀ t ∈ timers, ∃ pos, t ∈ wheels pos

/-- No slot holds a timer when none is pending. -/
theorem Linked.notMem {wheels : Wheels Cb} {timers : List (Timer Cb)} (h : Linked wheels timers)
    (hnone : timers = []) (pos : ℕ × ℕ) (t : Timer Cb) : t ∉ wheels pos := by
  intro ht
  have hmem := h.mem pos t ht
  rw [hnone] at hmem
  cases hmem

/-- The timers stand in slots that `due` allows for them when the hands show `here`. -/
def Waits (due : Timer Cb → ℕ → Prop) (here : ℕ) (wheels : Wheels Cb) : Prop :=
  ∀ pos, ∀ t ∈ wheels pos, ∃ d, due t d ∧ here ≤ d ∧ d < 2 ^ 31 ∧ SlotFor here d pos

/-! ## `timers_` -/

/-- Ids tell timers apart. -/
theorem eq_of_id_eq {timers : List (Timer Cb)} (hids : (timers.map Timer.id).Nodup)
    {t u : Timer Cb} (ht : t ∈ timers) (hu : u ∈ timers) (h : t.id = u.id) : t = u :=
  List.inj_on_of_nodup_map hids ht hu h

/-- A timer is found under its id. -/
theorem findTimer_of_mem {timers : List (Timer Cb)} (hids : (timers.map Timer.id).Nodup)
    {t : Timer Cb} (ht : t ∈ timers) : findTimer timers t.id = some t := by
  unfold findTimer
  cases hfind : timers.find? (·.id = t.id) with
  | none =>
    have := List.find?_eq_none.1 hfind t ht
    simp at this
  | some u =>
    have hid : u.id = t.id := by simpa using List.find?_some hfind
    rw [eq_of_id_eq hids (List.mem_of_find?_eq_some hfind) ht hid]

/-- What is found is a timer of that id. -/
theorem findTimer_eq_some {timers : List (Timer Cb)} {id : ℕ} {t : Timer Cb}
    (h : findTimer timers id = some t) : t ∈ timers ∧ t.id = id :=
  ⟨List.mem_of_find?_eq_some h, by simpa using List.find?_some h⟩

/-- Handed out timers leave `timers_`; the lookups of the loop all succeed. -/
theorem eraseTimers_spec {ts timers : List (Timer Cb)} (hids : (timers.map Timer.id).Nodup)
    (hts : (ts.map Timer.id).Nodup) (hmem : ∀ t ∈ ts, t ∈ timers) :
    eraseTimers (ts.map Timer.id) timers =
      .ok (timers.filter (·.id ∉ ts.map Timer.id)) := by
  induction ts generalizing timers with
  | nil => simp [eraseTimers]
  | cons t ts ih =>
    rw [List.map_cons, List.nodup_cons] at hts
    have hids' : ((eraseTimer timers t.id).map Timer.id).Nodup :=
      hids.sublist (List.filter_sublist.map _)
    -- ids are unique, so the others are still found once the first is erased
    have hmem' : ∀ u ∈ ts, u ∈ eraseTimer timers t.id := by
      intro u hu
      refine List.mem_filter.2 ⟨hmem u (by simp [hu]), ?_⟩
      have : u.id ≠ t.id := fun h => hts.1 (h ▸ List.mem_map_of_mem hu)
      simpa using this
    simp only [List.map_cons, eraseTimers, findTimer_of_mem hids (hmem t (by simp))]
    rw [ih hids' hts.2 hmem', eraseTimer, List.filter_filter]
    congr 2
    funext u
    by_cases hut : u.id = t.id <;> simp [hut]

/-! ## The loops of `Step` -/

/-- Splicing slots empties them and appends what they held. -/
theorem spliceAll_spec {slots : List SlotPos} (hnodup : slots.Nodup) (wheels : Wheels Cb)
    (l : List (Timer Cb)) :
    spliceAll slots wheels l =
      (fun pos => if pos ∈ slots then [] else wheels pos, l ++ slots.flatMap wheels) := by
  induction slots generalizing wheels l with
  | nil => simp [spliceAll]
  | cons p slots ih =>
    rw [List.nodup_cons] at hnodup
    -- the slots spliced later are not `p`, so emptying `p` does not change them
    have hrest : slots.flatMap (Function.update wheels p []) = slots.flatMap wheels :=
      List.flatMap_congr fun q hq =>
        Function.update_of_ne (fun h : q = p => hnodup.1 (h ▸ hq)) _ _
    rw [spliceAll]
    split
    · rename_i hempty
      rw [ih hnodup.2, List.flatMap_cons, List.isEmpty_iff.1 hempty, List.nil_append]
      refine Prod.ext (funext fun q => ?_) rfl
      by_cases hq : q = p
      · subst hq
        simp [List.isEmpty_iff.1 hempty]
      · simp [hq]
    · rw [ih hnodup.2, hrest, List.flatMap_cons, List.append_assoc]
      refine Prod.ext (funext fun q => ?_) rfl
      by_cases hq : q = p
      · subst hq
        simp
      · simp [hq]

/-- The slot of the stop gives up its due timers. -/
theorem moveDue_spec {now : ℕ} {timers ts : List (Timer Cb)}
    (hfind : ∀ t ∈ ts, findTimer timers t.id = some t) (wheels : Wheels Cb)
    (l : List (Timer Cb)) :
    moveDue now timers (ts.map Timer.id) wheels l =
      .ok (fun pos => (wheels pos).filter
          (·.id ∉ (ts.filter (·.expireTime ≤ now)).map Timer.id),
        l ++ ts.filter (·.expireTime ≤ now)) := by
  induction ts generalizing wheels l with
  | nil => simp [moveDue]
  | cons t ts ih =>
    simp only [List.map_cons, moveDue, hfind t (by simp)]
    split
    · -- due: unlinked, and put behind the callbacks there are
      rename_i hdue
      rw [ih fun u hu => hfind u (by simp [hu])]
      simp only [hdue, decide_true, List.filter_cons_of_pos, unlink, List.filter_filter,
        List.append_assoc, List.singleton_append]
      congr 3
      funext pos
      congr 1
      funext u
      by_cases hut : u.id = t.id <;> simp [hut]
    · rename_i hdue
      rw [ih fun u hu => hfind u (by simp [hu]), List.filter_cons_of_neg (by simpa using hdue)]

/-! ## Moving one timer -/

section Linked

variable {wheels : Wheels Cb} {timers : List (Timer Cb)}

theorem isLinked_of_mem {pos : SlotPos} {t : Timer Cb} (hpos : pos ∈ slotsBelow kWheelCount)
    (ht : t ∈ wheels pos) : isLinked wheels t.id = true :=
  List.any_eq_true.2 ⟨pos, hpos, List.any_eq_true.2 ⟨t, ht, by simp⟩⟩

theorem mem_unlink {id : ℕ} {pos : SlotPos} {t : Timer Cb} :
    t ∈ unlink wheels id pos ↔ t ∈ wheels pos ∧ t.id ≠ id := by
  simp [unlink]

theorem mem_pushBack {pos pos' : SlotPos} {t u : Timer Cb} :
    u ∈ pushBack wheels pos t pos' ↔ u ∈ wheels pos' ∨ (pos' = pos ∧ u = t) := by
  unfold pushBack
  by_cases h : pos' = pos
  · subst h
    simp
  · simp [h]

/-- A timer of `timers_` put into another slot. -/
theorem Linked.move (h : Linked wheels timers) {t : Timer Cb} (ht : t ∈ timers) {pos : SlotPos}
    (hpos : pos ∈ slotsBelow kWheelCount) :
    Linked (pushBack (unlink wheels t.id) pos t) timers := by
  have hold : ∀ pos' u, u ∈ unlink wheels t.id pos' → u ∈ wheels pos' ∧ u ≠ t := by
    intro pos' u hu
    rcases mem_unlink.1 hu with ⟨hu, hne⟩
    exact ⟨hu, fun he => hne (he ▸ rfl)⟩
  constructor
  · exact h.ids
  · intro pos'
    have hfilter : (unlink wheels t.id pos').Nodup := (h.nodup pos').filter _
    by_cases hp : pos' = pos
    · subst hp
      rw [pushBack, Function.update_self]
      refine List.Nodup.append hfilter (List.nodup_singleton t) ?_
      rintro u hu hu'
      exact (hold pos' u hu).2 (List.mem_singleton.1 hu')
    · rwa [pushBack, Function.update_of_ne hp]
  · intro pos' u hu
    rcases mem_pushBack.1 hu with hu | ⟨-, rfl⟩
    · exact h.mem pos' u (hold pos' u hu).1
    · exact ht
  · intro pos' u hu
    rcases mem_pushBack.1 hu with hu | ⟨rfl, -⟩
    · exact h.slot pos' u (hold pos' u hu).1
    · exact hpos
  · -- no timer stands in two slots
    intro p q u hu hu'
    rcases mem_pushBack.1 hu with hp | ⟨hp, hut⟩ <;>
      rcases mem_pushBack.1 hu' with hq | ⟨hq, hut'⟩
    · exact h.unique p q u (hold p u hp).1 (hold q u hq).1
    · exact absurd hut' (hold p u hp).2
    · exact absurd hut (hold q u hq).2
    · exact hp.trans hq.symm
  · intro u hu
    by_cases hut : u.id = t.id
    · exact ⟨pos, mem_pushBack.2 (.inr ⟨rfl, eq_of_id_eq h.ids hu ht hut⟩)⟩
    · rcases h.linked u hu with ⟨pos', hu'⟩
      exact ⟨pos', mem_pushBack.2 (.inl (mem_unlink.2 ⟨hu', hut⟩))⟩

/-- A new timer, registered in `timers_` and put into a slot. -/
theorem Linked.add (h : Linked wheels timers) {t : Timer Cb} (hid : ∀ u ∈ timers, u.id ≠ t.id)
    {pos : SlotPos} (hpos : pos ∈ slotsBelow kWheelCount) :
    Linked (pushBack wheels pos t) (timers ++ [t]) := by
  have hnew : ∀ pos', t ∉ wheels pos' := fun pos' ht => hid t (h.mem pos' t ht) rfl
  constructor
  · rw [List.map_append]
    refine List.Nodup.append h.ids (by simp) ?_
    intro id hold hnew
    rcases List.mem_map.1 hold with ⟨u, hu, rfl⟩
    exact hid u hu (by simpa using hnew)
  · intro pos'
    by_cases hp : pos' = pos
    · subst hp
      rw [pushBack, Function.update_self]
      exact List.Nodup.append (h.nodup pos') (List.nodup_singleton t)
        (by simpa using hnew pos')
    · rw [pushBack, Function.update_of_ne hp]
      exact h.nodup pos'
  · intro pos' u hu
    rcases mem_pushBack.1 hu with hu | ⟨-, rfl⟩
    · simp [h.mem pos' u hu]
    · simp
  · intro pos' u hu
    rcases mem_pushBack.1 hu with hu | ⟨rfl, -⟩
    · exact h.slot pos' u hu
    · exact hpos
  · -- no timer stands in two slots
    intro p q u hu hu'
    rcases mem_pushBack.1 hu with hp | ⟨hp, hut⟩ <;>
      rcases mem_pushBack.1 hu' with hq | ⟨hq, hut'⟩
    · exact h.unique p q u hp hq
    · exact absurd (hut' ▸ hp) (hnew p)
    · exact absurd (hut ▸ hq) (hnew q)
    · exact hp.trans hq.symm
  · intro u hu
    rcases List.mem_append.1 hu with hu | hu
    · rcases h.linked u hu with ⟨pos', hu'⟩
      exact ⟨pos', mem_pushBack.2 (.inl hu')⟩
    · exact ⟨pos, mem_pushBack.2 (.inr ⟨rfl, List.mem_singleton.1 hu⟩)⟩

/-- Slots and `timers_` filtered alike: each timer is kept in its slot or dropped
from both. -/
theorem Linked.restrict (h : Linked wheels timers) (keep : Timer Cb → Prop) [DecidablePred keep]
    {wheels' : Wheels Cb} (hsub : ∀ pos, (wheels' pos).Sublist (wheels pos))
    (hmem : ∀ pos t, t ∈ wheels' pos ↔ t ∈ wheels pos ∧ keep t) :
    Linked wheels' (timers.filter keep) where
  ids := h.ids.sublist (List.filter_sublist.map _)
  nodup pos := (h.nodup pos).sublist (hsub pos)
  mem pos t ht := by
    rcases (hmem pos t).1 ht with ⟨hold, hkeep⟩
    simpa using ⟨h.mem pos t hold, hkeep⟩
  slot pos t ht := h.slot pos t ((hmem pos t).1 ht).1
  unique p q t hp hq := h.unique p q t ((hmem p t).1 hp).1 ((hmem q t).1 hq).1
  linked t ht := by
    rcases List.mem_filter.1 ht with ⟨hold, hkeep⟩
    rcases h.linked t hold with ⟨pos, hpos⟩
    exact ⟨pos, (hmem pos t).2 ⟨hpos, by simpa using hkeep⟩⟩

end Linked

/-! ## What `Step` hands out -/

/-- The slots that the hands pass on their way to the slot `stop`. -/
def passed (w : TimerWheel Cb) (stop : SlotPos) : List SlotPos :=
  slotsBelow stop.1 ++
    (List.range' (w.hands.getD stop.1 0) (stop.2 - w.hands.getD stop.1 0)).map fun slotIdx =>
      (stop.1, slotIdx)

/-- The timers handed out when the hands stop at `stop`. -/
def fired (w : TimerWheel Cb) (stop : SlotPos) (now : ℕ) : List (Timer Cb) :=
  (w.passed stop).flatMap w.wheels ++ (w.wheels stop).filter (·.expireTime ≤ now)

/-- What is left in the slots. -/
def leftWheels (w : TimerWheel Cb) (stop : SlotPos) (now : ℕ) : Wheels Cb := fun pos =>
  if pos ∈ w.passed stop then []
  else if pos = stop then (w.wheels stop).filter (now < ·.expireTime)
  else w.wheels pos

/-- The wheel after the timers are handed out and before the last loop of `Step`. -/
def handedOut (w : TimerWheel Cb) (found : FoundPos) (now : ℕ) : TimerWheel Cb :=
  { w with
    hands := found.newHands
    spareHands := w.hands
    wheels := w.leftWheels found.pos now
    timers := w.timers.filter (·.id ∉ (w.fired found.pos now).map Timer.id)
    expireTimeQueue := w.expireTimeQueue.dropWhile (· ≤ now) }

/-- The slots passed: all of the lower wheels, and those before the stop on its own. -/
theorem mem_passed {w : TimerWheel Cb} {stop pos : SlotPos} :
    pos ∈ w.passed stop ↔
      (pos.1 < stop.1 ∧ pos.2 < slotCount pos.1) ∨
      (pos.1 = stop.1 ∧ w.hands.getD stop.1 0 ≤ pos.2 ∧ pos.2 < stop.2) := by
  rcases pos with ⟨wheelIdx, slotIdx⟩
  simp only [passed, List.mem_append, mem_slotsBelow, List.mem_map, List.mem_range'_1,
    Prod.mk.injEq]
  constructor
  · rintro (h | ⟨i, ⟨hlo, hhi⟩, rfl, rfl⟩)
    · exact .inl h
    · exact .inr ⟨rfl, hlo, by omega⟩
  · rintro (h | ⟨rfl, hlo, hhi⟩)
    · exact .inl h
    · exact .inr ⟨slotIdx, ⟨hlo, by omega⟩, rfl, rfl⟩

theorem stop_not_passed {w : TimerWheel Cb} {stop : SlotPos} : stop ∉ w.passed stop := by
  rw [mem_passed]
  omega

theorem slotsBelow_nodup (n : ℕ) : (slotsBelow n).Nodup := by
  refine List.nodup_flatMap.2 ⟨fun i _ => ?_, ?_⟩
  · exact List.nodup_range.map fun a b h => (Prod.mk.inj h).2
  · refine List.nodup_range.imp fun {i j} hij => ?_
    intro pos hi hj
    rcases List.mem_map.1 hi with ⟨_, -, rfl⟩
    rcases List.mem_map.1 hj with ⟨_, -, h⟩
    exact hij (Prod.mk.inj h).1.symm

/-- No slot is passed twice. -/
theorem passed_nodup (w : TimerWheel Cb) (stop : SlotPos) : (w.passed stop).Nodup := by
  refine List.Nodup.append (slotsBelow_nodup _)
    (List.Nodup.map (fun a b h => (Prod.mk.inj h).2) (List.nodup_range' _)) ?_
  intro pos hbelow hrange
  rcases List.mem_map.1 hrange with ⟨_, -, rfl⟩
  exact absurd (mem_slotsBelow.1 hbelow).1 (Nat.lt_irrefl _)

theorem spliceAll_append (ps qs : List SlotPos) (wheels : Wheels Cb) (l : List (Timer Cb)) :
    spliceAll (ps ++ qs) wheels l =
      spliceAll qs (spliceAll ps wheels l).1 (spliceAll ps wheels l).2 := by
  induction ps generalizing wheels l with
  | nil => rfl
  | cons p ps ih =>
    rw [List.cons_append, spliceAll, spliceAll]
    split <;> exact ih _ _

/-- Only timers in slots are fired. -/
theorem fired_sub {w : TimerWheel Cb} {stop : SlotPos} {now : ℕ} {t : Timer Cb}
    (ht : t ∈ w.fired stop now) : ∃ pos, t ∈ w.wheels pos := by
  rcases List.mem_append.1 ht with ht | ht
  · rcases List.mem_flatMap.1 ht with ⟨pos, -, ht⟩
    exact ⟨pos, ht⟩
  · exact ⟨stop, (List.mem_filter.1 ht).1⟩

/-- What is left is what was there, in its order. -/
theorem leftWheels_sublist (w : TimerWheel Cb) (stop : SlotPos) (now : ℕ) (pos : SlotPos) :
    (w.leftWheels stop now pos).Sublist (w.wheels pos) := by
  unfold leftWheels
  split_ifs with hpassed hstop
  · exact List.nil_sublist _
  · exact hstop ▸ List.filter_sublist
  · exact List.Sublist.refl _

/-- The hands are the digits of the position. -/
theorem hand_eq_digit {w : TimerWheel Cb} (hd : IsDigits kWheelSlotCount w.hands)
    (wheelIdx : ℕ) : w.hands.getD wheelIdx 0 = digit kWheelSlotCount w.position wheelIdx :=
  getD_eq_digit hd wheelIdx

/-- Where a timer due at `d` stands once the hands have moved to `here`: its slot
has been passed and it is late, or it is where the hands stop, or it lies ahead
and its slot is still the right one. -/
theorem SlotFor.after_move {w : TimerWheel Cb} (hd : IsDigits kWheelSlotCount w.hands)
    {here d : ℕ} {stop pos : SlotPos} (hslot : SlotFor w.position d pos)
    (hstop : SlotFor w.position here stop) (hpd : w.position ≤ d) :
    (pos ∈ w.passed stop → d < here) ∧
    (pos ∉ w.passed stop → pos ≠ stop → here < d ∧ SlotFor here d pos) := by
  rcases hslot.1.trichotomy hstop.1 with ⟨hpass, hkeep⟩
  have hdl := hslot.1.digit_le hpd
  rw [mem_passed, hand_eq_digit hd]
  refine ⟨fun h => hpass ?_, fun hnp hne => ?_⟩
  · rcases h with ⟨h, -⟩ | ⟨h, -, hlt⟩
    · exact .inl h
    · rw [hslot.2, hstop.2, h] at hlt
      exact .inr ⟨h, by rwa [h]⟩
  · -- what is neither passed nor the stop lies behind it, in its wheel or in a higher one
    have hwhere : stop.1 < pos.1 ∨ (pos.1 = stop.1 ∧ stop.2 < pos.2) := by
      rcases Nat.lt_trichotomy pos.1 stop.1 with h | h | h
      · exact absurd (.inl ⟨h, hslot.slot_lt⟩) hnp
      · rcases Nat.lt_trichotomy pos.2 stop.2 with h' | h' | h'
        · rw [← hslot.2, h] at hdl
          exact absurd (.inr ⟨h, hdl, h'⟩) hnp
        · exact absurd (Prod.ext h h') hne
        · exact .inr ⟨h, h'⟩
      · exact .inl h
    obtain ⟨hlt, hlead⟩ := hkeep (by
      rcases hwhere with h | ⟨h, h'⟩
      · exact .inl h
      · rw [hslot.2, hstop.2, ← h] at h'
        exact .inr ⟨h, h'⟩)
    exact ⟨hlt, hlead, hslot.2⟩

section HandOut

variable {w : TimerWheel Cb} (hl : Linked w.wheels w.timers)

include hl

/-- A timer fires if its slot is passed, or is the stop and it is due. -/
theorem Linked.mem_fired {stop : SlotPos} {now : ℕ} {t : Timer Cb} {pos : SlotPos}
    (ht : t ∈ w.wheels pos) :
    t ∈ w.fired stop now ↔ pos ∈ w.passed stop ∨ (pos = stop ∧ t.expireTime ≤ now) := by
  simp only [fired, List.mem_append, List.mem_flatMap, List.mem_filter, decide_eq_true_eq]
  constructor
  · rintro (⟨pos', hpassed, ht'⟩ | ⟨ht', hdue⟩)
    · exact .inl (hl.unique pos pos' t ht ht' ▸ hpassed)
    · exact .inr ⟨hl.unique pos stop t ht ht', hdue⟩
  · rintro (hpassed | ⟨rfl, hdue⟩)
    · exact .inl ⟨pos, hpassed, ht⟩
    · exact .inr ⟨ht, hdue⟩

/-- Each timer is handed out once. -/
theorem Linked.fired_nodup (stop : SlotPos) (now : ℕ) : (w.fired stop now).Nodup := by
  refine List.Nodup.append ?_ ((hl.nodup stop).filter _) ?_
  · refine List.nodup_flatMap.2 ⟨fun pos _ => hl.nodup pos, ?_⟩
    refine (w.passed_nodup stop).imp fun {p q} hpq t hp hq => ?_
    exact hpq (hl.unique p q t hp hq)
  · intro t hpassed hstop
    rcases List.mem_flatMap.1 hpassed with ⟨pos, hpos, ht⟩
    have := hl.unique pos stop t ht (List.mem_filter.1 hstop).1
    exact stop_not_passed (this ▸ hpos)

/-- No timer fires twice. -/
theorem Linked.fired_ids_nodup (stop : SlotPos) (now : ℕ) :
    ((w.fired stop now).map Timer.id).Nodup := by
  refine (hl.fired_nodup stop now).map_on fun t ht u hu h => ?_
  rcases fired_sub ht with ⟨p, hp⟩
  rcases fired_sub hu with ⟨q, hq⟩
  exact eq_of_id_eq hl.ids (hl.mem p t hp) (hl.mem q u hq) h

/-- A timer is handed out when a timer of its id is. -/
theorem Linked.mem_fired_ids {stop : SlotPos} {now : ℕ} {t : Timer Cb} (ht : t ∈ w.timers) :
    t.id ∈ (w.fired stop now).map Timer.id ↔ t ∈ w.fired stop now := by
  refine ⟨fun h => ?_, List.mem_map_of_mem⟩
  rcases List.mem_map.1 h with ⟨u, hu, hid⟩
  rcases fired_sub hu with ⟨pos, hpos⟩
  exact eq_of_id_eq hl.ids (hl.mem pos u hpos) ht hid ▸ hu

/-- What does not fire is left. -/
theorem Linked.mem_leftWheels {stop : SlotPos} {now : ℕ} {t : Timer Cb} {pos : SlotPos} :
    t ∈ w.leftWheels stop now pos ↔ t ∈ w.wheels pos ∧ t ∉ w.fired stop now := by
  by_cases ht : t ∈ w.wheels pos
  · rw [hl.mem_fired ht, leftWheels]
    split_ifs with hpassed hstop
    · simp [hpassed]
    · subst hstop
      simp [ht, hpassed]
    · simp [ht, hpassed, hstop]
  · refine ⟨fun h => absurd ?_ ht, fun h => absurd h.1 ht⟩
    unfold leftWheels at h
    split_ifs at h with hpassed hstop
    · simp at h
    · exact hstop ▸ (List.mem_filter.1 h).1
    · exact h

/-- The slots and `timers_` still agree when the timers are handed out. -/
theorem Linked.linked_handedOut (found : FoundPos) (now : ℕ) :
    Linked (w.handedOut found now).wheels (w.handedOut found now).timers := by
  refine hl.restrict (·.id ∉ (w.fired found.pos now).map Timer.id)
    (w.leftWheels_sublist found.pos now) fun pos t => ?_
  show t ∈ w.leftWheels found.pos now pos ↔ _
  rw [hl.mem_leftWheels]
  refine and_congr_right fun ht => ?_
  rw [hl.mem_fired_ids (hl.mem pos t ht)]

/-- The loops of `Step` that collect timers, in closed form. -/
theorem Linked.collect_eq (stop : SlotPos) (now : ℕ) :
    moveDue now w.timers
        ((((spliceAll (w.passed stop) w.wheels []).1 stop)).map Timer.id)
        (spliceAll (w.passed stop) w.wheels []).1 (spliceAll (w.passed stop) w.wheels []).2 =
      .ok (w.leftWheels stop now, w.fired stop now) := by
  rw [spliceAll_spec (w.passed_nodup stop)]
  simp only [stop_not_passed, if_false, List.nil_append]
  rw [moveDue_spec fun t ht => findTimer_of_mem hl.ids (hl.mem stop t ht)]
  refine congrArg Except.ok (Prod.ext (funext fun pos => ?_) rfl)
  simp only [leftWheels]
  split_ifs with hpassed hstop
  · rfl
  · subst hstop
    refine List.filter_congr fun t ht => ?_
    have : t.id ∈ ((w.wheels pos).filter (·.expireTime ≤ now)).map Timer.id ↔
        t.expireTime ≤ now := by
      refine ⟨fun h => ?_, fun h => List.mem_map_of_mem (List.mem_filter.2 ⟨ht, by simpa⟩)⟩
      rcases List.mem_map.1 h with ⟨u, hu, hid⟩
      rcases List.mem_filter.1 hu with ⟨hu, hdue⟩
      rw [← eq_of_id_eq hl.ids (hl.mem pos u hu) (hl.mem pos t ht) hid]
      simpa using hdue
    simp [this]
  · refine List.filter_eq_self.2 fun t ht => ?_
    -- a timer of another slot has another id
    have : t.id ∉ ((w.wheels stop).filter (·.expireTime ≤ now)).map Timer.id := by
      intro h
      rcases List.mem_map.1 h with ⟨u, hu, hid⟩
      have hu := (List.mem_filter.1 hu).1
      obtain rfl := eq_of_id_eq hl.ids (hl.mem stop u hu) (hl.mem pos t ht) hid
      exact hstop (hl.unique pos stop u ht hu)
    simpa using this

/-- `Step` without an overflow: the timers are handed out, then the rest of the
slot where the hands stop is placed again. -/
theorem Linked.step_eq {now : ℕ} {callbacks : List Cb} {found : FoundPos}
    (hfound : w.findPos (w.intervalTo now) = .ok found) (ho : found.overflow = false)
    (hhand : w.hands.getD found.pos.1 0 ≤ found.pos.2) :
    w.step now callbacks =
      adjust now ((w.wheels found.pos).filter (now < ·.expireTime)) (w.handedOut found now)
        >>= fun w' => .ok ({ w' with lastExpireTime := now },
          callbacks ++ (w.fired found.pos now).map Timer.cb) := by
  have hcollect := hl.collect_eq found.pos now
  -- the stop is no passed slot, so only what is due leaves it
  have hstop : w.leftWheels found.pos now found.pos =
      (w.wheels found.pos).filter (now < ·.expireTime) := by
    simp [leftWheels, stop_not_passed]
  have herase := eraseTimers_spec hl.ids (hl.fired_ids_nodup found.pos now) fun t ht =>
    let ⟨pos, hpos⟩ := fired_sub ht
    hl.mem pos t hpos
  rw [passed, spliceAll_append] at hcollect
  unfold step
  simp only [hfound, ok_bind, ho, Bool.false_eq_true, if_false, check_true hhand, hcollect,
    switchHands, herase, hstop]
  rfl

end HandOut

/-! ## The timers placed again -/

/-- The last loop of `Step` puts every timer of `rest` where a new timer with its
expire time would go. -/
theorem adjust_spec (due : Timer Cb → ℕ → Prop) (now : ℕ) (rest : List (Timer Cb))
    (w : TimerWheel Cb) (hd : IsDigits kWheelSlotCount w.hands) (hl : Linked w.wheels w.timers)
    (hrest : ∀ t ∈ rest, t ∈ w.timers ∧ now < t.expireTime ∧
      w.position + (t.expireTime - now) < 2 ^ 31 ∧ due t (w.position + (t.expireTime - now)))
    (hw : ∀ pos, ∀ t ∈ w.wheels pos, t ∈ rest ∨
      ∃ d, due t d ∧ w.position ≤ d ∧ d < 2 ^ 31 ∧ SlotFor w.position d pos) :
    ∃ wheels, adjust now rest w = .ok { w with wheels } ∧ Linked wheels w.timers ∧
      Waits due w.position wheels := by
  induction rest generalizing w with
  | nil => exact ⟨w.wheels, rfl, hl, fun pos t ht => (hw pos t ht).resolve_left (by simp)⟩
  | cons t rest ih =>
    rcases hrest t (by simp) with ⟨ht, hnow, hlt, hdue⟩
    rcases hl.linked t ht with ⟨pos, hpos⟩
    rcases findPos_of_lt hd hlt with ⟨found, hfound, ho⟩
    rcases findPos_spec hd hfound ho with ⟨-, -, -, hslot⟩
    rw [Int.toNat_natCast] at hslot
    have hl' : Linked (pushBack (unlink w.wheels t.id) found.pos t) w.timers :=
      hl.move ht hslot.mem_slots
    obtain ⟨wheels, hadjust, hlinked, hwaits⟩ := ih
      { w with wheels := pushBack (unlink w.wheels t.id) found.pos t } hd hl'
      (fun u hu => hrest u (by simp [hu])) (by
        intro pos' u hu
        rcases mem_pushBack.1 hu with hu | ⟨rfl, rfl⟩
        · -- a timer that is not moved in this turn
          rcases mem_unlink.1 hu with ⟨hold, hne⟩
          refine (hw pos' u hold).imp_left fun h => ?_
          rcases List.mem_cons.1 h with rfl | h
          · exact absurd rfl hne
          · exact h
        · exact .inr ⟨_, hdue, Nat.le_add_right _ _, hlt, hslot⟩)
    refine ⟨wheels, ?_, hlinked, hwaits⟩
    have hint : toInt (t.expireTime - now : ℕ) = ((t.expireTime - now : ℕ) : ℤ) :=
      toInt_of_lt (by omega)
    rw [adjust, check_true hnow, check_true (isLinked_of_mem (hl.slot pos t hpos) hpos), hint,
      ok_bind, ok_bind, hfound, ok_bind]
    exact hadjust

/-- The last loop of `Step`, behind the hand-out: the timers that are left stand at positions
that `due'` allows. -/
theorem adjust_handedOut {due due' : Timer Cb → ℕ → Prop} {w : TimerWheel Cb} {now here : ℕ}
    {found : FoundPos} (hd : IsDigits kWheelSlotCount w.hands) (hl : Linked w.wheels w.timers)
    (hw : Waits due w.position w.wheels) (hstop : SlotFor w.position here found.pos)
    (hdigits : IsDigits kWheelSlotCount (w.handedOut found now).hands)
    (hposition : (w.handedOut found now).position = here)
    (hahead : ∀ t d, due t d → here < d → due' t d)
    (hagain : ∀ t ∈ w.wheels found.pos, ∀ d, due t d → d < 2 ^ 31 → now < t.expireTime →
      here + (t.expireTime - now) < 2 ^ 31 ∧ due' t (here + (t.expireTime - now))) :
    ∃ wheels, adjust now ((w.wheels found.pos).filter (now < ·.expireTime))
        (w.handedOut found now) = .ok { w.handedOut found now with wheels } ∧
      Linked wheels (w.handedOut found now).timers ∧ Waits due' here wheels := by
  obtain ⟨wheels, hadjust, hlinked, hwaits⟩ := adjust_spec due' now
    ((w.wheels found.pos).filter (now < ·.expireTime)) (w.handedOut found now) hdigits
    (hl.linked_handedOut found now)
    (by
      intro t ht
      rcases List.mem_filter.1 ht with ⟨ht, hnow⟩
      have hnow : now < t.expireTime := by simpa using hnow
      rcases hw found.pos t ht with ⟨d, hdue, -, hdlt, -⟩
      have hnot : t ∉ w.fired found.pos now := by
        rw [hl.mem_fired ht]
        simp [stop_not_passed, hnow]
      rw [hposition]
      refine ⟨List.mem_filter.2 ⟨hl.mem _ t ht, ?_⟩, hnow, hagain t ht d hdue hdlt hnow⟩
      simpa [hl.mem_fired_ids (hl.mem _ t ht)] using hnot)
    (by
      intro pos t ht
      rcases hl.mem_leftWheels.1 ht with ⟨hold, hnot⟩
      rw [hl.mem_fired hold, not_or] at hnot
      rcases hw pos t hold with ⟨d, hdue, hpd, hdlt, hslot⟩
      by_cases hpos : pos = found.pos
      · -- the slot where the hands stop is placed again
        subst hpos
        exact .inl (List.mem_filter.2 ⟨hold, by simpa using hnot.2⟩)
      · rcases (hslot.after_move hd hstop hpd).2 hnot.1 hpos with ⟨hahead', hslot'⟩
        rw [hposition]
        exact .inr ⟨d, hahead t d hdue hahead', hahead'.le, hdlt, hslot'⟩)
  exact ⟨wheels, hadjust, hlinked, hposition ▸ hwaits⟩

/-! ## One step -/

/-- A timer that is handed out has been passed, or has expired where the hands stop. -/
theorem Linked.fired_due {due : Timer Cb → ℕ → Prop} {w : TimerWheel Cb} {now here : ℕ}
    {stop : SlotPos} (hl : Linked w.wheels w.timers) (hd : IsDigits kWheelSlotCount w.hands)
    (hw : Waits due w.position w.wheels) (hstop : SlotFor w.position here stop) {t : Timer Cb}
    (ht : t ∈ w.fired stop now) :
    ∃ pos d, t ∈ w.wheels pos ∧ due t d ∧ SlotFor w.position d pos ∧
      (d < here ∨ (SlotFor w.position here pos ∧ t.expireTime ≤ now)) := by
  rcases fired_sub ht with ⟨pos, hpos⟩
  rcases hw pos t hpos with ⟨d, hdue, hpd, -, hslot⟩
  refine ⟨pos, d, hpos, hdue, hslot, ?_⟩
  rcases (hl.mem_fired hpos).1 ht with hpassed | ⟨rfl, hexpired⟩
  · exact .inl ((hslot.after_move hd hstop hpd).1 hpassed)
  · exact .inr ⟨hstop, hexpired⟩

/-- A timer that is kept lies ahead, or has not expired. -/
theorem Linked.kept_due {due : Timer Cb → ℕ → Prop} {w : TimerWheel Cb} {now here : ℕ}
    {stop : SlotPos} (hl : Linked w.wheels w.timers) (hd : IsDigits kWheelSlotCount w.hands)
    (hw : Waits due w.position w.wheels) (hstop : SlotFor w.position here stop) {t : Timer Cb}
    (ht : t ∈ w.timers) (hnot : t ∉ w.fired stop now) :
    ∃ d, due t d ∧ (here < d ∨ now < t.expireTime) := by
  rcases hl.linked t ht with ⟨pos, hpos⟩
  rcases hw pos t hpos with ⟨d, hdue, hpd, -, hslot⟩
  rw [hl.mem_fired hpos, not_or] at hnot
  refine ⟨d, hdue, ?_⟩
  by_cases hstopped : pos = stop
  · exact .inr (by simpa [hstopped] using hnot.2)
  · exact .inl ((hslot.after_move hd hstop hpd).2 hnot.1 hstopped).1

/-- What a `Step(now)` that moves the hands to `here` does to a wheel whose timers
stand at positions that `due` allows: `fired` is handed out, and the timers left
stand at positions that `due'` allows. -/
structure Stepped (due due' : Timer Cb → ℕ → Prop) (w w' : TimerWheel Cb) (here : ℕ)
    (now : ℕ) (fired : List (Timer Cb)) : Prop where
  nodup : fired.Nodup
  /-- what is handed out was pending -/
  fired_sub : ∀ t ∈ fired, t ∈ w.timers
  /-- a timer that is handed out has been passed, or has expired where the hands stop -/
  fired_due : ∀ t ∈ fired, ∃ pos d, t ∈ w.wheels pos ∧ due t d ∧ SlotFor w.position d pos ∧
    (d < here ∨ (SlotFor w.position here pos ∧ t.expireTime ≤ now))
  /-- a timer that is kept lies ahead, or has not expired -/
  kept_due : ∀ t ∈ w.timers, t ∉ fired → ∃ d, due t d ∧ (here < d ∨ now < t.expireTime)
  /-- and is no longer -/
  timers : w'.timers = w.timers.filter (·.id ∉ fired.map Timer.id)
  linked : Linked w'.wheels w'.timers
  digits : IsDigits kWheelSlotCount w'.hands
  /-- the hands stand where they stopped -/
  position : w'.position = here
  /-- what is left stands where it may -/
  waits : Waits due' here w'.wheels
  lastExpireTime : w'.lastExpireTime = now
  lastTimerId : w'.lastTimerId = w.lastTimerId
  /-- the queue has lost what has expired by the clock -/
  queue : w'.expireTimeQueue = w.expireTimeQueue.dropWhile (· ≤ now)

/-- What `Step` does, when the hands have room to move, with the slot where they stop and the
wheel that the last loop leaves. -/
theorem step_stops (due due' : Timer Cb → ℕ → Prop) {w : TimerWheel Cb} {now : ℕ} {n : ℕ}
    (hd : IsDigits kWheelSlotCount w.hands) (hl : Linked w.wheels w.timers)
    (hw : Waits due w.position w.wheels) (hn : w.intervalTo now = n)
    (hlt : w.position + n < 2 ^ 31)
    (hahead : ∀ t d, due t d → w.position + n < d → due' t d)
    (hagain : ∀ pos, SlotFor w.position (w.position + n) pos → ∀ t ∈ w.wheels pos, ∀ d,
      due t d → d < 2 ^ 31 → now < t.expireTime →
      w.position + n + (t.expireTime - now) < 2 ^ 31 ∧
      due' t (w.position + n + (t.expireTime - now)))
    (callbacks : List Cb) :
    ∃ found v, w.findPos (w.intervalTo now) = .ok found ∧
      adjust now ((w.wheels found.pos).filter (now < ·.expireTime)) (w.handedOut found now) =
        .ok v ∧
      w.step now callbacks = .ok ({ v with lastExpireTime := now },
        callbacks ++ (w.fired found.pos now).map Timer.cb) ∧
      Stepped due due' w { v with lastExpireTime := now } (w.position + n) now
        (w.fired found.pos now) := by
  rcases findPos_of_lt hd hlt with ⟨found, hfound, ho⟩
  rcases findPos_spec hd hfound ho with ⟨-, hdigits, hvalue, hstop⟩
  rw [Int.toNat_natCast] at hvalue hstop
  -- the assertion of the source: within the stop's wheel the hand only goes forward
  have hle : w.hands.getD found.pos.1 0 ≤ found.pos.2 := by
    rw [hand_eq_digit hd, hstop.2]
    exact hstop.1.digit_le (Nat.le_add_right _ _)
  have hposition : (w.handedOut found now).position = w.position + n := hvalue
  rcases adjust_handedOut hd hl hw hstop hdigits hposition hahead (hagain _ hstop) with
    ⟨wheels, hadjust, hlinked, hwaits⟩
  refine ⟨found, _, hn ▸ hfound, hadjust,
    by rw [hl.step_eq (hn ▸ hfound) ho hle, hadjust, ok_bind], ?_⟩
  constructor
  · exact hl.fired_nodup found.pos now
  · intro t ht
    rcases fired_sub ht with ⟨pos, hpos⟩
    exact hl.mem pos t hpos
  · intro t ht
    exact hl.fired_due hd hw hstop ht
  · intro t ht hnot
    exact hl.kept_due hd hw hstop ht hnot
  · rfl
  · exact hlinked
  · exact hdigits
  · exact hposition
  · exact hposition ▸ hwaits
  · rfl
  · rfl
  · rfl

/-- What `Step` does, when the hands have room to move. -/
theorem step_spec (due due' : Timer Cb → ℕ → Prop) {w : TimerWheel Cb} {now : ℕ} {n : ℕ}
    (hd : IsDigits kWheelSlotCount w.hands) (hl : Linked w.wheels w.timers)
    (hw : Waits due w.position w.wheels) (hn : w.intervalTo now = n)
    (hlt : w.position + n < 2 ^ 31)
    (hahead : ∀ t d, due t d → w.position + n < d → due' t d)
    (hagain : ∀ pos, SlotFor w.position (w.position + n) pos → ∀ t ∈ w.wheels pos, ∀ d,
      due t d → d < 2 ^ 31 → now < t.expireTime →
      w.position + n + (t.expireTime - now) < 2 ^ 31 ∧
      due' t (w.position + n + (t.expireTime - now)))
    (callbacks : List Cb) :
    ∃ w' fired, w.step now callbacks = .ok (w', callbacks ++ fired.map Timer.cb) ∧
      Stepped due due' w w' (w.position + n) now fired := by
  rcases step_stops due due' hd hl hw hn hlt hahead hagain callbacks with ⟨found, v, -, -, hok, hs⟩
  exact ⟨{ v with lastExpireTime := now }, w.fired found.pos now, hok, hs⟩

end FxServer.TimerWheel
