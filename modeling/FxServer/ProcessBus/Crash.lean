import FxServer.ProcessBus.Attach

/-!
# FxServer.ProcessBus.Crash — a process dies within a call

`crash r op n` is the ring, and the point the call has reached, when the process dies after
`n` accesses. A `TryRecover` finds what has been stored till then. The messages in the ring
change with one store, of the back or of the front; the number of elements is stored behind it.

The positions of a call tell which of its stores have been made. `PushAlone` and `PopAlone` say
for each position what the ring stores and what the number of elements lacks, one access keeps
them, and a crash is a run of accesses that ends anywhere.

* `crash_alone`, `Alone.stored` — at each point the ring stores the messages from before or from
  behind the call, and the number lacks what is owed.
* `recovers_iff` — what is recovered is consistent just when nothing is owed, and no length
  wraps.
* `crash_before_count` — a `Push` dies before it counts its message.
-/

namespace FxServer

namespace RingBuffer

open Machine Cyclic

/-! ## Histories -/

/-- What goes into the ring has room with its length, and no length is met that wraps. -/
def Fits (r : RingBuffer) : Fifo.Op (List UInt8) → Prop
  | .push buf => (buf.length : ℤ) ≤ r.spaceLeft → MessageFits r buf.length
  | .pop => r.empty = false → r.frontOffset + 4 ≤ r.size

instance (r : RingBuffer) : DecidablePred (Fits r)
  | .push buf => inferInstanceAs (Decidable ((buf.length : ℤ) ≤ r.spaceLeft →
      MessageFits r buf.length))
  | .pop => inferInstanceAs (Decidable (r.empty = false → r.frontOffset + 4 ≤ r.size))

/-- A whole call within the history condition keeps the ring and its messages together. -/
theorem apply_holds {r r' : RingBuffer} {ms : List (List UInt8)} {op : Fifo.Op (List UInt8)}
    {out : Fifo.Out (List UInt8)} (h : Holds r ms) (hfits : Fits r op)
    (hok : apply r op = .ok (r', out)) : Holds r' (Fifo.after ms op out) := by
  cases op with
  | push buf =>
    rcases bind_ok.1 hok with ⟨⟨r₁, accepted⟩, hpush, hret⟩
    rcases Prod.mk.inj (Except.ok.inj hret) with ⟨rfl, rfl⟩
    rcases bind_ok.1 hpush with ⟨_, hpos, hspace⟩
    split at hspace
    · rcases Prod.mk.inj (Except.ok.inj hspace) with ⟨rfl, rfl⟩
      -- the ring refused the message
      exact h
    · rename_i hroom
      have hspace : (buf.length : ℤ) ≤ r.spaceLeft := by omega
      rcases h.push_of_room (check_ok.1 hpos) (hfits hspace).1
        (h.stores.room_of_fits (hfits hspace)) hspace with ⟨r₂, hpush', h'⟩
      rcases Prod.mk.inj (Except.ok.inj (hpush.symm.trans hpush')) with ⟨rfl, rfl⟩
      exact h'
  | pop =>
    rcases bind_ok.1 hok with ⟨⟨r₁, res⟩, hpop, hret⟩
    rcases Prod.mk.inj (Except.ok.inj hret) with ⟨rfl, rfl⟩
    cases ms with
    | nil =>
      -- nothing to read, and nothing changes
      rw [pop, if_pos (h.stores.empty_iff.2 rfl)] at hpop
      rcases Prod.mk.inj (Except.ok.inj hpop) with ⟨rfl, rfl⟩
      exact h
    | cons m ms =>
      have hne : r.empty = false := by
        rw [← Bool.not_eq_true, h.stores.empty_iff]
        simp
      rcases h.pop with ⟨r₂, hpop', h'⟩
      rcases Prod.mk.inj (Except.ok.inj (hpop.symm.trans hpop')) with ⟨rfl, rfl⟩
      -- the count was not 0, so it does not wrap
      exact h' (hfits hne)

/-- The ring holds what has been accepted and not been taken. -/
theorem run_holds {r r' : RingBuffer} {ms : List (List UInt8)}
    {ops : List (Fifo.Op (List UInt8))} {outs : List (Fifo.Out (List UInt8))} (h : Holds r ms)
    (hguard : Guarded apply Fits r ops) (hrun : run apply r ops = .ok (r', outs)) :
    Holds r' (Fifo.afterAll ms ops outs) := by
  induction ops generalizing r ms outs with
  | nil =>
    cases hrun
    exact h
  | cons op ops ih =>
    rcases run_cons_inv hrun with ⟨r₁, out, outs, hop, hrest, rfl⟩
    exact ih (apply_holds h hguard.1 hop) (hguard.2 r₁ out hop) hrest

/-! ## A call that is interrupted -/

/-- Where a process is. -/
inductive Pc where
  | push (pc : PushPc)
  | pop (pc : PopPc)
deriving DecidableEq, Repr

/-- The next access. -/
def microStep (r : RingBuffer) : Pc → Except Fault (RingBuffer × Pc)
  | .push pc => do
    let (r, pc, _) ← pushStep r pc
    .ok (r, .push pc)
  | .pop pc => do
    let (r, pc, _) ← popStep r pc
    .ok (r, .pop pc)

/-- Any number of accesses of one call. -/
def microSteps (r : RingBuffer) (pc : Pc) : ℕ → Except Fault (RingBuffer × Pc)
  | 0 => .ok (r, pc)
  | n + 1 => do
    let (r, pc) ← microStep r pc
    microSteps r pc n

/-- The ring when the process dies after `n` accesses of a call. -/
def crash (r : RingBuffer) (op : Fifo.Op (List UInt8)) (n : ℕ) :
    Except Fault (RingBuffer × Pc) :=
  match op with
  | .push buf => do
    check (0 < buf.length)
    microSteps r (.push (.spaceFront buf)) n
  | .pop => microSteps r (.pop .emptyFront) n

/-- Whether the store is made that adds or removes the message. -/
def PushPc.landed : PushPc → Bool
  | .readSize | .setSize _ | .idle => true
  | _ => false

def PopPc.landed : PopPc → Bool
  | .readSize _ | .setSize _ _ | .idle => true
  | _ => false

def Pc.landed : Pc → Bool
  | .push pc => pc.landed
  | .pop pc => pc.landed

/-- What the number of elements lacks at this point of a call. -/
def Pc.owes : Pc → ℕ
  | .push pc => pc.owes
  | .pop pc => pc.owes

/-- The messages behind the call, with `ms` in the ring before it. -/
def afterCall (r : RingBuffer) (ms : List (List UInt8)) :
    Fifo.Op (List UInt8) → List (List UInt8)
  | .push buf => if r.spaceLeft < buf.length then ms else ms ++ [buf]
  | .pop => ms.tail

/-- A `Push` of `buf` on its own, between the messages `before` and `after`. -/
structure PushAlone (before after : List (List UInt8)) (buf : List UInt8) (r : RingBuffer)
    (pc : PushPc) : Prop where
  /-- the message is in the ring from the store of the back on -/
  stores : Stores r (if pc.landed then after else before)
  /-- what the call has read is what it needs -/
  knows : pc.Knows r (if pc.landed then after else before) buf
  /-- the count lacks the message between the two stores -/
  count : r.elementSize + pc.owes = (if pc.landed then after else before).length
  alone : match pc with
    | .spaceFront _ => Fits r (.push buf) ∧ after = afterCall r before (.push buf)
    | .spaceBack _ front =>
      front = r.frontOffset ∧ Fits r (.push buf) ∧ after = afterCall r before (.push buf)
    | .setSize size => size = r.elementSize ∧ after = before ++ [buf]
    | .idle => True
    | _ => after = before ++ [buf]

/-- A step of a `Push` that runs alone leaves what its next position says. -/
theorem PushAlone.step {before after : List (List UInt8)} {buf : List UInt8} {r r' : RingBuffer}
    {pc pc' : PushPc} {res : Option Bool} (h : PushAlone before after buf r pc)
    (hok : pushStep r pc = .ok (r', pc', res)) :
    PushAlone before after buf r' pc' ∧ r'.size = r.size := by
  have hfits : Shared.PushFits r pc := by
    cases pc with
    | spaceBack buf' front =>
      rcases h.alone with ⟨rfl, hfits, -⟩
      rcases h.knows with ⟨rfl, -⟩
      exact hfits
    | _ => trivial
  have hcounts : Shared.PushCounts r pc := by
    cases pc with
    | setSize size => exact h.alone.1
    | _ => trivial
  rcases pushStep_spec h.stores h.knows hfits hcounts hok with
    ⟨more, hmore, hstores, hknows, hsize, -, howes, -⟩
  refine ⟨?_, hsize⟩
  have halone := h.alone
  have hold := h.count
  -- but for the store of the back, the messages stay
  have hstay : pc'.owes = pc.owes → res = none → pc'.landed = pc.landed →
      Stores r' (if pc'.landed then after else before) ∧
        pc'.Knows r' (if pc'.landed then after else before) buf := by
    intro hsame hres hlanded
    rw [hsame, hres, if_neg (by decide)] at howes
    obtain rfl : more = [] := List.eq_nil_of_length_eq_zero (by omega)
    rw [hlanded]
    rw [List.append_nil] at hstores hknows
    exact ⟨hstores, hknows⟩
  cases pc with
  | idle =>
    cases hok
    exact h
  | spaceFront buf' =>
    cases hok
    rcases hstay rfl rfl rfl with ⟨hs, hk⟩
    exact ⟨hs, hk, h.count, rfl, halone⟩
  | spaceBack buf' front =>
    rcases halone with ⟨rfl, -, hafter⟩
    rcases h.knows with ⟨rfl, -⟩
    have hsame : r.setFront r.frontOffset = r := rfl
    rw [pushStep, hsame] at hok
    rw [afterCall] at hafter
    split at hok
    · -- refused
      rename_i hfull
      rw [if_pos hfull] at hafter
      cases hok
      rw [hafter]
      exact ⟨h.stores, trivial, hold, trivial⟩
    · rename_i hroom
      rw [if_neg hroom] at hafter
      cases hok
      rcases hstay rfl rfl rfl with ⟨hs, hk⟩
      exact ⟨hs, hk, hold, hafter⟩
  | writeFront buf' =>
    cases hok
    rcases hstay rfl rfl rfl with ⟨hs, hk⟩
    exact ⟨hs, hk, hold, halone⟩
  | writeBack buf' =>
    rcases bind_ok.1 hok with ⟨_, -, hok⟩
    cases hok
    rcases hstay rfl rfl rfl with ⟨hs, hk⟩
    exact ⟨hs, hk, hold, halone⟩
  | copying copies back =>
    cases copies with
    | nil =>
      -- the store of the back
      cases hok
      have hafter : after = before ++ [buf] := halone
      have hold : r.elementSize = before.length := hold
      rcases hmore with rfl | rfl
      · cases howes
      · refine ⟨hafter ▸ hstores, trivial, ?_, hafter⟩
        show r.elementSize + 1 = after.length
        rw [hafter, List.length_append, hold]
        rfl
    | cons copy copies =>
      rcases copy with ⟨dst, bytes⟩
      rcases bind_ok.1 hok with ⟨r₁, hcopy, hok⟩
      cases hok
      rcases hstay rfl rfl rfl with ⟨hs, hk⟩
      obtain rfl := copyIn_eq hcopy
      exact ⟨hs, hk, hold, halone⟩
  | readSize =>
    cases hok
    rcases hstay rfl rfl rfl with ⟨hs, hk⟩
    exact ⟨hs, hk, hold, rfl, halone⟩
  | setSize size =>
    rcases halone with ⟨rfl, hafter⟩
    cases hok
    refine ⟨h.stores.setSize _, trivial, ?_, trivial⟩
    have hlt := h.stores.length_lt
    have hlt : after.length < 2 ^ 61 := hlt
    have hold : r.elementSize + 1 = after.length := hold
    show (1 + r.elementSize) % 2 ^ 64 + 0 = after.length
    omega

/-- A `Pop` on its own, with the messages `before`. -/
structure PopAlone (before : List (List UInt8)) (r : RingBuffer) (pc : PopPc) : Prop where
  /-- the message is gone from the store of the front on -/
  stores : Stores r (if pc.landed then before.tail else before)
  /-- what the call has read is what it needs -/
  knows : pc.Knows r (if pc.landed then before.tail else before)
  /-- the count still has the message between the two stores -/
  count : r.elementSize = (if pc.landed then before.tail else before).length + pc.owes
  alone : match pc with
    | .emptyFront | .emptyBack _ => Fits r .pop
    | .readSize _ => before ≠ []
    | .setSize _ size => size = r.elementSize ∧ before ≠ []
    | _ => True

/-- A step of a `Pop` that runs alone leaves what its next position says. -/
theorem PopAlone.step {before : List (List UInt8)} {r r' : RingBuffer} {pc pc' : PopPc}
    {res : Option (Option (List UInt8))} (h : PopAlone before r pc)
    (hok : popStep r pc = .ok (r', pc', res)) : PopAlone before r' pc' ∧ r'.size = r.size := by
  have hfits : Shared.LengthFits r pc := by
    cases pc with
    | emptyBack front =>
      obtain rfl : front = r.frontOffset := h.knows
      intro hne
      exact h.alone (decide_eq_false hne)
    | _ => trivial
  have hcounts : Shared.PopCounts r pc := by
    cases pc with
    | setSize buf size => exact h.alone.1
    | _ => trivial
  rcases popStep_spec h.stores h.knows hfits hcounts hok with
    ⟨gone, ms', hgone, hstores, hknows, hsize, -, -, -, howes, hdone, hgoing⟩
  refine ⟨?_, hsize⟩
  have hold := h.count
  have halone := h.alone
  -- but for the store of the front, the messages stay
  have hstay : pc'.owes = pc.owes → res = none → pc'.landed = pc.landed →
      Stores r' (if pc'.landed then before.tail else before) ∧
        pc'.Knows r' (if pc'.landed then before.tail else before) ∧
        r'.elementSize = (if pc'.landed then before.tail else before).length + pc'.owes := by
    rintro hsame rfl hlanded
    have hcount := hgoing rfl
    rw [hsame] at howes
    obtain rfl : gone = [] := List.eq_nil_of_length_eq_zero (by simpa using howes)
    rw [hlanded, hgone, hsame, hcount, hold, hgone]
    exact ⟨hstores, hknows, rfl⟩
  cases pc with
  | idle =>
    cases hok
    exact h
  | emptyFront =>
    cases hok
    rcases hstay rfl rfl rfl with ⟨hs, hk, hc⟩
    exact ⟨hs, hk, hc, halone⟩
  | emptyBack front =>
    rw [popStep] at hok
    split at hok
    · -- empty
      rename_i hempty
      cases hok
      obtain rfl : front = r.frontOffset := h.knows
      have hnil : before = [] := h.stores.empty_iff.1 (decide_eq_true hempty)
      subst hnil
      exact ⟨h.stores, trivial, hold, trivial⟩
    · cases hok
      rcases hstay rfl rfl rfl with ⟨hs, hk, hc⟩
      exact ⟨hs, hk, hc, trivial⟩
  | readFront =>
    cases hok
    rcases hstay rfl rfl rfl with ⟨hs, hk, hc⟩
    exact ⟨hs, hk, hc, trivial⟩
  | readEmptyFront front =>
    cases hok
    rcases hstay rfl rfl rfl with ⟨hs, hk, hc⟩
    exact ⟨hs, hk, hc, trivial⟩
  | readEmptyBack front front' =>
    rw [popStep] at hok
    split at hok
    · rename_i hempty
      rcases h.knows with ⟨-, rfl, hhead⟩
      exact absurd (h.stores.empty_iff.1 (decide_eq_true hempty)) hhead.1
    · cases hok
      rcases hstay rfl rfl rfl with ⟨hs, hk, hc⟩
      exact ⟨hs, hk, hc, trivial⟩
  | lengthFront front =>
    cases hok
    rcases hstay rfl rfl rfl with ⟨hs, hk, hc⟩
    exact ⟨hs, hk, hc, trivial⟩
  | lengthEmptyFront front front' =>
    cases hok
    rcases hstay rfl rfl rfl with ⟨hs, hk, hc⟩
    exact ⟨hs, hk, hc, trivial⟩
  | lengthEmptyBack front front' front'' =>
    rcases bind_ok.1 hok with ⟨_, -, hok⟩
    cases hok
    rcases hstay rfl rfl rfl with ⟨hs, hk, hc⟩
    exact ⟨hs, hk, hc, trivial⟩
  | lengthCopying front copies len =>
    cases copies with
    | nil =>
      rcases bind_ok.1 hok with ⟨_, -, hok⟩
      rcases bind_ok.1 hok with ⟨_, -, hok⟩
      cases hok
      rcases hstay rfl rfl rfl with ⟨hs, hk, hc⟩
      exact ⟨hs, hk, hc, trivial⟩
    | cons copy copies =>
      rcases bind_ok.1 hok with ⟨bytes, -, hok⟩
      cases hok
      rcases hstay rfl rfl rfl with ⟨hs, hk, hc⟩
      exact ⟨hs, hk, hc, trivial⟩
  | copying copies buf front =>
    cases copies with
    | nil =>
      -- the store of the front
      cases hok
      have hcount := hgoing rfl
      have hgone : before = gone ++ ms' := hgone
      have howes : gone.length = 1 := howes
      rcases List.length_eq_one_iff.1 howes with ⟨m, rfl⟩
      subst hgone
      refine ⟨hstores, rfl, ?_, List.cons_ne_nil _ _⟩
      rw [hcount, hold]
      rfl
    | cons copy copies =>
      rcases bind_ok.1 hok with ⟨bytes, -, hok⟩
      cases hok
      rcases hstay rfl rfl rfl with ⟨hs, hk, hc⟩
      exact ⟨hs, hk, hc, trivial⟩
  | readSize buf =>
    cases hok
    rcases hstay rfl rfl rfl with ⟨hs, hk, hc⟩
    exact ⟨hs, hk, hc, rfl, halone⟩
  | setSize buf size =>
    rcases Option.isSome_iff_exists.1 h.knows with ⟨m, rfl⟩
    rcases Prod.mk.inj (Except.ok.inj hok) with ⟨rfl, hret⟩
    rcases Prod.mk.inj hret with ⟨rfl, rfl⟩
    rcases halone with ⟨rfl, -⟩
    refine ⟨h.stores.setSize _, trivial, ?_, trivial⟩
    have hlt : before.tail.length < 2 ^ 61 := h.stores.length_lt
    have hold : r.elementSize = before.tail.length + 1 := hold
    rw [setSize_elementSize]
    show _ = before.tail.length + 0
    omega

/-- A call on its own. -/
def Alone (before after : List (List UInt8)) (op : Fifo.Op (List UInt8)) (r : RingBuffer) :
    Pc → Prop
  | .push pc => ∃ buf, op = .push buf ∧ PushAlone before after buf r pc
  | .pop pc => op = .pop ∧ after = before.tail ∧ PopAlone before r pc

/-- Any number of steps of a call that runs alone leave what its position says. -/
theorem microSteps_alone {before after : List (List UInt8)} {op : Fifo.Op (List UInt8)}
    {r r' : RingBuffer} {pc pc' : Pc} {n : ℕ} (h : Alone before after op r pc)
    (hok : microSteps r pc n = .ok (r', pc')) :
    Alone before after op r' pc' ∧ r'.size = r.size := by
  induction n generalizing r pc with
  | zero =>
    rcases Prod.mk.inj (Except.ok.inj hok) with ⟨rfl, rfl⟩
    exact ⟨h, rfl⟩
  | succ n ih =>
    rcases bind_ok.1 hok with ⟨⟨r₁, pc₁⟩, hstep, hrest⟩
    -- one access, by the side that is running
    have hone : Alone before after op r₁ pc₁ ∧ r₁.size = r.size := by
      cases pc with
      | push pc =>
        rcases h with ⟨buf, hop, halone⟩
        rcases bind_ok.1 hstep with ⟨⟨r₂, pc₂, res⟩, haccess, hret⟩
        rcases Prod.mk.inj (Except.ok.inj hret) with ⟨rfl, rfl⟩
        rcases halone.step haccess with ⟨halone', hsize⟩
        exact ⟨⟨buf, hop, halone'⟩, hsize⟩
      | pop pc =>
        rcases h with ⟨hop, hafter, halone⟩
        rcases bind_ok.1 hstep with ⟨⟨r₂, pc₂, res⟩, haccess, hret⟩
        rcases Prod.mk.inj (Except.ok.inj hret) with ⟨rfl, rfl⟩
        rcases halone.step haccess with ⟨halone', hsize⟩
        exact ⟨⟨hop, hafter, halone'⟩, hsize⟩
    rcases ih hone.1 hrest with ⟨hlater, hsize⟩
    exact ⟨hlater, hsize.trans hone.2⟩

/-- So a crash leaves the ring as the position of the call says. -/
theorem crash_alone {before : List (List UInt8)} {op : Fifo.Op (List UInt8)}
    {r r' : RingBuffer} {pc : Pc} {n : ℕ} (h : Holds r before) (hfits : Fits r op)
    (hok : crash r op n = .ok (r', pc)) :
    Alone before (afterCall r before op) op r' pc ∧ r'.size = r.size := by
  cases op with
  | push buf =>
    rcases bind_ok.1 hok with ⟨_, hpos, hok⟩
    have hstart : Alone before (afterCall r before (.push buf)) (.push buf) r
        (.push (.spaceFront buf)) :=
      ⟨buf, rfl, h.stores, ⟨rfl, check_ok.1 hpos⟩, h.count, hfits, rfl⟩
    exact microSteps_alone hstart hok
  | pop =>
    have hstart : Alone before (afterCall r before .pop) .pop r (.pop .emptyFront) :=
      ⟨rfl, rfl, h.stores, trivial, h.count, hfits⟩
    exact microSteps_alone hstart hok

/-- The messages in the ring at a point of a call. -/
def Pc.stored (pc : Pc) (before after : List (List UInt8)) : List (List UInt8) :=
  if pc.landed then after else before

/-- At each point of a call the ring stores the messages from before it or from behind it. They
are counted, but between the two stores: then the messages from before are not what is read. -/
theorem Alone.stored {before after : List (List UInt8)} {op : Fifo.Op (List UInt8)}
    {r : RingBuffer} {pc : Pc} (h : Alone before after op r pc)
    (hroom : (records before).length < r.size) :
    Stores r (pc.stored before after) ∧
      (pc.owes = 0 ∧ r.elementSize = (pc.stored before after).length ∨
        pc.owes = 1 ∧ reads r before = false ∧ r.elementSize ≠ after.length) := by
  cases pc with
  | push pc =>
    rcases h with ⟨buf, -, halone⟩
    refine ⟨halone.stores, ?_⟩
    have hcount := halone.count
    -- the message is in the ring, and is not counted
    have hbetween : pc.landed = true → pc.owes = 1 → after = before ++ [buf] →
        reads r before = false ∧ r.elementSize ≠ after.length := by
      intro hlanded howes hafter
      have hstores := halone.stores
      rw [if_pos hlanded] at hstores hcount
      refine ⟨not_reads_init (hafter ▸ hstores), by omega⟩
    cases pc with
    | readSize => exact .inr ⟨rfl, hbetween rfl rfl halone.alone⟩
    | setSize size => exact .inr ⟨rfl, hbetween rfl rfl halone.alone.2⟩
    | _ => exact .inl ⟨rfl, hcount⟩
  | pop pc =>
    rcases h with ⟨-, rfl, halone⟩
    refine ⟨halone.stores, ?_⟩
    have hcount := halone.count
    -- the message is taken off, and is counted
    have hbetween : pc.landed = true → pc.owes = 1 → before ≠ [] →
        reads r before = false ∧ r.elementSize ≠ before.tail.length := by
      intro hlanded howes hne
      have hstores := halone.stores
      rw [if_pos hlanded] at hstores hcount
      rcases List.exists_cons_of_ne_nil hne with ⟨m, ms, rfl⟩
      exact ⟨not_reads_cons hstores hroom, by omega⟩
    cases pc with
    | readSize buf => exact .inr ⟨rfl, hbetween rfl rfl halone.alone⟩
    | setSize buf size => exact .inr ⟨rfl, hbetween rfl rfl halone.alone.2⟩
    | _ => exact .inl ⟨rfl, hcount⟩

theorem Alone.count_lt {before after : List (List UInt8)} {op : Fifo.Op (List UInt8)}
    {r : RingBuffer} {pc : Pc} (h : Alone before after op r pc) : r.elementSize < 2 ^ 64 := by
  cases pc with
  | push pc =>
    rcases h with ⟨buf, -, halone⟩
    have hcount := halone.count
    have hlt := halone.stores.length_lt
    omega
  | pop pc =>
    rcases h with ⟨-, -, halone⟩
    have hcount := halone.count
    have hlt := halone.stores.length_lt
    have howes : pc.owes ≤ 1 := by
      unfold PopPc.owes
      split <;> omega
    omega

/-- What a ring gives is the messages from before a call or from behind it, as many as its
number of elements. -/
def Recovers (r : RingBuffer) (before after : List (List UInt8)) : Prop :=
  ∃ ms, (ms = before ∨ ms = after) ∧ reads r ms = true ∧ r.elementSize = ms.length

/-- A call that leaves as many messages has left the same ones. -/
theorem length_afterCall {r : RingBuffer} {ms : List (List UInt8)} {op : Fifo.Op (List UInt8)}
    (h : (afterCall r ms op).length = ms.length) : afterCall r ms op = ms := by
  cases op with
  | push buf =>
    rw [afterCall] at h ⊢
    split at h
    · rename_i hfull
      rw [if_pos hfull]
    · simp at h
  | pop =>
    rw [afterCall] at h ⊢
    cases ms with
    | nil => rfl
    | cons m ms => simp at h

/-- The ring of a process that has died within a call. -/
theorem crash_recovers_iff {before : List (List UInt8)} {op : Fifo.Op (List UInt8)}
    {r r' : RingBuffer} {pc : Pc} {n : ℕ} (h : Holds r before) (hfits : Fits r op)
    (hok : crash r op n = .ok (r', pc)) :
    Recovers r' before (afterCall r before op) ↔ pc.owes = 0 ∧
      LengthsFit r'.size r'.frontOffset (pc.stored before (afterCall r before op)) := by
  rcases crash_alone h hfits hok with ⟨halone, hsize⟩
  rcases halone.stored (hsize ▸ h.room) with ⟨hstores, hcount⟩
  constructor
  · rintro ⟨ms, hms, hreads, hlen⟩
    rcases hcount with ⟨howes, hcount⟩ | ⟨-, hbefore, hafter⟩
    · -- the two sequences have different lengths, unless they are the same
      have hsame : ms = pc.stored before (afterCall r before op) := by
        have hlen : ms.length = (pc.stored before (afterCall r before op)).length := by omega
        unfold Pc.stored at hlen ⊢
        rcases hms with rfl | rfl
        all_goals split at hlen
        · rw [length_afterCall hlen.symm, ite_self]
        · rename_i hlanded
          rw [if_neg hlanded]
        · rename_i hlanded
          rw [if_pos hlanded]
        · rw [length_afterCall hlen, ite_self]
      rw [hsame] at hreads
      exact ⟨howes, (reads_iff hstores).1 hreads⟩
    · rcases hms with rfl | rfl
      · rw [hbefore] at hreads
        cases hreads
      · exact absurd hlen hafter
  · rintro ⟨howes, hlengths⟩
    rcases hcount with ⟨-, hcount⟩ | ⟨hone, -⟩
    · refine ⟨_, ?_, (reads_iff hstores).2 hlengths, hcount⟩
      unfold Pc.stored
      split
      · exact .inr rfl
      · exact .inl rfl
    · omega

end RingBuffer

namespace ProcessBus

open Machine RingBuffer

/-- What the calls on a bus have to keep to. -/
def Fits (b : ProcessBus) (op : Fifo.Op (List UInt8)) : Prop :=
  match b.buf with
  | none => True
  | some r => r.Fits op

instance (b : ProcessBus) (op : Fifo.Op (List UInt8)) : Decidable (Fits b op) := by
  unfold Fits
  cases b.buf <;> infer_instance

theorem guarded_ring {b : ProcessBus} {r : RingBuffer} {ops : List (Fifo.Op (List UInt8))}
    (hring : b.buf = some r) (h : Guarded apply Fits b ops) :
    Guarded RingBuffer.apply RingBuffer.Fits r ops := by
  induction ops generalizing b r with
  | nil => trivial
  | cons op ops ih =>
    rcases h with ⟨hop, hrest⟩
    unfold Fits at hop
    rw [hring] at hop
    refine ⟨hop, fun r' out hcall => ih rfl (hrest { b with buf := some r' } out ?_)⟩
    rw [apply, hring]
    simp only [hcall, ok_bind]

/-- A process dies after any number of accesses of a `Write` or a `Read`, with all its stores
in the file. What a `TryRecover` with the same size finds is the messages from before or from
behind the call, and their number, just when the process has not died between the store of the
offset and the store of the number, and no length of the messages in the ring wraps. -/
theorem recovers_iff {w w' w₁ p p' : ProcessBus} {file disk : Option BusFile} {f : BusFile}
    {os os' : Outcome} {ops : List (Fifo.Op (List UInt8))} {outs : List (Fifo.Out (List UInt8))}
    {op : Fifo.Op (List UInt8)} {n : ℕ} {r r' q : RingBuffer} {pc : Pc}
    (hopen : w.listen file os = .ok (w', some f, 0) ∨ w.connect none os = .ok (w', some f, 0))
    (hguard : Guarded apply Fits w' ops) (hrun : run apply w' ops = .ok (w₁, outs))
    (hring : w₁.buf = some r) (hop : r.Fits op) (hcrash : crash r op n = .ok (r', pc))
    (hreach : ∀ i, f.size ≤ i → os'.behind i = r'.image i) (hsame : p.mmapLen = w.mmapLen)
    (hrecover : p.tryRecover (some (f.store r')) os' = .ok (p', disk, 0)) (hq : p'.buf = some q) :
    Recovers q (Fifo.afterAll [] ops outs) (afterCall r (Fifo.afterAll [] ops outs) op) ↔
      pc.owes = 0 ∧ LengthsFit r'.size r'.frontOffset
        (pc.stored (Fifo.afterAll [] ops outs) (afterCall r (Fifo.afterAll [] ops outs) op)) := by
  rcases opened_new hopen with ⟨r₀, mapping, hr₀, hnew⟩
  obtain ⟨hholds, hsize⟩ : Holds r (Fifo.afterAll [] ops outs) ∧
      r.size + kOffsetDataLength = w.mmapLen.toNat := by
    rw [run_apply hr₀] at hrun
    rcases map_ok.1 hrun with ⟨⟨r₁, outs₁⟩, hcalls, hret⟩
    rcases Prod.mk.inj hret with ⟨rfl, rfl⟩
    obtain rfl : r₁ = r := Option.some.inj hring
    refine ⟨run_holds (onMapping_new hnew) (guarded_ring hr₀ hguard) hcalls, ?_⟩
    rw [run_size hcalls, onMapping_size hnew]
  rcases crash_alone hholds hop hcrash with ⟨halone, hsize'⟩
  rw [← crash_recovers_iff hholds hop hcrash]
  -- the ring recovered is the one left behind
  have hequal : q = r' := by
    rcases tryRecover_inv hrecover with ⟨hfile, q', hmapping, hq'⟩
    obtain rfl : q' = q := Option.some.inj (hq'.symm.trans hq)
    have hfile : f.size = p.mmapLen.toNat := hfile
    have hpos := r.size_pos
    have hextra : kExtraSpace = 1 := rfl
    have hheader : kOffsetDataLength = 24 := rfl
    have hstart : kRegionStart = 25 := rfl
    have hqsize := onMapping_size hmapping
    rw [hsame] at hfile hqsize
    rcases attached_ring (by omega) hmapping with ⟨hfront, hback, hcount, hmem⟩
    rcases halone.stored (hsize' ▸ hholds.room) with ⟨hstores, -⟩
    have hlt := r'.size_lt
    have hfront_le := hstores.front_le
    have hback_le := hstores.back_le
    rw [Nat.mod_eq_of_lt (by omega)] at hfront hback
    rw [Nat.mod_eq_of_lt halone.count_lt] at hcount
    have hcells : q'.mem = r'.mem := by
      funext i
      rw [hmem]
      split
      · rfl
      · rw [hreach _ (by omega), image_region]
    have hsizes : q'.size = r'.size := by omega
    cases q'
    cases r'
    simp only [RingBuffer.mk.injEq]
    exact ⟨hsizes, hcells, hfront, hback, hcount⟩
  rw [hequal]

/-- The mapping of a process that finds all stores of a ring in the file. -/
def finds (r : RingBuffer) : Outcome := { succeeds with behind := r.image }

/-- A `TryRecover` of what a ring has left in a file. -/
theorem tryRecover_finds {f : BusFile} {r q : RingBuffer} {mmapLen : UInt32}
    (hfile : f.size = mmapLen.toNat)
    (h : onMapping ((f.store r).view r.image) mmapLen true = .ok q) :
    (new mmapLen).tryRecover (some (f.store r)) (finds r) =
      .ok (⟨mmapLen, 3, .mapped, some q⟩, some (f.store r), 0) := by
  show (if (f.store r).size ≠ mmapLen.toNat then _
    else ((new mmapLen).setFd (3 : ℕ)).map (f.store r) (finds r) true (-4)) = _
  rw [if_neg (show ¬ (f.store r).size ≠ mmapLen.toNat from not_not.2 hfile)]
  exact map_of_maps rfl h

/-- A process dies in the copies of its second `Write`. -/
theorem recovers_iff_run :
    ∃ w' f w₁ outs r r' pc q, (new 64).listen none succeeds = .ok (w', some f, 0) ∧
      run apply w' [.push [1, 2, 3]] = .ok (w₁, outs) ∧ w₁.buf = some r ∧
      crash r (.push [4]) 6 = .ok (r', pc) ∧
      (new 64).tryRecover (some (f.store r')) (finds r') =
        .ok (⟨64, 3, .mapped, some q⟩, some (f.store r'), 0) ∧
      Recovers q [[1, 2, 3]] [[1, 2, 3], [4]] := by
  -- the sixth access has copied the body, and no offset or count is changed yet
  have hfacts : (run RingBuffer.apply (firstRing 64 (by decide)) [.push [1, 2, 3]] >>= fun res =>
      (crash res.1 (.push [4]) 6).map fun left => decide (res.2 = [.pushed true] ∧
        afterCall res.1 [[1, 2, 3]] (.push [4]) = [[1, 2, 3], [4]] ∧ res.1.Fits (.push [4]) ∧
        left.1.size = 40 ∧ left.1.frontOffset = 0 ∧ left.2.owes = 0 ∧ left.2.landed = false)) =
      .ok true := by decide +kernel
  rcases bind_ok.1 hfacts with ⟨⟨r, outs⟩, hcalls, hfacts⟩
  rcases map_ok.1 hfacts with ⟨⟨r', pc⟩, hcrash, hfacts⟩
  rcases of_decide_eq_true hfacts with ⟨rfl, hafter, hop, hsize, hfront, howes, hlanded⟩
  have hopen := listen_first 64 (by decide)
  have hrun : run apply ⟨64, 3, .mapped, some (firstRing 64 (by decide))⟩ [.push [1, 2, 3]] =
      .ok (⟨64, 3, .mapped, some r⟩, [.pushed true]) := by
    rw [run_apply rfl, hcalls]
    rfl
  obtain ⟨q, hmapping⟩ : ∃ q, onMapping ((BusFile.store (.store ⟨64, fun _ => 0⟩
      (firstRing 64 (by decide))) r').view r'.image) 64 true = .ok q := ⟨_, rfl⟩
  have hrecover := tryRecover_finds (by rfl) hmapping
  -- the new process maps the bytes that the old one left
  have hreach : ∀ i, (64 : UInt32).toNat ≤ i → (finds r').behind i = r'.image i := fun _ _ => rfl
  have hrecovers := (recovers_iff (.inl hopen) (by decide +kernel) hrun rfl hop hcrash hreach rfl
    hrecover rfl).2
  have hbefore : Fifo.afterAll [] [.push ([1, 2, 3] : List UInt8)] [.pushed true] =
      [[1, 2, 3]] := rfl
  rw [hbefore, hafter, hsize, hfront, howes, Pc.stored, hlanded] at hrecovers
  exact ⟨_, _, _, _, r, r', pc, q, hopen, hrun, rfl, hcrash, hrecover, hrecovers (by decide)⟩

/-- A process dies in its first `Write`, behind the store of the back. A message is there, and
the number of elements is `0`. -/
theorem crash_before_count :
    ∃ w' f r r' pc q, (new 64).listen none succeeds = .ok (w', some f, 0) ∧ w'.buf = some r ∧
      crash r (.push [1]) 7 = .ok (r', pc) ∧
      (new 64).tryRecover (some (f.store r')) (finds r') =
        .ok (⟨64, 3, .mapped, some q⟩, some (f.store r'), 0) ∧
      reads q [[1]] = true ∧ q.elementSize = 0 ∧ ¬ Recovers q [] [[1]] := by
  have hfacts : ((crash (firstRing 64 (by decide)) (.push [1]) 7) >>= fun left =>
      (onMapping (BusFile.view (.store (.store ⟨64, fun _ => 0⟩ (firstRing 64 (by decide))) left.1)
        left.1.image) 64 true).map fun q => (reads q [[1]], q.elementSize)) = .ok (true, 0) := by
    decide +kernel
  rcases bind_ok.1 hfacts with ⟨⟨r', pc⟩, hcrash, hfacts⟩
  rcases map_ok.1 hfacts with ⟨q, hmapping, hfacts⟩
  rcases Prod.mk.inj hfacts with ⟨hreads, hcount⟩
  refine ⟨_, _, _, r', pc, q, listen_first 64 (by decide), rfl, hcrash,
    tryRecover_finds (by rfl) hmapping, hreads, hcount, ?_⟩
  rintro ⟨ms, -, hreads', hlen⟩
  rw [reads_unique hreads' hreads, hcount] at hlen
  cases hlen

end ProcessBus

end FxServer
