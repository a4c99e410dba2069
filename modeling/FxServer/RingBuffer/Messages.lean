import Mathlib.Data.List.Forall2
import FxServer.Fifo
import FxServer.RingBuffer.Record

/-!
# FxServer.RingBuffer.Messages — the ring refines a queue of messages

`Holds r ms` relates a ring to the messages it holds: the bytes from the front to the
back, read cyclically, are their records. Every `Push` with room and every `Pop`
keeps the relation, as long as no `Pop` meets a length that wraps around the end of
the region.

The messages determine the bytes between the offsets, and the relation leaves the others open.
The condition is one on the state before a `Pop`: the front says whether the length behind it
wraps.

* `apply_refines` — one call.
* `ring_is_fifo` — every run: what is popped, and the count, are those of a queue.
* `wrapped_header_desyncs` — a ring of `16` bytes in which one length wraps: the next
  `Pop` returns a message that nobody pushed.
-/

namespace FxServer.RingBuffer

open Machine Cyclic

/-- A call on the ring, as a machine. -/
def apply (r : RingBuffer) :
    Fifo.Op (List UInt8) → Except Fault (RingBuffer × Fifo.Out (List UInt8))
  | .push buf => do
    let (r, accepted) ← r.push buf
    .ok (r, .pushed accepted)
  | .pop => do
    let (r, buf) ← r.pop
    .ok (r, .popped buf)

/-- A `Push` is given a message of an allowed length for which there is room. -/
def Admissible (r : RingBuffer) : Fifo.Op (List UInt8) → Prop
  | .push buf =>
    0 < buf.length ∧ buf.length ≤ kMaxBufferBodyLength ∧ (4 + buf.length : ℤ) ≤ r.spaceLeft
  | .pop => True

/-- A `Pop` finds the length of the message before the end of the region. -/
def HeaderFits (r : RingBuffer) : Fifo.Op (List UInt8) → Prop
  | .push _ => True
  | .pop => r.empty = false → r.frontOffset + 4 ≤ r.size

instance (r : RingBuffer) : DecidablePred (Admissible r)
  | .push buf => inferInstanceAs (Decidable (0 < buf.length ∧
      buf.length ≤ kMaxBufferBodyLength ∧ (4 + buf.length : ℤ) ≤ r.spaceLeft))
  | .pop => .isTrue trivial

instance (r : RingBuffer) : DecidablePred (HeaderFits r)
  | .push _ => .isTrue trivial
  | .pop => inferInstanceAs (Decidable (r.empty = false → r.frontOffset + 4 ≤ r.size))

/-! ## The messages in a ring -/

/-- The records of the messages, one after the other. -/
def records (ms : List (List UInt8)) : List UInt8 := ms.flatMap encode

@[simp] theorem records_nil : records [] = [] := rfl

@[simp] theorem records_cons (m : List UInt8) (ms : List (List UInt8)) :
    records (m :: ms) = encode m ++ records ms := rfl

theorem records_append (ms ns : List (List UInt8)) :
    records (ms ++ ns) = records ms ++ records ns := List.flatMap_append

/-- A record is longer than its length, so there are fewer messages than bytes. -/
theorem length_le_records (ms : List (List UInt8)) : 4 * ms.length ≤ (records ms).length := by
  induction ms with
  | nil => simp
  | cons m ms ih =>
    simp only [records_cons, List.length_append, length_encode, List.length_cons]
    omega

/-- The ring holds the messages `ms`. -/
structure Holds (r : RingBuffer) (ms : List (List UInt8)) : Prop where
  front_le : r.frontOffset ≤ r.size
  /-- the back is behind the last record -/
  back : r.backOffset = adv r.size r.frontOffset (records ms).length
  /-- one byte stays free, so that a full ring is not an empty one -/
  room : (records ms).length < r.size
  /-- from the front on the region has the records, going around at its end -/
  bytes : getCyc r.size r.mem r.frontOffset (records ms).length = records ms
  /-- every message can be returned by `Read` -/
  body : ∀ m ∈ ms, 0 < m.length ∧ m.length ≤ kMaxBufferBodyLength
  /-- `element_size` counts the messages -/
  count : r.elementSize = ms.length

/-- The records of `ms` lie between the front and the back, whatever the count says. -/
structure Stores (r : RingBuffer) (ms : List (List UInt8)) : Prop where
  front_le : r.frontOffset ≤ r.size
  /-- the back is behind the last record -/
  back : r.backOffset = adv r.size r.frontOffset (records ms).length
  room : (records ms).length < r.size
  /-- from the front on the region has the records -/
  bytes : getCyc r.size r.mem r.frontOffset (records ms).length = records ms
  body : ∀ m ∈ ms, 0 < m.length ∧ m.length ≤ kMaxBufferBodyLength

theorem Holds.stores {r : RingBuffer} {ms : List (List UInt8)} (h : Holds r ms) : Stores r ms :=
  ⟨h.front_le, h.back, h.room, h.bytes, h.body⟩

theorem Stores.holds {r : RingBuffer} {ms : List (List UInt8)} (h : Stores r ms)
    (hcount : r.elementSize = ms.length) : Holds r ms :=
  ⟨h.front_le, h.back, h.room, h.bytes, h.body, hcount⟩

/-- The count says nothing about what is stored. -/
theorem Stores.setSize {r : RingBuffer} {ms : List (List UInt8)} (h : Stores r ms) (n : ℕ) :
    Stores (r.setSize n) ms := ⟨h.front_le, h.back, h.room, h.bytes, h.body⟩

theorem holds_new (size : ℕ) (mem : ℕ → UInt8) (hpos : kExtraSpace ≤ size) (hlt : size < 2 ^ 63) :
    Holds (new size mem hpos hlt) [] where
  front_le := Nat.zero_le _
  back := (adv_zero (Nat.zero_le _)).symm
  room := hpos
  bytes := rfl
  body := by simp
  count := rfl

section Stores

variable {r : RingBuffer} {ms : List (List UInt8)} (h : Stores r ms)

include h

theorem Stores.back_le : r.backOffset ≤ r.size := h.back ▸ adv_le h.front_le h.room.le

/-- There are far fewer messages than the counter could count. -/
theorem Stores.length_lt : ms.length < 2 ^ 61 := by
  have hrecords := length_le_records ms
  have hroom := h.room
  have hsize := r.size_lt
  omega

/-- The offsets are equal exactly when nothing is stored. -/
theorem Stores.empty_iff : r.empty = true ↔ ms = [] := by
  have hback := adv_eq_self h.front_le h.room
  rw [← h.back] at hback
  unfold empty
  rw [decide_eq_true_iff, eq_comm, hback, List.length_eq_zero_iff]
  cases ms with
  | nil => simp
  | cons m ms => simp [encode, intBytes]

/-- The space left is all but the records and one byte. -/
theorem Stores.spaceLeft_eq :
    r.spaceLeft = toInt (r.size - 1 - (records ms).length : ℕ) := by
  have hback := h.back
  have hfront := h.front_le
  have hroom := h.room
  have hextra : kExtraSpace = 1 := rfl
  unfold adv at hback
  unfold spaceLeft
  split_ifs at hback ⊢ <;> congr 1 <;> omega

/-- A message that fits leaves a byte free behind its record. -/
theorem Stores.room_of_admissible {buf : List UInt8} (hspace : (4 + buf.length : ℤ) ≤ r.spaceLeft) :
    (records ms).length + (4 + buf.length) < r.size := by
  have hroom := h.room
  have hle := toInt_le (r.size - 1 - (records ms).length)
  rw [h.spaceLeft_eq] at hspace
  omega

/-- A record behind the back, taken in. -/
theorem Stores.append {r' : RingBuffer} {buf : List UInt8} (hpos : 0 < buf.length)
    (hmax : buf.length ≤ kMaxBufferBodyLength)
    (hroom : (records ms).length + (4 + buf.length) < r.size) (hsize : r'.size = r.size)
    (hfront : r'.frontOffset = r.frontOffset)
    (hback : r'.backOffset = adv r.size r.backOffset (4 + buf.length))
    (hold : getCyc r.size r'.mem r.frontOffset (records ms).length = records ms)
    (hnew : getCyc r.size r'.mem r.backOffset (4 + buf.length) = encode buf) :
    Stores r' (ms ++ [buf]) := by
  have hlen : (records (ms ++ [buf])).length = (records ms).length + (4 + buf.length) := by
    simp [records_append]
  constructor
  · rw [hfront, hsize]
    exact h.front_le
  · -- the back offset is where the longer sequence of records ends
    rw [hback, hsize, hfront, hlen, h.back, adv_adv h.front_le hroom]
  · rw [hlen, hsize]
    exact hroom
  · -- the old records, and the new one behind them
    rw [hsize, hfront, hlen, records_append, getCyc_append h.front_le hroom.le, hold, ← h.back,
      hnew]
    simp
  · intro m hm
    rcases List.mem_append.1 hm with hm | hm
    · exact h.body m hm
    · rw [List.mem_singleton.1 hm]
      exact ⟨hpos, hmax⟩

/-- What `Write` leaves behind. -/
theorem Stores.written {buf : List UInt8} (hpos : 0 < buf.length)
    (hmax : buf.length ≤ kMaxBufferBodyLength)
    (hroom : (records ms).length + (4 + buf.length) < r.size) :
    Stores (r.written buf) (ms ++ [buf]) := by
  refine h.append hpos hmax hroom rfl rfl rfl ?_ ?_
  · show getCyc r.size (putCyc r.size r.mem r.backOffset (encode buf)) r.frontOffset _ = _
    rw [h.back, getCyc_putCyc_before h.front_le (by simpa using hroom.le), h.bytes]
  · show getCyc r.size (putCyc r.size r.mem r.backOffset (encode buf)) r.backOffset _ = _
    rw [← length_encode, getCyc_putCyc_same h.back_le (by simp; omega)]

end Stores

/-- What `Pop` finds at the front. -/
theorem Stores.head {r : RingBuffer} {m : List UInt8} {ms : List (List UInt8)}
    (h : Stores r (m :: ms)) :
    getCyc r.size r.mem r.frontOffset (4 + m.length) = encode m ∧
      4 + m.length + (records ms).length < r.size := by
  have hlen : (records (m :: ms)).length = 4 + m.length + (records ms).length := by simp
  have hroom := h.room
  rw [hlen] at hroom
  have hbytes := h.bytes
  rw [hlen, getCyc_append h.front_le hroom.le, records_cons] at hbytes
  exact ⟨(List.append_inj hbytes (by simp)).1, hroom⟩

/-- The head, taken off by a front that goes behind its record. -/
theorem Stores.tail {r r' : RingBuffer} {m : List UInt8} {ms : List (List UInt8)}
    (h : Stores r (m :: ms)) (hsize : r'.size = r.size) (hmem : r'.mem = r.mem)
    (hfront : r'.frontOffset = adv r.size r.frontOffset (4 + m.length))
    (hback : r'.backOffset = r.backOffset) : Stores r' ms := by
  rcases h.head with ⟨-, hroom⟩
  have hlen : (records (m :: ms)).length = 4 + m.length + (records ms).length := by simp
  have hbytes := h.bytes
  rw [hlen, getCyc_append h.front_le hroom.le, records_cons] at hbytes
  constructor
  · rw [hfront, hsize]
    exact adv_le h.front_le (by omega)
  · -- seen from the new front the records end where they did
    rw [hback, hsize, hfront, adv_adv h.front_le hroom, ← hlen, h.back]
  · rw [hsize]
    omega
  · rw [hsize, hmem, hfront]
    exact (List.append_inj hbytes (by simp)).2
  · exact fun m' hm' => h.body m' (by simp [hm'])

/-- `Pop` returns the head, and takes it unless its length wraps. -/
theorem Stores.pop {r : RingBuffer} {m : List UInt8} {ms : List (List UInt8)}
    (h : Stores r (m :: ms)) :
    r.pop = .ok ((r.setFront (r.frontAfter m.length)).setSize (r.elementSize + (2 ^ 64 - 1)),
        some m) ∧
      (r.frontOffset + 4 ≤ r.size → Stores (r.setFront (r.frontAfter m.length)) ms) := by
  rcases h.body m (by simp) with ⟨hpos, hmax⟩
  rcases h.head with ⟨hfirst, hroom⟩
  have hne : r.empty = false := by
    rw [← Bool.not_eq_true, h.empty_iff]
    simp
  refine ⟨?_, fun hfits => ?_⟩
  · rw [RingBuffer.pop, hne, if_neg (by decide),
      read_eq hne h.front_le hpos hmax (by omega) hfirst, ok_bind]
    rfl
  · have hfront : r.frontAfter m.length = adv r.size r.frontOffset (4 + m.length) := if_pos hfits
    exact h.tail rfl rfl hfront rfl

/-- A `Push` of a message that has room appends it. -/
theorem Holds.push_of_room {r : RingBuffer} {ms : List (List UInt8)} (h : Holds r ms)
    {buf : List UInt8} (hpos : 0 < buf.length) (hmax : buf.length ≤ kMaxBufferBodyLength)
    (hroom : (records ms).length + (4 + buf.length) < r.size)
    (hspace : (buf.length : ℤ) ≤ r.spaceLeft) :
    ∃ r', r.push buf = .ok (r', true) ∧ Holds r' (ms ++ [buf]) := by
  have hwrite := write_eq buf h.stores.back_le (by omega)
  have hnew := (h.stores.written hpos hmax hroom).setSize (1 + r.elementSize)
  refine ⟨(r.written buf).setSize (1 + r.elementSize), ?_, hnew.holds ?_⟩
  · unfold RingBuffer.push
    rw [check_true hpos, ok_bind, if_neg (by omega), hwrite, ok_bind]
    rfl
  · show (1 + r.elementSize) % 2 ^ 64 = _
    have hlt := h.stores.length_lt
    rw [h.count, List.length_append, List.length_singleton, Nat.mod_eq_of_lt (by omega)]
    omega

/-- An admissible message is accepted and held behind the others. -/
theorem Holds.push {r : RingBuffer} {ms : List (List UInt8)} (h : Holds r ms) {buf : List UInt8}
    (hadm : Admissible r (.push buf)) :
    ∃ r', r.push buf = .ok (r', true) ∧ Holds r' (ms ++ [buf]) := by
  rcases hadm with ⟨hpos, hmax, hspace⟩
  exact h.push_of_room hpos hmax (h.stores.room_of_admissible hspace) (by omega)

/-- `Pop` returns the head, and takes it unless its length wraps. -/
theorem Holds.pop {r : RingBuffer} {m : List UInt8} {ms : List (List UInt8)}
    (h : Holds r (m :: ms)) :
    ∃ r', r.pop = .ok (r', some m) ∧ (r.frontOffset + 4 ≤ r.size → Holds r' ms) := by
  rcases h.stores.pop with ⟨hpop, htail⟩
  refine ⟨_, hpop, fun hfits => ((htail hfits).setSize _).holds ?_⟩
  show (r.elementSize + (2 ^ 64 - 1)) % 2 ^ 64 = _
  have hlt := h.stores.length_lt
  rw [h.count, List.length_cons, Nat.add_assoc, Nat.add_sub_cancel' (by decide),
    Nat.add_mod_right, Nat.mod_eq_of_lt (by simp at hlt; omega)]

/-! ## Runs -/

/-- Every call that keeps to the guard is the queue's. -/
theorem apply_refines (r : RingBuffer) (ms : List (List UInt8)) (op : Fifo.Op (List UInt8))
    (h : Holds r ms) (hguard : Admissible r op ∧ HeaderFits r op) :
    ∃ r' out, apply r op = .ok (r', out) ∧ Holds r' (Fifo.apply ms op).1 ∧
      out = (Fifo.apply ms op).2 := by
  rcases hguard with ⟨hadm, hfits⟩
  cases op with
  | push buf =>
    rcases h.push hadm with ⟨r', hok, h'⟩
    exact ⟨r', .pushed true, by simp only [apply, hok, ok_bind], h', rfl⟩
  | pop =>
    cases ms with
    | nil =>
      have hempty := h.stores.empty_iff.2 rfl
      -- an empty ring: `Pop` returns nothing, as the queue does
      exact ⟨r, .popped none, by simp only [apply, pop, hempty, if_true, ok_bind], h, rfl⟩
    | cons m ms =>
      have hne : r.empty = false := by
        rw [← Bool.not_eq_true, h.stores.empty_iff]
        simp
      rcases h.pop with ⟨r', hok, h'⟩
      exact ⟨r', .popped (some m), by simp only [apply, hok, ok_bind], h' (hfits hne), rfl⟩

/-- `Pop` returns `NULL` just when no message is left. -/
theorem Holds.pop_none_iff {r : RingBuffer} {ms : List (List UInt8)} (h : Holds r ms) :
    r.pop.map Prod.snd = .ok none ↔ ms = [] := by
  cases ms with
  | nil => simp [RingBuffer.pop, h.stores.empty_iff.2 rfl, Except.map]
  | cons m ms =>
    rcases h.pop with ⟨r', hok, -⟩
    simp [hok, Except.map]

/-- In every run in which each `Push` has room and no `Pop` meets a length that wraps:
every push is accepted, the pops return what was pushed, in order, `element_size()`
counts what is left, and the next `Pop` returns `NULL` if and only if nothing is. -/
theorem ring_is_fifo (size : ℕ) (mem : ℕ → UInt8) (hpos : kExtraSpace ≤ size)
    (hlt : size < 2 ^ 63) (ops : List (Fifo.Op (List UInt8)))
    (h : Guarded apply (fun r op => Admissible r op ∧ HeaderFits r op) (new size mem hpos hlt)
      ops) :
    ∃ r outs, run apply (new size mem hpos hlt) ops = .ok (r, outs) ∧
      outs = (runTotal Fifo.apply [] ops).2 ∧
      Fifo.pops outs <+: Fifo.pushes ops ∧
      r.elementSize = (Fifo.pushes ops).length - (Fifo.pops outs).length ∧
      (r.pop.map Prod.snd = .ok none ↔ Fifo.pops outs = Fifo.pushes ops) := by
  rcases run_refines apply_refines (holds_new size mem hpos hlt) h with
    ⟨r, outs, hrun, hholds, houts⟩
  rw [List.forall₂_eq_eq_eq] at houts
  have hfifo := Fifo.pops_append [] ops
  rw [← houts, List.nil_append] at hfifo
  refine ⟨r, outs, hrun, houts, ⟨_, hfifo⟩, ?_, ?_⟩
  · rw [hholds.count, ← hfifo, List.length_append, Nat.add_sub_cancel_left]
  · rw [hholds.pop_none_iff, ← hfifo]
    simp

/-- A run in which a record goes around the end. -/
theorem ring_is_fifo_run :
    ∃ r outs, run apply (new 16 (fun _ => 0) (by decide) (by decide))
        [.push [1, 2, 3], .push [4], .pop, .push [5, 6, 7, 8], .pop] = .ok (r, outs) ∧
      Fifo.pops outs = [[1, 2, 3], [4]] ∧ r.elementSize = 1 := by
  obtain ⟨r, outs, hrun, houts, -, hcount, -⟩ :=
    ring_is_fifo 16 (fun _ => 0) (by decide) (by decide)
      [.push [1, 2, 3], .push [4], .pop, .push [5, 6, 7, 8], .pop] (by decide)
  subst houts
  exact ⟨r, _, hrun, rfl, hcount⟩

/-- The length of the second message starts at `13` and wraps. `Pop` returns the
message, and leaves the front at `1` and the back at `2`: the ring, which is empty,
returns another message. -/
theorem wrapped_header_desyncs :
    Guarded apply Admissible (new 16 (fun _ => 0) (by decide) (by decide))
      [.push [0, 0, 0, 0, 0, 0, 0, 0, 0], .pop, .push [1], .pop, .pop] ∧
    (run apply (new 16 (fun _ => 0) (by decide) (by decide))
      [.push [0, 0, 0, 0, 0, 0, 0, 0, 0], .pop, .push [1], .pop, .pop]).map Prod.snd =
      .ok [.pushed true, .popped (some [0, 0, 0, 0, 0, 0, 0, 0, 0]), .pushed true,
        .popped (some [1]), .popped (some [0])] ∧
    ¬ Fifo.pops [.pushed true, .popped (some [0, 0, 0, 0, 0, 0, 0, 0, 0]), .pushed true,
        .popped (some [1]), .popped (some [0])] <+:
      Fifo.pushes [.push [0, 0, 0, 0, 0, 0, 0, 0, 0], .pop, .push [1], .pop, .pop] := by
  refine ⟨by decide, by decide, by decide⟩

end FxServer.RingBuffer
