import FxServer.RingBuffer.Admission
import FxServer.RingBuffer.Steps

/-!
# FxServer.RingBuffer.Shared — one producer and one consumer on one region

Two processes map the same region; one calls `Push` and the other `Pop`. An `Act` lets one
of them make its next access. The front has one writer and so has the back, and each
process sees what the other does only when it reads the other's offset; but both rewrite
`element_size`.

Each process holds values that it has read some accesses ago. The invariant says of each of them
what is still true, whatever the other process has done since: free space only grows behind the
back of a producer, and messages only join behind those that a consumer has seen.

* `Consistent` — whatever the interleaving, the records of the messages lie between the
  offsets, and the count lacks what the two processes are about to add and take.
* `count_is_exact` — with both at rest, the count is right, if no process sets the count
  after the other has changed it.
* `lost_update` — the producer's count is overwritten.
-/

namespace FxServer.RingBuffer

open Machine Cyclic

/-- The region, where the two processes are, and what their calls have returned. -/
structure Shared where
  ring : RingBuffer
  producer : PushPc
  consumer : PopPc
  /-- the calls of `Push` that have returned `true` -/
  accepted : ℕ
  /-- the calls of `Pop` that have returned a message -/
  popped : ℕ

namespace Shared

/-- A step of one of the processes; the call of a process that is busy does nothing. -/
inductive Act where
  | push (buf : List UInt8)
  | produce
  | pop
  | consume
deriving DecidableEq, Repr

/-- A fresh region. -/
def new (size : ℕ) (mem : ℕ → UInt8) (hpos : kExtraSpace ≤ size) (hlt : size < 2 ^ 63) : Shared :=
  ⟨.new size mem hpos hlt, .idle, .idle, 0, 0⟩

/-- One access of one of the two processes. -/
def step (s : Shared) : Act → Except Fault (Shared × Unit)
  | .push buf =>
    if s.producer = .idle then do
      check (0 < buf.length)
      .ok ({ s with producer := .spaceFront buf }, ())
    else .ok (s, ())
  | .produce => do
    let (ring, producer, res) ← pushStep s.ring s.producer
    .ok ({ s with
      ring, producer
      accepted := s.accepted + if res = some true then 1 else 0 }, ())
  | .pop =>
    if s.consumer = .idle then .ok ({ s with consumer := .emptyFront }, ())
    else .ok (s, ())
  | .consume => do
    let (ring, consumer, res) ← popStep s.ring s.consumer
    .ok ({ s with
      ring, consumer
      popped := s.popped + if res.join.isSome then 1 else 0 }, ())

/-! ## The condition -/

/-- `Push` lets in only what has room, with the length of the message, as far as the front that
it has read tells. -/
def PushFits (r : RingBuffer) : PushPc → Prop
  | .spaceBack buf front => (buf.length : ℤ) ≤ (r.setFront front).spaceLeft →
    MessageFits (r.setFront front) buf.length
  | _ => True

/-- `Pop` finds the length of the message before the end of the region. -/
def LengthFits (r : RingBuffer) : PopPc → Prop
  | .emptyBack front => front ≠ r.backOffset → front + 4 ≤ r.size
  | _ => True

/-- The count is still what the process has read. -/
def PushCounts (r : RingBuffer) : PushPc → Prop
  | .setSize size => size = r.elementSize
  | _ => True

def PopCounts (r : RingBuffer) : PopPc → Prop
  | .setSize _ size => size = r.elementSize
  | _ => True

/-- What a step finds. -/
def Undisturbed (s : Shared) : Act → Prop
  | .produce => PushFits s.ring s.producer ∧ PushCounts s.ring s.producer
  | .consume => LengthFits s.ring s.consumer ∧ PopCounts s.ring s.consumer
  | _ => True

instance (r : RingBuffer) (pc : PushPc) : Decidable (PushFits r pc) := by
  cases pc <;> unfold PushFits <;> infer_instance

instance (r : RingBuffer) (pc : PushPc) : Decidable (PushCounts r pc) := by
  cases pc <;> unfold PushCounts <;> infer_instance

instance (r : RingBuffer) (pc : PopPc) : Decidable (LengthFits r pc) := by
  cases pc <;> unfold LengthFits <;> infer_instance

instance (r : RingBuffer) (pc : PopPc) : Decidable (PopCounts r pc) := by
  cases pc <;> unfold PopCounts <;> infer_instance

instance (s : Shared) : DecidablePred (Undisturbed s)
  | .produce => inferInstanceAs
      (Decidable (PushFits s.ring s.producer ∧ PushCounts s.ring s.producer))
  | .consume => inferInstanceAs
      (Decidable (LengthFits s.ring s.consumer ∧ PopCounts s.ring s.consumer))
  | .push _ | .pop => .isTrue trivial

end Shared

/-! ## What each process relies on -/

/-- The message has room behind the messages `ms`. -/
def Room (r : RingBuffer) (ms : List (List UInt8)) (buf : List UInt8) : Prop :=
  0 < buf.length ∧ buf.length ≤ kMaxBufferBodyLength ∧
    (records ms).length + (4 + buf.length) < r.size

/-- All the copies into the memory. -/
def putAll (mem : ℕ → UInt8) (copies : List (ℕ × List UInt8)) : ℕ → UInt8 :=
  copies.foldl (fun mem copy => put mem copy.1 copy.2) mem

/-- What a `Push` of `buf` knows at each point, with the messages `ms` in the ring. -/
def PushPc.Knows (r : RingBuffer) (ms : List (List UInt8)) (buf : List UInt8) : PushPc → Prop
  | .idle | .readSize | .setSize _ => True
  | .spaceFront buf' => buf' = buf ∧ 0 < buf.length
  | .spaceBack buf' front =>
    -- the front has gone on by `k` bytes since it was read
    buf' = buf ∧ 0 < buf.length ∧ front ≤ r.size ∧
      ∃ k, r.frontOffset = adv r.size front k ∧ k + (records ms).length < r.size
  | .writeFront buf' | .writeBack buf' => buf' = buf ∧ Room r ms buf
  | .copying copies back => Room r ms buf ∧
    back = adv r.size r.backOffset (4 + buf.length) ∧
    (∀ copy ∈ copies,
      Within r.size r.backOffset (4 + buf.length) copy.1 copy.2.length) ∧
    getCyc r.size (putAll r.mem copies) r.backOffset (4 + buf.length) = encode buf

/-- There is a message at the front, and its length does not wrap. -/
def AtHead (r : RingBuffer) (ms : List (List UInt8)) : Prop :=
  ms ≠ [] ∧ r.frontOffset + 4 ≤ r.size

/-- What a `Pop` knows at each point, with the messages `ms` in the ring. -/
def PopPc.Knows (r : RingBuffer) (ms : List (List UInt8)) : PopPc → Prop
  | .idle | .emptyFront => True
  | .emptyBack front => front = r.frontOffset
  | .readFront => AtHead r ms
  | .readEmptyFront front => front = r.frontOffset ∧ AtHead r ms
  | .readEmptyBack front front' =>
    front = r.frontOffset ∧ front' = r.frontOffset ∧ AtHead r ms
  | .lengthFront front => front = r.frontOffset ∧ AtHead r ms
  | .lengthEmptyFront front front' =>
    front = r.frontOffset ∧ front' = r.frontOffset ∧ AtHead r ms
  | .lengthEmptyBack front front' _ =>
    front = r.frontOffset ∧ front' = r.frontOffset ∧ AtHead r ms
  | .lengthCopying front copies len => front = r.frontOffset ∧ AtHead r ms ∧
    ((copies = [(front, 4)] ∧ len = []) ∨
      (copies = [] ∧ ∃ m, ms.head? = some m ∧ len = intBytes m.length))
  | .copying _ _ front => ∃ m, ms.head? = some m ∧
    front = adv r.size r.frontOffset (4 + m.length)
  | .readSize buf | .setSize buf _ => buf.isSome

/-- Whether a message is in the ring that is not counted yet. -/
def PushPc.owes : PushPc → ℕ
  | .readSize | .setSize _ => 1
  | _ => 0

/-- Whether a message is counted that is no longer in the ring. -/
def PopPc.owes : PopPc → ℕ
  | .readSize _ | .setSize _ _ => 1
  | _ => 0

section Knows

variable {r r' : RingBuffer} {ms : List (List UInt8)}

/-- A `Push` need not know that messages are taken off. -/
theorem PushPc.Knows.of_pop {pc : PushPc} {buf : List UInt8} {gone : List (List UInt8)}
    (h : pc.Knows r (gone ++ ms) buf) (hsize : r'.size = r.size) (hmem : r'.mem = r.mem)
    (hback : r'.backOffset = r.backOffset)
    (hfront : r'.frontOffset = adv r.size r.frontOffset (records gone).length) :
    pc.Knows r' ms buf := by
  -- what was taken out only leaves more room
  have hroom : Room r (gone ++ ms) buf → Room r' ms buf := by
    intro hbuf
    rcases hbuf with ⟨hpos, hmax, hlt⟩
    rw [records_append, List.length_append] at hlt
    exact ⟨hpos, hmax, by omega⟩
  cases pc with
  | idle => trivial
  | spaceFront buf' => exact h
  | spaceBack buf' front =>
    rcases h with ⟨heq, hpos, hle, k, hk, hlt⟩
    rw [records_append, List.length_append] at hlt
    -- the front offset it has read is by now further behind
    refine ⟨heq, hpos, hsize ▸ hle, k + (records gone).length, ?_, by omega⟩
    rw [hfront, hk, adv_adv hle (by omega), hsize]
  | writeFront buf' => exact ⟨h.1, hroom h.2⟩
  | writeBack buf' => exact ⟨h.1, hroom h.2⟩
  | copying copies back =>
    rcases h with ⟨hbuf, htarget, hwithin, hbytes⟩
    refine ⟨hroom hbuf, ?_, ?_, ?_⟩
    · rw [htarget, hsize, hback]
    · rw [hsize, hback]
      exact hwithin
    · rw [hsize, hmem, hback]
      exact hbytes
  | readSize => trivial
  | setSize size => trivial

/-- A `Pop` need not know that messages are added. -/
theorem PopPc.Knows.of_push {pc : PopPc} (h : pc.Knows r ms) (more : List (List UInt8))
    (hsize : r'.size = r.size) (hfront : r'.frontOffset = r.frontOffset) :
    pc.Knows r' (ms ++ more) := by
  have hhead : AtHead r ms → AtHead r' (ms ++ more) := by
    intro hms
    refine ⟨?_, by rw [hsize, hfront]; exact hms.2⟩
    intro hnil
    exact hms.1 (List.append_eq_nil_iff.1 hnil).1
  -- messages are put behind the one that is being read
  have hfirst : ∀ {m : List UInt8}, ms.head? = some m → (ms ++ more).head? = some m := by
    intro m hm
    rw [List.head?_append, hm]
    rfl
  cases pc with
  | idle => trivial
  | emptyFront => trivial
  | emptyBack front => exact h.trans hfront.symm
  | readFront => exact hhead h
  | readEmptyFront front => exact ⟨h.1.trans hfront.symm, hhead h.2⟩
  | readEmptyBack front front' =>
    exact ⟨h.1.trans hfront.symm, h.2.1.trans hfront.symm, hhead h.2.2⟩
  | lengthFront front => exact ⟨h.1.trans hfront.symm, hhead h.2⟩
  | lengthEmptyFront front front' =>
    exact ⟨h.1.trans hfront.symm, h.2.1.trans hfront.symm, hhead h.2.2⟩
  | lengthEmptyBack front front' front'' =>
    exact ⟨h.1.trans hfront.symm, h.2.1.trans hfront.symm, hhead h.2.2⟩
  | lengthCopying front copies len =>
    rcases h with ⟨heq, hms, hlen⟩
    refine ⟨heq.trans hfront.symm, hhead hms, hlen.imp_right ?_⟩
    rintro ⟨hdone, m, hm, hbytes⟩
    exact ⟨hdone, m, hfirst hm, hbytes⟩
  | copying copies buf front =>
    rcases h with ⟨m, hm, htarget⟩
    exact ⟨m, hfirst hm, by rw [htarget, hsize, hfront]⟩
  | readSize buf => exact h
  | setSize buf size => exact h

end Knows

/-! ## The steps of each process -/

theorem copyIn_eq {r r' : RingBuffer} {dst : ℕ} {bytes : List UInt8}
    (h : r.copyIn dst bytes = .ok r') : r' = { r with mem := put r.mem dst bytes } := by
  unfold copyIn at h
  split at h
  · exact (Except.ok.inj h).symm
  · cases h

theorem copyAllIn_eq {r r' : RingBuffer} {copies : List (ℕ × List UInt8)}
    (h : copyAllIn r copies = .ok r') : r' = { r with mem := putAll r.mem copies } := by
  induction copies generalizing r with
  | nil =>
    cases h
    rfl
  | cons copy copies ih =>
    rcases bind_ok.1 h with ⟨r₁, hcopy, hrest⟩
    rw [ih hrest, copyIn_eq hcopy]
    rfl

/-- The copies of `Write` stay in the free bytes and lay out the record there. -/
theorem writeCopies_spec {r : RingBuffer} (buf : List UInt8) (hback : r.backOffset ≤ r.size)
    (hroom : 4 + buf.length < r.size) :
    (writeCopies r.size r.backOffset buf).2 = adv r.size r.backOffset (4 + buf.length) ∧
      (∀ copy ∈ (writeCopies r.size r.backOffset buf).1,
        Within r.size r.backOffset (4 + buf.length) copy.1 copy.2.length) ∧
      getCyc r.size (putAll r.mem (writeCopies r.size r.backOffset buf).1) r.backOffset
        (4 + buf.length) = encode buf := by
  have hwrite := write_eq buf hback hroom
  rw [write_eq_copyAllIn, check_true hback, ok_bind] at hwrite
  rcases bind_ok.1 hwrite with ⟨r', hcopies, hset⟩
  have hwritten := Except.ok.inj hset
  rw [copyAllIn_eq hcopies] at hwritten
  refine ⟨congrArg RingBuffer.backOffset hwritten, ?_, ?_⟩
  · -- free bytes lie behind the back offset, or before its end once around the region
    have hdist : ∀ {dst len : ℕ}, dst + len ≤ r.size →
        (r.backOffset ≤ dst ∧ dst + len ≤ r.backOffset + 4 + buf.length ∨
          dst + len ≤ r.backOffset + 4 + buf.length - r.size) →
        Within r.size r.backOffset (4 + buf.length) dst len := by
      intro dst len hend hwhere
      refine ⟨hend, fun i hle hlt => ?_⟩
      unfold Cyclic.dist
      split <;> omega
    intro copy hcopy
    unfold writeCopies at hcopy
    split_ifs at hcopy
    all_goals simp only [List.mem_cons, List.not_mem_nil, or_false] at hcopy
    · -- the record lies in one piece
      rcases hcopy with rfl | rfl
      · exact hdist (by simp; omega) (.inl ⟨le_refl _, by simp⟩)
      · exact hdist (by simp; omega) (.inl ⟨by simp, le_refl _⟩)
    · -- its body lies across the end of the region
      rcases hcopy with rfl | rfl | rfl
      · exact hdist (by simp; omega) (.inl ⟨le_refl _, by simp⟩)
      · exact hdist (by simp; omega) (.inl ⟨by simp, by simp⟩)
      · exact hdist (by simp; omega) (by simp; omega)
    · -- its length lies across the end of the region
      rcases hcopy with rfl | rfl | rfl
      · exact hdist (by simp; omega) (by simp; omega)
      · exact hdist (by simp; omega) (by simp; omega)
      · exact hdist (by simp; omega) (by simp; omega)
  · have hmem := congrArg RingBuffer.mem hwritten
    have hmem : putAll r.mem (writeCopies r.size r.backOffset buf).1 =
        putCyc r.size r.mem r.backOffset (encode buf) := hmem
    rw [hmem, ← length_encode, getCyc_putCyc_same hback (by simp; omega)]

/-- One access of a `Push`: its message may be added, and is counted or owed. -/
theorem pushStep_spec {r r' : RingBuffer} {ms : List (List UInt8)} (h : Stores r ms)
    {pc pc' : PushPc} {buf : List UInt8} {res : Option Bool} (hknows : pc.Knows r ms buf)
    (hfits : Shared.PushFits r pc) (hcounts : Shared.PushCounts r pc)
    (hok : pushStep r pc = .ok (r', pc', res)) :
    ∃ more, (more = [] ∨ more = [buf]) ∧ Stores r' (ms ++ more) ∧ pc'.Knows r' (ms ++ more) buf ∧
      r'.size = r.size ∧ r'.frontOffset = r.frontOffset ∧
      more.length + pc.owes = pc'.owes + (if res = some true then 1 else 0) ∧
      r'.elementSize = if res = some true then (1 + r.elementSize) % 2 ^ 64 else r.elementSize := by
  have hsame : Stores r (ms ++ []) := by simpa using h
  cases pc with
  | idle =>
    cases hok
    exact ⟨[], .inl rfl, hsame, trivial, rfl, rfl, rfl, rfl⟩
  | spaceFront buf' =>
    cases hok
    refine ⟨[], .inl rfl, hsame, ?_, rfl, rfl, rfl, rfl⟩
    rw [List.append_nil]
    refine ⟨hknows.1, hknows.2, h.front_le, 0, ?_, by simpa using h.room⟩
    rw [adv_zero h.front_le]
  | spaceBack buf' front =>
    rcases hknows with ⟨rfl, hpos, hle, k, hk, hlt⟩
    rw [pushStep] at hok
    split at hok
    · cases hok
      exact ⟨[], .inl rfl, hsame, trivial, rfl, rfl, rfl, rfl⟩
    · rename_i hspace
      cases hok
      rcases hfits (by omega) with ⟨hmax, hfour⟩
      refine ⟨[], .inl rfl, hsame, ?_, rfl, rfl, rfl, rfl⟩
      rw [List.append_nil]
      -- from the old front, the space is less by the bytes taken off since
      have hold : (r.setFront front).free = (r.size : ℤ) - (k + (records ms).length : ℕ) - 1 := by
        have hback := h.back
        rw [hk, adv_adv hle hlt] at hback
        have hextra : kExtraSpace = 1 := rfl
        unfold adv at hback
        unfold free used setFront
        simp only
        split_ifs at hback ⊢ <;> omega
      rw [hold] at hfour
      exact ⟨rfl, hpos, hmax, by omega⟩
  | writeFront buf' =>
    cases hok
    refine ⟨[], .inl rfl, hsame, ?_, rfl, rfl, rfl, rfl⟩
    rw [List.append_nil]
    exact hknows
  | writeBack buf' =>
    rcases bind_ok.1 hok with ⟨_, hle, hok⟩
    cases hok
    rcases hknows with ⟨rfl, hpos, hmax, hroom⟩
    have hcopies := writeCopies_spec buf' h.back_le (by omega)
    refine ⟨[], .inl rfl, hsame, ?_, rfl, rfl, rfl, rfl⟩
    rw [List.append_nil]
    exact ⟨⟨hpos, hmax, hroom⟩, hcopies⟩
  | copying copies back =>
    rcases hknows with ⟨hroom, htarget, hwithin, hbytes⟩
    cases copies with
    | nil =>
      -- the record is complete: the message is in the ring from here on
      cases hok
      refine ⟨[buf], .inr rfl, ?_, trivial, rfl, rfl, rfl, rfl⟩
      exact h.append hroom.1 hroom.2.1 hroom.2.2 rfl rfl htarget h.bytes hbytes
    | cons copy copies =>
      rcases copy with ⟨dst, bytes⟩
      rcases bind_ok.1 hok with ⟨r₁, hcopy, hok⟩
      cases hok
      obtain rfl := copyIn_eq hcopy
      have hfree : (records ms).length + (4 + buf.length) ≤ r.size := hroom.2.2.le
      have hmine := hwithin (dst, bytes) (by simp)
      rw [h.back] at hmine
      have hold := getCyc_put_before r.mem h.front_le hfree hmine
      refine ⟨[], .inl rfl, ?_, ?_, rfl, rfl, rfl, rfl⟩
      · rw [List.append_nil]
        exact ⟨h.front_le, h.back, h.room, hold.trans h.bytes, h.body⟩
      · rw [List.append_nil]
        exact ⟨hroom, htarget, fun copy hcopy => hwithin copy (by simp [hcopy]), hbytes⟩
  | readSize =>
    cases hok
    exact ⟨[], .inl rfl, hsame, trivial, rfl, rfl, rfl, rfl⟩
  | setSize size =>
    cases hok
    obtain rfl : size = r.elementSize := hcounts
    exact ⟨[], .inl rfl, hsame.setSize _, trivial, rfl, rfl, rfl, rfl⟩

/-- One access of a `Pop`: a message may be taken off, and is counted or owed. -/
theorem popStep_spec {r r' : RingBuffer} {ms : List (List UInt8)} (h : Stores r ms)
    {pc pc' : PopPc} {res : Option (Option (List UInt8))} (hknows : pc.Knows r ms)
    (hfits : Shared.LengthFits r pc) (hcounts : Shared.PopCounts r pc)
    (hok : popStep r pc = .ok (r', pc', res)) :
    ∃ gone ms', ms = gone ++ ms' ∧ Stores r' ms' ∧ pc'.Knows r' ms' ∧ r'.size = r.size ∧
      r'.mem = r.mem ∧ r'.backOffset = r.backOffset ∧
      r'.frontOffset = adv r.size r.frontOffset (records gone).length ∧
      gone.length + pc.owes = pc'.owes + (if res.join.isSome then 1 else 0) ∧
      (res.join.isSome = true → r'.elementSize = (r.elementSize + (2 ^ 64 - 1)) % 2 ^ 64) ∧
      (res.join.isSome = false → r'.elementSize = r.elementSize) := by
  have hstay : r.frontOffset = adv r.size r.frontOffset (records []).length :=
    (adv_zero h.front_le).symm
  cases pc with
  | idle =>
    cases hok
    exact ⟨[], ms, rfl, h, trivial, rfl, rfl, rfl, hstay, rfl, by simp, fun _ => rfl⟩
  | emptyFront =>
    cases hok
    exact ⟨[], ms, rfl, h, rfl, rfl, rfl, rfl, hstay, rfl, by simp, fun _ => rfl⟩
  | emptyBack front =>
    obtain rfl : front = r.frontOffset := hknows
    rw [popStep] at hok
    split at hok
    · cases hok
      exact ⟨[], ms, rfl, h, trivial, rfl, rfl, rfl, hstay, rfl, by simp, fun _ => rfl⟩
    · rename_i hne
      cases hok
      refine ⟨[], ms, rfl, h, ⟨?_, hfits hne⟩, rfl, rfl, rfl, hstay, rfl, by simp, fun _ => rfl⟩
      intro hnil
      exact hne (of_decide_eq_true (h.empty_iff.2 hnil))
  | readFront =>
    cases hok
    exact ⟨[], ms, rfl, h, ⟨rfl, hknows⟩, rfl, rfl, rfl, hstay, rfl, by simp, fun _ => rfl⟩
  | readEmptyFront front =>
    cases hok
    exact ⟨[], ms, rfl, h, ⟨hknows.1, rfl, hknows.2⟩, rfl, rfl, rfl, hstay, rfl, by simp,
      fun _ => rfl⟩
  | readEmptyBack front front' =>
    rcases hknows with ⟨hfront, rfl, hhead⟩
    rw [popStep] at hok
    split at hok
    · -- the ring is not empty
      rename_i heq
      exact absurd (h.empty_iff.1 (decide_eq_true heq)) hhead.1
    · cases hok
      exact ⟨[], ms, rfl, h, ⟨hfront, hhead⟩, rfl, rfl, rfl, hstay, rfl, by simp, fun _ => rfl⟩
  | lengthFront front =>
    cases hok
    exact ⟨[], ms, rfl, h, ⟨hknows.1, rfl, hknows.2⟩, rfl, rfl, rfl, hstay, rfl, by simp,
      fun _ => rfl⟩
  | lengthEmptyFront front front' =>
    cases hok
    exact ⟨[], ms, rfl, h, hknows, rfl, rfl, rfl, hstay, rfl, by simp, fun _ => rfl⟩
  | lengthEmptyBack front front' front'' =>
    rcases bind_ok.1 hok with ⟨_, hne, hok⟩
    cases hok
    rcases hknows with ⟨hfront, rfl, hhead⟩
    have hone : lengthCopies r.size r.frontOffset = [(r.frontOffset, 4)] := if_pos hhead.2
    exact ⟨[], ms, rfl, h, ⟨hfront, hhead, .inl ⟨hfront ▸ hone, rfl⟩⟩, rfl, rfl, rfl, hstay, rfl,
      by simp, fun _ => rfl⟩
  | lengthCopying front copies len =>
    rcases hknows with ⟨rfl, hhead, hlen⟩
    rcases List.exists_cons_of_ne_nil hhead.1 with ⟨m, ms, rfl⟩
    rcases h.head with ⟨hbytes, hroom⟩
    rcases hlen with ⟨rfl, rfl⟩ | ⟨rfl, m', hm', rfl⟩
    · rcases bind_ok.1 hok with ⟨bytes, hcopy, hok⟩
      cases hok
      refine ⟨[], _, rfl, h, ⟨rfl, hhead, .inr ⟨rfl, m, rfl, ?_⟩⟩, rfl, rfl, rfl, hstay, rfl,
        by simp,
        fun _ => rfl⟩
      rw [getCyc_append h.front_le (by omega), getCyc_eq_get hhead.2] at hbytes
      rw [copyOut_ok hhead.2] at hcopy
      rw [List.nil_append, ← Except.ok.inj hcopy]
      exact (List.append_inj hbytes (by simp)).1
    · obtain rfl : m = m' := Option.some.inj hm'
      rcases h.body m (by simp) with ⟨hpos, hmax⟩
      have hint : intOfBytes (intBytes m.length) = m.length :=
        intOfBytes_intBytes (by unfold kMaxBufferBodyLength at hmax; omega)
      have hk : kBufferHeaderLength = 4 := rfl
      have hle := hhead.2
      rcases bind_ok.1 hok with ⟨_, -, hok⟩
      rcases bind_ok.1 hok with ⟨_, -, hok⟩
      cases hok
      refine ⟨[], _, rfl, h, ⟨m, rfl, ?_⟩, rfl, rfl, rfl, hstay, rfl, by simp, fun _ => rfl⟩
      rw [hint, Int.toNat_natCast]
      simp only [readCopies, adv]
      split_ifs <;> simp only [] <;> omega
  | copying copies buf front =>
    rcases hknows with ⟨m, hm, rfl⟩
    cases copies with
    | nil =>
      -- the front goes behind the record: the message is off from here on
      cases hok
      cases ms with
      | nil => cases hm
      | cons m' ms =>
        obtain rfl : m' = m := Option.some.inj hm
        refine ⟨[m'], ms, rfl, h.tail rfl rfl rfl rfl, rfl, rfl, rfl, rfl, ?_, rfl, by simp,
          fun _ => rfl⟩
        simp [setFront]
    | cons copy copies =>
      rcases copy with ⟨src, n⟩
      rcases bind_ok.1 hok with ⟨bytes, -, hok⟩
      cases hok
      exact ⟨[], ms, rfl, h, ⟨m, hm, rfl⟩, rfl, rfl, rfl, hstay, rfl, by simp, fun _ => rfl⟩
  | readSize buf =>
    cases hok
    exact ⟨[], ms, rfl, h, hknows, rfl, rfl, rfl, hstay, rfl, by simp, fun _ => rfl⟩
  | setSize buf size =>
    obtain rfl : size = r.elementSize := hcounts
    rcases Option.isSome_iff_exists.1 hknows with ⟨m, rfl⟩
    rcases Prod.mk.inj (Except.ok.inj hok) with ⟨hr, hres⟩
    rcases Prod.mk.inj hres with ⟨rfl, rfl⟩
    refine ⟨[], ms, rfl, hr ▸ h.setSize _, trivial, ?_, ?_, ?_, ?_, rfl, fun _ => ?_, by simp⟩
    all_goals rw [← hr]
    · rw [setSize_size]
    · rw [setSize_mem]
    · rw [setSize_backOffset]
    · rw [setSize_frontOffset, ← hstay]
    · rw [setSize_elementSize]

/-! ## Runs -/

namespace Shared

/-- The region holds the messages `ms`, as both processes know it, and the count differs
from their number by what the processes owe. -/
structure Consistent (s : Shared) (ms : List (List UInt8)) : Prop where
  /-- the records of the messages lie between the offsets -/
  stores : Stores s.ring ms
  /-- the producer knows what it needs of its `Push` -/
  producer : ∃ buf, s.producer.Knows s.ring ms buf
  /-- the consumer knows what it needs of its `Pop` -/
  consumer : s.consumer.Knows s.ring ms
  /-- each message that was accepted has been popped or is in the ring, but for those that a
  call is just adding or taking -/
  messages : s.accepted + s.producer.owes = s.popped + s.consumer.owes + ms.length
  /-- the count is exact but for what the two calls are about to store -/
  count : (s.ring.elementSize + s.popped) % 2 ^ 64 = s.accepted % 2 ^ 64
  count_lt : s.ring.elementSize < 2 ^ 64

theorem consistent_new (size : ℕ) (mem : ℕ → UInt8) (hpos : kExtraSpace ≤ size)
    (hlt : size < 2 ^ 63) : Consistent (new size mem hpos hlt) [] :=
  ⟨(holds_new size mem hpos hlt).stores, ⟨[], trivial⟩, trivial, rfl, rfl, Nat.two_pow_pos 64⟩

/-- A step of the producer. -/
theorem Consistent.produce {s : Shared} {ms : List (List UInt8)} (h : Consistent s ms)
    (hguard : Undisturbed s .produce) {s' : Shared} {out : Unit}
    (hok : step s .produce = .ok (s', out)) : ∃ ms, Consistent s' ms := by
  rcases bind_ok.1 hok with ⟨⟨r, pc, res⟩, hstep, hok⟩
  cases hok
  rcases h.producer with ⟨buf, hproducer⟩
  rcases pushStep_spec h.stores hproducer hguard.1 hguard.2 hstep with
    ⟨more, -, hstores, hpc, hsize, hfront, howes, hcount⟩
  have hmessages := h.messages
  have hold := h.count
  have hlt := h.count_lt
  refine ⟨ms ++ more, hstores, ⟨buf, hpc⟩, h.consumer.of_push more hsize hfront, ?_, ?_, ?_⟩
  · show s.accepted + (if res = some true then 1 else 0) + pc.owes =
      s.popped + s.consumer.owes + (ms ++ more).length
    rw [List.length_append]
    omega
  · show (r.elementSize + s.popped) % 2 ^ 64 =
      (s.accepted + if res = some true then 1 else 0) % 2 ^ 64
    -- the last access counts the message, and returns
    by_cases hres : res = some true
    · rw [if_pos hres] at hcount ⊢
      omega
    · rw [if_neg hres] at hcount ⊢
      omega
  · show r.elementSize < 2 ^ 64
    split at hcount <;> omega

/-- A step of the consumer. -/
theorem Consistent.consume {s : Shared} {ms : List (List UInt8)} (h : Consistent s ms)
    (hguard : Undisturbed s .consume) {s' : Shared} {out : Unit}
    (hok : step s .consume = .ok (s', out)) : ∃ ms, Consistent s' ms := by
  rcases bind_ok.1 hok with ⟨⟨r, pc, res⟩, hstep, hok⟩
  cases hok
  rcases h.producer with ⟨buf, hproducer⟩
  rcases popStep_spec h.stores h.consumer hguard.1 hguard.2 hstep with
    ⟨gone, ms', rfl, hstores, hpc, hsize, hmem, hback, hfront, howes, hdone, hgoing⟩
  have hmessages := h.messages
  rw [List.length_append] at hmessages
  have hold := h.count
  have hlt := h.count_lt
  refine ⟨ms', hstores, ⟨buf, hproducer.of_pop hsize hmem hback hfront⟩, hpc, ?_, ?_, ?_⟩
  · show s.accepted + s.producer.owes =
      s.popped + (if res.join.isSome then 1 else 0) + pc.owes + ms'.length
    omega
  · show (r.elementSize + (s.popped + if res.join.isSome then 1 else 0)) % 2 ^ 64 =
      s.accepted % 2 ^ 64
    -- the last access counts the message off, and returns it
    by_cases hres : res.join.isSome = true
    · have hcount := hdone hres
      rw [if_pos hres]
      omega
    · have hcount := hgoing (by simpa using hres)
      rw [if_neg hres]
      omega
  · show r.elementSize < 2 ^ 64
    by_cases hres : res.join.isSome = true
    · have hcount := hdone hres
      omega
    · have hcount := hgoing (by simpa using hres)
      omega

/-- Every undisturbed access keeps ring, messages and calls in flight together. -/
theorem step_consistent (s : Shared) (a : Act) (s' : Shared) (out : Unit)
    (h : ∃ ms, Consistent s ms) (hguard : Undisturbed s a) (hok : step s a = .ok (s', out)) :
    ∃ ms, Consistent s' ms := by
  rcases h with ⟨ms, h⟩
  cases a with
  | push buf =>
    rw [step] at hok
    split at hok
    · rename_i hidle
      rcases bind_ok.1 hok with ⟨_, hpos, hok⟩
      cases hok
      have hmessages := h.messages
      rw [hidle] at hmessages
      have hpos : 0 < buf.length := check_ok.1 hpos
      -- a call that begins has touched nothing yet
      exact ⟨ms, h.stores, ⟨buf, rfl, hpos⟩, h.consumer, hmessages, h.count, h.count_lt⟩
    · cases hok
      exact ⟨ms, h⟩
  | produce => exact h.produce hguard hok
  | pop =>
    rw [step] at hok
    split at hok
    · rename_i hidle
      cases hok
      have hmessages := h.messages
      rw [hidle] at hmessages
      exact ⟨ms, h.stores, h.producer, trivial, hmessages, h.count, h.count_lt⟩
    · cases hok
      exact ⟨ms, h⟩
  | consume => exact h.consume hguard hok

/-- In every interleaving in which `Push` and `Pop` fit and neither sets the count after the
other has changed it, whenever both are at rest `element_size` is the number of accepted
pushes less the number of successful pops. -/
theorem count_is_exact (size : ℕ) (mem : ℕ → UInt8) (hpos : kExtraSpace ≤ size)
    (hlt : size < 2 ^ 63) (acts : List Act)
    (h : Guarded step Undisturbed (new size mem hpos hlt) acts) (s : Shared) (outs : List Unit)
    (hrun : run step (new size mem hpos hlt) acts = .ok (s, outs))
    (hproducer : s.producer = .idle) (hconsumer : s.consumer = .idle) :
    s.ring.elementSize + s.popped = s.accepted := by
  obtain ⟨ms, hms⟩ := inv_of_run (fun s => ∃ ms, Consistent s ms) step_consistent
    ⟨[], consistent_new size mem hpos hlt⟩ h hrun
  have hmessages := hms.messages
  rw [hproducer, hconsumer] at hmessages
  have hmessages : s.accepted = s.popped + ms.length := hmessages
  have hcount := hms.count
  have hcount_lt := hms.count_lt
  have hlength := hms.stores.length_lt
  omega

/-- A `Pop` while a second `Push` is in its copies. -/
theorem count_is_exact_run :
    ∃ s outs, run step (new 64 (fun _ => 0) (by decide) (by decide))
        (.push [1] :: List.replicate 9 .produce ++ .push [2] :: List.replicate 5 .produce ++
          .pop :: List.replicate 14 .consume ++ List.replicate 4 .produce) = .ok (s, outs) ∧
      s.ring.elementSize + s.popped = s.accepted := by
  have hidle : (run step (new 64 (fun _ => 0) (by decide) (by decide))
      (.push [1] :: List.replicate 9 .produce ++ .push [2] :: List.replicate 5 .produce ++
        .pop :: List.replicate 14 .consume ++ List.replicate 4 .produce)).map
      (fun r => (r.1.producer, r.1.consumer)) = .ok (.idle, .idle) := by decide +kernel
  rcases map_ok.1 hidle with ⟨⟨s, outs⟩, hrun, hidle⟩
  rcases Prod.mk.inj hidle with ⟨hproducer, hconsumer⟩
  exact ⟨s, outs, hrun, count_is_exact 64 (fun _ => 0) (by decide) (by decide) _
    (by decide +kernel) s outs hrun hproducer hconsumer⟩

/-- The consumer has read the count `1` and is about to set `0` when the producer pushes a
second message and sets `2`. -/
theorem lost_update :
    ∃ s outs, run step (new 64 (fun _ => 0) (by decide) (by decide))
        (.push [1] :: List.replicate 9 .produce ++ .pop :: List.replicate 13 .consume ++
          .push [2] :: List.replicate 9 .produce ++ [.consume]) = .ok (s, outs) ∧
      s.producer = .idle ∧ s.consumer = .idle ∧ s.accepted = 2 ∧ s.popped = 1 ∧
      s.ring.elementSize = 0 ∧ s.ring.elementSize + s.popped ≠ s.accepted := by
  have hlost : (run step (new 64 (fun _ => 0) (by decide) (by decide))
      (.push [1] :: List.replicate 9 .produce ++ .pop :: List.replicate 13 .consume ++
        .push [2] :: List.replicate 9 .produce ++ [.consume])).map
      (fun r => (r.1.producer, r.1.consumer, r.1.accepted, r.1.popped, r.1.ring.elementSize)) =
      .ok (.idle, .idle, 2, 1, 0) := by decide +kernel
  rcases map_ok.1 hlost with ⟨⟨s, outs⟩, hrun, hlost⟩
  simp only [Prod.mk.injEq] at hlost
  rcases hlost with ⟨hproducer, hconsumer, haccepted, hpopped, hcount⟩
  refine ⟨s, outs, hrun, hproducer, hconsumer, haccepted, hpopped, hcount, ?_⟩
  rw [haccepted, hpopped, hcount]
  decide

end Shared

end FxServer.RingBuffer
