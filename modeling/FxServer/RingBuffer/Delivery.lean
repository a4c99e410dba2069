import FxServer.RingBuffer.Shared

/-!
# FxServer.RingBuffer.Delivery — the consumer gets what the producer has sent

Neither `Push` nor `Pop` looks at `element_size`, so a count that the two processes spoil
does no harm to the messages. A message enters the ring with the store of the back, and
leaves it with the store of the front, when all of it has been copied.

The invariant speaks of both processes at once. What the producer has copied and not published
lies behind the messages, where the consumer does not look, and what the consumer has copied and
not taken off is still in the ring, where the producer does not write.

* `PopPc.Carries` — what has been copied is the start of the oldest message, and the copies
  that are left would give its rest, whatever the producer does meanwhile.
* `delivers_in_order` — in every interleaving no access fails, and the messages that are
  received are those that are sent, in order and whole.
-/

namespace FxServer.RingBuffer

open Machine Cyclic

/-- Two processes on a region, with the messages of their calls. -/
structure Traffic where
  shared : Shared
  /-- the message of the last call of `Push` -/
  current : List UInt8
  /-- the messages of the calls of `Push` that have returned `true` -/
  sent : List (List UInt8)
  /-- the messages that `Pop` has returned -/
  received : List (List UInt8)

/-! ## What is on its way -/

/-- The copies, one behind the other. -/
def gather (mem : ℕ → UInt8) (copies : List (ℕ × ℕ)) : List UInt8 :=
  copies.flatMap fun copy => get mem copy.1 copy.2

/-- The message of a `Push` that is in the ring already. -/
def PushPc.arriving (buf : List UInt8) (pc : PushPc) : List (List UInt8) :=
  List.replicate pc.owes buf

/-- The message for which the next access of a `Push` returns `true`. -/
def PushPc.returns (buf : List UInt8) : PushPc → List (List UInt8)
  | .setSize _ => [buf]
  | _ => []

/-- What a `Pop` holds that it has taken off the ring. -/
def PopPc.inHand : PopPc → List (List UInt8)
  | .readSize (some buf) | .setSize (some buf) _ => [buf]
  | _ => []

/-- What the next access returns. -/
def PopPc.returns : PopPc → List (List UInt8)
  | .setSize (some buf) _ => [buf]
  | _ => []

/-- The messages that the next access takes off. -/
def PopPc.takes : PopPc → ℕ
  | .copying [] _ _ => 1
  | _ => 0

/-- What a `Pop` has read, besides what it `Knows`. -/
def PopPc.Carries (r : RingBuffer) (ms : List (List UInt8)) : PopPc → Prop
  | .lengthEmptyBack _ _ front => front = r.frontOffset
  | .copying copies buf _ => ∃ m, ms.head? = some m ∧
    buf.length ≤ m.length ∧ buf = m.take buf.length ∧
    (∀ copy ∈ copies, copy.1 + copy.2 ≤ r.size) ∧
    ∀ mem, gather mem copies = getCyc r.size mem (adv r.size r.frontOffset (4 + buf.length))
      (m.length - buf.length)
  | _ => True

section Carries

variable {r r' : RingBuffer} {ms : List (List UInt8)} {pc : PopPc}

/-- What the producer stores is behind the messages. -/
theorem PopPc.Carries.of_push (h : pc.Carries r ms) (more : List (List UInt8))
    (hsize : r'.size = r.size) (hfront : r'.frontOffset = r.frontOffset) :
    pc.Carries r' (ms ++ more) := by
  cases pc with
  | lengthEmptyBack front front' front'' => exact h.trans hfront.symm
  | copying copies buf front =>
    rcases h with ⟨m, hm, hrest⟩
    refine ⟨m, ?_, ?_⟩
    · rw [List.head?_append, hm]
      rfl
    · rw [hsize, hfront]
      exact hrest
  | idle | emptyFront | emptyBack | readFront | readEmptyFront | readEmptyBack | lengthFront
  | lengthEmptyFront | lengthCopying | readSize | setSize => trivial

/-- The copies of `Read` give the message behind its length. -/
theorem gather_readCopies (hfront : r.frontOffset + 4 ≤ r.size) (n : ℕ) (hn : 4 + n < r.size) :
    (∀ copy ∈ (readCopies r.size r.frontOffset n).1, copy.1 + copy.2 ≤ r.size) ∧
      ∀ mem, gather mem (readCopies r.size r.frontOffset n).1 =
        getCyc r.size mem (adv r.size r.frontOffset 4) n := by
  have hk : kBufferHeaderLength = 4 := rfl
  have hadv : adv r.size r.frontOffset 4 = r.frontOffset + 4 := if_pos hfront
  unfold readCopies
  rw [hk, hadv]
  simp only
  rw [if_neg (by omega)]
  split
  · refine ⟨?_, fun mem => ?_⟩
    · simp only [List.mem_cons, List.not_mem_nil, or_false, forall_eq_or_imp, forall_eq]
      omega
    · rw [← get_append_get_eq_getCyc hfront (by omega) (by omega)]
      simp [gather]
  · refine ⟨?_, fun mem => ?_⟩
    · simp only [List.mem_cons, List.not_mem_nil, or_false, forall_eq]
      omega
    · rw [getCyc_eq_get (by omega)]
      simp [gather]

end Carries

/-! ## One access -/

section Access

variable {r : RingBuffer} {ms : List (List UInt8)}

/-- An access of a `Push` does not fail, and a message is returned for when the count is set. -/
theorem pushStep_ok (h : Stores r ms) {pc : PushPc} {buf : List UInt8}
    (hknows : pc.Knows r ms buf) : ∃ r' pc' res, pushStep r pc = .ok (r', pc', res) ∧
      (res = some true ↔ ∃ size, pc = .setSize size) := by
  cases pc with
  | spaceBack buf' front =>
    rw [pushStep]
    split <;> exact ⟨_, _, _, rfl, by simp⟩
  | writeBack buf' =>
    -- the assertion of `Write` on the back offset
    rw [pushStep, check_true h.back_le]
    exact ⟨_, _, _, rfl, by simp⟩
  | copying copies back =>
    cases copies with
    | nil => exact ⟨_, _, _, rfl, by simp⟩
    | cons copy copies =>
      rcases copy with ⟨dst, bytes⟩
      -- every copy ends within the region
      have hend := (hknows.2.2.1 (dst, bytes) (by simp)).1
      rw [pushStep, copyIn_ok hend]
      exact ⟨_, _, _, rfl, by simp⟩
  | idle | spaceFront | writeFront | readSize => exact ⟨_, _, _, rfl, by simp⟩
  | setSize size => exact ⟨_, _, _, rfl, by simp⟩

/-- A copy of `Read` takes the next bytes of the message. -/
theorem PopPc.Carries.copy {src n front : ℕ} {copies : List (ℕ × ℕ)} {buf : List UInt8}
    (h : Stores r ms) (hc : (PopPc.copying ((src, n) :: copies) buf front).Carries r ms) :
    (PopPc.copying copies (buf ++ get r.mem src n) front).Carries r ms := by
  rcases hc with ⟨m, hm, hle, hbuf, hends, hrest⟩
  have hlen : n + (gather r.mem copies).length = m.length - buf.length := by
    have hall := congrArg List.length (hrest r.mem)
    simpa [gather] using hall
  cases ms with
  | nil => cases hm
  | cons m' ms =>
    obtain rfl : m' = m := Option.some.inj hm
    rcases h.head with ⟨hbytes, hroom⟩
    have hpos := adv_le h.front_le (show 4 + buf.length ≤ r.size by omega)
    -- the copies that are left, apart from this one
    have hsplit : ∀ mem, get mem src n = getCyc r.size mem
          (adv r.size r.frontOffset (4 + buf.length)) n ∧
        gather mem copies = getCyc r.size mem
          (adv r.size r.frontOffset (4 + (buf ++ get r.mem src n).length))
          (m'.length - (buf ++ get r.mem src n).length) := by
      intro mem
      have hall := hrest mem
      rw [show m'.length - buf.length = n + (m'.length - (buf.length + n)) by omega,
        getCyc_append hpos (by omega), adv_adv h.front_le (by omega)] at hall
      rw [List.length_append, length_get, ← Nat.add_assoc]
      exact List.append_inj hall (by simp)
    -- this copy reads what the message has there
    have hread : get r.mem src n = (m'.drop buf.length).take n := by
      rw [(hsplit r.mem).1]
      have hrecord : getCyc r.size r.mem r.frontOffset
          (4 + buf.length + (n + (m'.length - (buf.length + n)))) = encode m' := by
        rw [← hbytes]
        congr 1
        omega
      rw [getCyc_append h.front_le (by omega), getCyc_append hpos (by omega)] at hrecord
      have hdrop := congrArg (fun bytes => (bytes.drop (4 + buf.length)).take n) hrecord
      have hlength : (intBytes m'.length).drop (4 + buf.length) = [] :=
        List.drop_eq_nil_of_le (by simp [intBytes])
      simpa [encode, List.drop_append, hlength] using hdrop
    refine ⟨m', rfl, ?_, ?_, fun copy hcopy => hends copy (by simp [hcopy]),
      fun mem => (hsplit mem).2⟩
    · rw [List.length_append, length_get]
      omega
    · rw [List.length_append, length_get, List.take_add, ← hread, ← hbuf]

/-- An access of a `Pop` does not fail, and it goes on to carry the message. -/
theorem popStep_carries (h : Stores r ms) {pc : PopPc} (hknows : pc.Knows r ms)
    (hcarries : pc.Carries r ms) : ∃ r' pc' res, popStep r pc = .ok (r', pc', res) ∧
      pc'.Carries r' (ms.drop pc.takes) ∧
      pc.inHand ++ ms.take pc.takes = pc.returns ++ pc'.inHand ∧
      pc.takes + pc.owes = pc'.owes + (if res.join.isSome then 1 else 0) := by
  cases pc with
  | idle | emptyFront | readFront | readEmptyFront | lengthFront =>
    exact ⟨_, _, _, rfl, trivial, rfl, rfl⟩
  | emptyBack front =>
    rw [popStep]
    split <;> exact ⟨_, _, _, rfl, trivial, rfl, rfl⟩
  | readEmptyBack front front' =>
    rcases hknows with ⟨-, rfl, hhead⟩
    have hne : r.frontOffset ≠ r.backOffset := fun heq =>
      hhead.1 (h.empty_iff.1 (decide_eq_true heq))
    rw [popStep, if_neg hne]
    exact ⟨_, _, _, rfl, trivial, rfl, rfl⟩
  | lengthEmptyFront front front' => exact ⟨_, _, _, rfl, rfl, rfl, rfl⟩
  | lengthEmptyBack front front' front'' =>
    rcases hknows with ⟨-, -, hhead⟩
    obtain rfl : front'' = r.frontOffset := hcarries
    have hne : r.frontOffset ≠ r.backOffset := fun heq =>
      hhead.1 (h.empty_iff.1 (decide_eq_true heq))
    rw [popStep, check_true hne]
    exact ⟨_, _, _, rfl, trivial, rfl, rfl⟩
  | lengthCopying front copies len =>
    rcases hknows with ⟨rfl, hhead, ⟨rfl, rfl⟩ | ⟨rfl, m, hm, rfl⟩⟩
    · rw [popStep, copyOut_ok hhead.2]
      exact ⟨_, _, _, rfl, trivial, rfl, rfl⟩
    · -- the length is that of the message at the head
      cases ms with
      | nil => cases hm
      | cons m' ms =>
        obtain rfl : m' = m := Option.some.inj hm
        rcases h.body m' (by simp) with ⟨hpos, hmax⟩
        have hint : intOfBytes (intBytes m'.length) = m'.length :=
          intOfBytes_intBytes (by unfold kMaxBufferBodyLength at hmax; omega)
        have hroom := h.head.2
        rcases gather_readCopies hhead.2 m'.length (by omega) with ⟨hends, hall⟩
        rw [popStep, check_true (by omega), check_true (by omega)]
        refine ⟨_, _, _, rfl, ?_, rfl, rfl⟩
        rw [hint]
        exact ⟨m', rfl, by simp, by simp, hends, hall⟩
  | copying copies buf front =>
    cases copies with
    | nil =>
      -- nothing is left to copy: the whole message is in hand
      rcases hcarries with ⟨m, hm, hle, hbuf, -, hrest⟩
      have hlen := congrArg List.length (hrest r.mem)
      obtain rfl : buf = m := by
        rw [hbuf]
        refine List.take_of_length_le ?_
        simp only [gather, List.flatMap_nil, List.length_nil, length_getCyc] at hlen
        omega
      refine ⟨_, _, _, rfl, trivial, ?_, rfl⟩
      cases ms with
      | nil => cases hm
      | cons m' ms =>
        obtain rfl : m' = buf := Option.some.inj hm
        rfl
    | cons copy copies =>
      rcases copy with ⟨src, n⟩
      obtain ⟨m, -, -, -, hends, -⟩ := id hcarries
      rw [popStep, copyOut_ok (hends (src, n) (by simp))]
      exact ⟨_, _, _, rfl, hcarries.copy h, rfl, rfl⟩
  | readSize buf =>
    cases buf <;> exact ⟨_, _, _, rfl, trivial, by simp [PopPc.inHand, PopPc.returns, PopPc.takes],
      rfl⟩
  | setSize buf size =>
    rcases Option.isSome_iff_exists.1 hknows with ⟨m, rfl⟩
    exact ⟨_, _, _, rfl, trivial, rfl, rfl⟩

/-- An access of a `Pop` that carries the message, and what it leaves in the ring: the count is
not looked at. -/
theorem popStep_stores (h : Stores r ms) {pc : PopPc} (hknows : pc.Knows r ms)
    (hcarries : pc.Carries r ms) (hfits : Shared.LengthFits r pc) :
    ∃ r' pc' res, popStep r pc = .ok (r', pc', res) ∧
      Stores r' (ms.drop pc.takes) ∧ pc'.Knows r' (ms.drop pc.takes) ∧
      pc'.Carries r' (ms.drop pc.takes) ∧
      pc.inHand ++ ms.take pc.takes = pc.returns ++ pc'.inHand ∧
      r'.size = r.size ∧ r'.mem = r.mem ∧ r'.backOffset = r.backOffset ∧
      r'.frontOffset = adv r.size r.frontOffset (records (ms.take pc.takes)).length := by
  rcases popStep_carries h hknows hcarries with ⟨r', pc', res, hok, hc, hhand, howes⟩
  refine ⟨r', pc', res, hok, ?_⟩
  by_cases hpc : ∃ buf size, pc = .setSize buf size
  · rcases hpc with ⟨buf, size, rfl⟩
    -- the last access: the count changes, and the message is returned
    have hstay : r.frontOffset = adv r.size r.frontOffset 0 := (adv_zero h.front_le).symm
    rcases Prod.mk.inj (Except.ok.inj hok) with ⟨hr, hres⟩
    rcases Prod.mk.inj hres with ⟨rfl, -⟩
    rw [← hr]
    exact ⟨h.setSize _, trivial, trivial, hhand, setSize_size .., setSize_mem ..,
      setSize_backOffset .., (setSize_frontOffset ..).trans hstay⟩
  · have hcounts : Shared.PopCounts r pc := by
      unfold Shared.PopCounts
      split
      · exact absurd ⟨_, _, rfl⟩ hpc
      · trivial
    rcases popStep_spec h hknows hfits hcounts hok with
      ⟨gone, ms', rfl, hstores, hpc', hsize, hmem, hback, hfront, htaken, -⟩
    -- any other access takes from the ring what its position says
    have hlen : pc.takes = gone.length := by omega
    rw [hlen, List.take_left] at hhand ⊢
    rw [hlen, List.drop_left] at hc
    rw [List.drop_left]
    exact ⟨hstores, hpc', hc, hhand, hsize, hmem, hback, hfront⟩

/-- An access of a `Push` does not fail; it may add the message, and the count is not looked at. -/
theorem pushStep_stores (h : Stores r ms) {pc : PushPc} {buf : List UInt8}
    (hknows : pc.Knows r ms buf) (hfits : Shared.PushFits r pc) :
    ∃ r' pc' res more, pushStep r pc = .ok (r', pc', res) ∧
      Stores r' (ms ++ more) ∧ pc'.Knows r' (ms ++ more) buf ∧
      pc.arriving buf ++ more = pc.returns buf ++ pc'.arriving buf ∧
      r'.size = r.size ∧ r'.frontOffset = r.frontOffset := by
  rcases pushStep_ok h hknows with ⟨r', pc', res, hok, hres⟩
  refine ⟨r', pc', res, ?_⟩
  by_cases hpc : ∃ size, pc = .setSize size
  · rcases hpc with ⟨size, rfl⟩
    cases hok
    refine ⟨[], rfl, ?_, trivial, rfl, rfl, rfl⟩
    rw [List.append_nil]
    exact h.setSize _
  · have hcounts : Shared.PushCounts r pc := by
      unfold Shared.PushCounts
      split
      · exact absurd ⟨_, rfl⟩ hpc
      · trivial
    -- before the last access nothing is returned
    have hnone : pc.returns buf = [] := by
      unfold PushPc.returns
      split
      · exact absurd ⟨_, rfl⟩ hpc
      · rfl
    rcases pushStep_spec h hknows hfits hcounts hok with
      ⟨more, hmore, hstores, hpc', hsize, hfront, howes, -⟩
    rw [if_neg fun h => hpc (hres.1 h)] at howes
    -- what lands in the ring is the message itself, once
    have hrep : more = List.replicate more.length buf := by
      rcases hmore with rfl | rfl <;> rfl
    refine ⟨more, hok, hstores, hpc', ?_, hsize, hfront⟩
    calc pc.arriving buf ++ more
        = List.replicate pc.owes buf ++ List.replicate more.length buf := by
          rw [← hrep, PushPc.arriving]
      _ = List.replicate pc'.owes buf := by
          rw [List.replicate_append_replicate]
          congr 1
          omega
      _ = pc.returns buf ++ pc'.arriving buf := by rw [hnone, PushPc.arriving, List.nil_append]

end Access

/-! ## Runs -/

namespace Traffic

open Shared

/-- A fresh region. -/
def new (size : ℕ) (mem : ℕ → UInt8) (hpos : kExtraSpace ≤ size) (hlt : size < 2 ^ 63) : Traffic :=
  ⟨.new size mem hpos hlt, [], [], []⟩

/-- The messages behind a step that leads to `shared`: `Push` returns `true`, and `Pop` a message,
when they have set the count. -/
def returned (t : Traffic) (shared : Shared) (a : Act) : Traffic where
  shared
  current := match a, t.shared.producer with
    | .push buf, .idle => buf
    | _, _ => t.current
  sent := match a with
    | .produce => t.sent ++ t.shared.producer.returns t.current
    | _ => t.sent
  received := match a with
    | .consume => t.received ++ t.shared.consumer.returns
    | _ => t.received

/-- One access of one of the two processes, with the account of messages. -/
def step (t : Traffic) (a : Act) : Except Fault (Traffic × Unit) := do
  let (shared, _) ← t.shared.step a
  .ok (t.returned shared a, ())

/-- `Push` is called with a message, which is only let in where it has room, and `Pop` finds no
length that wraps. -/
def Fits (t : Traffic) : Act → Prop
  | .push buf => 0 < buf.length
  | .produce => PushFits t.shared.ring t.shared.producer
  | .consume => LengthFits t.shared.ring t.shared.consumer
  | .pop => True

instance (t : Traffic) : DecidablePred (Fits t)
  | .push buf => inferInstanceAs (Decidable (0 < buf.length))
  | .produce => inferInstanceAs (Decidable (PushFits t.shared.ring t.shared.producer))
  | .consume => inferInstanceAs (Decidable (LengthFits t.shared.ring t.shared.consumer))
  | .pop => .isTrue trivial

/-- The ring holds the messages `ms`, as both processes know it, and every message is received,
in the hands of `Pop`, or in the ring, in the order in which they were sent. -/
structure InOrder (t : Traffic) (ms : List (List UInt8)) : Prop where
  /-- the ring stores the messages, whatever the count is -/
  stores : Stores t.shared.ring ms
  /-- what the producer has read is still true as far as it goes -/
  producer : t.shared.producer.Knows t.shared.ring ms t.current
  /-- and so is what the consumer has read -/
  consumer : t.shared.consumer.Knows t.shared.ring ms
  /-- what the consumer has copied is the start of the oldest message -/
  carries : t.shared.consumer.Carries t.shared.ring ms
  /-- nothing is lost, repeated or out of order -/
  order : t.received ++ (t.shared.consumer.inHand ++ ms) =
    t.sent ++ t.shared.producer.arriving t.current

theorem inOrder_new (size : ℕ) (mem : ℕ → UInt8) (hpos : kExtraSpace ≤ size)
    (hlt : size < 2 ^ 63) : InOrder (new size mem hpos hlt) [] :=
  ⟨(holds_new size mem hpos hlt).stores, trivial, trivial, trivial, rfl⟩

theorem step_ok {t : Traffic} {a : Act} {shared : Shared} (h : t.shared.step a = .ok (shared, ())) :
    step t a = .ok (t.returned shared a, ()) := by
  rw [step, h]
  rfl

/-- A step of the producer. -/
theorem InOrder.produce {t : Traffic} {ms : List (List UInt8)} (h : InOrder t ms)
    (hfits : Fits t .produce) :
    ∃ t' out, step t .produce = .ok (t', out) ∧ ∃ ms, InOrder t' ms := by
  rcases pushStep_stores h.stores h.producer hfits with
    ⟨r, pc, res, more, hok, hstores, hknows, harriving, hsize, hfront⟩
  have hstep : t.shared.step .produce = .ok ({ t.shared with
      ring := r, producer := pc
      accepted := t.shared.accepted + if res = some true then 1 else 0 }, ()) := by
    rw [Shared.step, hok]
    rfl
  refine ⟨_, (), step_ok hstep, ms ++ more, ?_⟩
  constructor
  · exact hstores
  · exact hknows
  · exact h.consumer.of_push _ hsize hfront
  · exact h.carries.of_push _ hsize hfront
  · show t.received ++ (t.shared.consumer.inHand ++ (ms ++ more)) =
      t.sent ++ t.shared.producer.returns t.current ++ pc.arriving t.current
    -- what arrives in the ring was on its way there
    rw [List.append_assoc, ← harriving, ← List.append_assoc t.sent, ← h.order]
    simp only [List.append_assoc]

/-- A step of the consumer. -/
theorem InOrder.consume {t : Traffic} {ms : List (List UInt8)} (h : InOrder t ms)
    (hfits : Fits t .consume) :
    ∃ t' out, step t .consume = .ok (t', out) ∧ ∃ ms, InOrder t' ms := by
  rcases popStep_stores h.stores h.consumer h.carries hfits with
    ⟨r, pc, res, hok, hstores, hknows, hcarries, hhand, hsize, hmem, hback, hfront⟩
  have hstep : t.shared.step .consume = .ok ({ t.shared with
      ring := r, consumer := pc
      popped := t.shared.popped + if res.join.isSome then 1 else 0 }, ()) := by
    rw [Shared.step, hok]
    rfl
  have hms := List.take_append_drop t.shared.consumer.takes ms
  refine ⟨_, (), step_ok hstep, ms.drop t.shared.consumer.takes, ?_⟩
  constructor
  · exact hstores
  · have hproducer := h.producer
    -- the producer is told of the messages that are gone
    rw [← hms] at hproducer
    exact hproducer.of_pop hsize hmem hback hfront
  · exact hknows
  · exact hcarries
  · show t.received ++ t.shared.consumer.returns ++
      (pc.inHand ++ ms.drop t.shared.consumer.takes) =
        t.sent ++ t.shared.producer.arriving t.current
    rw [← h.order, List.append_assoc, ← List.append_assoc _ pc.inHand, ← hhand, List.append_assoc,
      hms]

/-- Every access by either side keeps the order. -/
theorem step_inOrder (t : Traffic) (a : Act) (h : ∃ ms, InOrder t ms) (hfits : Fits t a) :
    ∃ t' out, step t a = .ok (t', out) ∧ ∃ ms, InOrder t' ms := by
  rcases h with ⟨ms, h⟩
  cases a with
  | push buf =>
    by_cases hidle : t.shared.producer = .idle
    · have hstep : t.shared.step (.push buf) =
          .ok ({ t.shared with producer := .spaceFront buf }, ()) := by
        rw [Shared.step, if_pos hidle, check_true (show 0 < buf.length from hfits)]
        rfl
      refine ⟨_, (), step_ok hstep, ms, ?_⟩
      have horder := h.order
      rw [hidle] at horder
      unfold returned
      rw [hidle]
      exact ⟨h.stores, ⟨rfl, hfits⟩, h.consumer, h.carries, horder⟩
    · -- a `Push` while another one is in flight: the model ignores the call
      have hstep : t.shared.step (.push buf) = .ok (t.shared, ()) := if_neg hidle
      refine ⟨_, (), step_ok hstep, ms, ?_⟩
      have hcurrent : (t.returned t.shared (.push buf)).current = t.current := by
        unfold returned
        split
        · rename_i hpc
          exact absurd hpc hidle
        · rfl
      refine ⟨h.stores, ?_, h.consumer, h.carries, ?_⟩
      · rw [hcurrent]
        exact h.producer
      · rw [hcurrent]
        exact h.order
  | produce => exact h.produce hfits
  | pop =>
    by_cases hidle : t.shared.consumer = .idle
    · have hstep : t.shared.step .pop = .ok ({ t.shared with consumer := .emptyFront }, ()) :=
        if_pos hidle
      have horder := h.order
      rw [hidle] at horder
      exact ⟨_, (), step_ok hstep, ms, h.stores, h.producer, trivial, trivial, horder⟩
    · -- and so with `Pop`
      have hstep : t.shared.step .pop = .ok (t.shared, ()) := if_neg hidle
      exact ⟨_, (), step_ok hstep, ms, h.stores, h.producer, h.consumer, h.carries, h.order⟩
  | consume => exact h.consume hfits

/-- In every interleaving in which `Push` lets in only what has room and `Pop` finds no length that
wraps: no access fails, what has been received is a prefix of what has been sent and of the message
that is landing, and once both are at rest with an empty ring it is all that has been sent. -/
theorem delivers_in_order (size : ℕ) (mem : ℕ → UInt8) (hpos : kExtraSpace ≤ size)
    (hlt : size < 2 ^ 63) (acts : List Act) (h : Guarded step Fits (new size mem hpos hlt) acts) :
    ∃ t outs, run step (new size mem hpos hlt) acts = .ok (t, outs) ∧
      t.received <+: t.sent ++ t.shared.producer.arriving t.current ∧
      (t.shared.producer = .idle → t.received <+: t.sent) ∧
      (t.shared.producer = .idle → t.shared.consumer = .idle → t.shared.ring.empty = true →
        t.received = t.sent) := by
  rcases run_of_inv (fun t => ∃ ms, InOrder t ms) step_inOrder ⟨[], inOrder_new size mem hpos hlt⟩ h
    with ⟨t, outs, hrun, ms, hms⟩
  have horder := hms.order
  refine ⟨t, outs, hrun, ⟨_, horder⟩, fun hproducer => ?_, fun hproducer hconsumer hempty => ?_⟩
  · rw [hproducer] at horder
    exact ⟨_, horder.trans (List.append_nil _)⟩
  · rw [hproducer, hconsumer, hms.stores.empty_iff.1 hempty] at horder
    simpa [PopPc.inHand, PushPc.arriving, PushPc.owes] using horder

/-- The consumer overwrites the count of a second `Push`. Both messages are received, and the count
of the empty ring is `-1`. -/
theorem delivers_in_order_run :
    ∃ t outs, run step (new 64 (fun _ => 0) (by decide) (by decide))
        (.push [1, 2] :: List.replicate 9 .produce ++ .pop :: List.replicate 13 .consume ++
          .push [3] :: List.replicate 9 .produce ++ .consume :: .pop ::
          List.replicate 14 .consume) = .ok (t, outs) ∧
      t.shared.ring.elementSize = 2 ^ 64 - 1 ∧ t.received = t.sent := by
  have hrest : (run step (new 64 (fun _ => 0) (by decide) (by decide))
      (.push [1, 2] :: List.replicate 9 .produce ++ .pop :: List.replicate 13 .consume ++
        .push [3] :: List.replicate 9 .produce ++ .consume :: .pop ::
        List.replicate 14 .consume)).map
      (fun r => (r.1.shared.producer, r.1.shared.consumer, r.1.shared.ring.empty,
        r.1.shared.ring.elementSize)) = .ok (.idle, .idle, true, 2 ^ 64 - 1) := by decide +kernel
  rcases delivers_in_order 64 (fun _ => 0) (by decide) (by decide)
    (.push [1, 2] :: List.replicate 9 .produce ++ .pop :: List.replicate 13 .consume ++
      .push [3] :: List.replicate 9 .produce ++ .consume :: .pop :: List.replicate 14 .consume)
    (by decide +kernel) with ⟨t, outs, hrun, -, -, hall⟩
  rw [hrun] at hrest
  simp only [Except.map, Except.ok.injEq, Prod.mk.injEq] at hrest
  rcases hrest with ⟨hproducer, hconsumer, hempty, hcount⟩
  exact ⟨t, outs, hrun, hcount, hall hproducer hconsumer hempty⟩

end Traffic

end FxServer.RingBuffer
