import FxServer.Buffer
import FxServer.Machine

/-!
# FxServer.Buffer.Queue — a buffer is a queue of bytes

`Contents` says what a buffer is for: the bytes that have been put in since it was cleared last,
and how many of them have been consumed. `Holds` relates a buffer to it, whatever the array looks
like. The buffer clears itself when everything has been consumed; the contents need not know.

The array moves its bytes, grows and clears itself, and none of it is to be seen from outside. So
the relation to the abstract queue mentions the readable bytes only, and each call keeps it by
the one lemma about that call in `FxServer.Buffer`.

* `apply_holds` — one call.
* `byte_queue` — every run of calls that keep to what the buffer offers.
-/

namespace FxServer.Buffer

open Machine

/-- `ReadAndClear` -/
def readAndClear (b : Buffer) : List UInt8 × Buffer := (b.readable, b.clear)

/-! ## Calls -/

/-- A call of a client, or a store at `WriteBegin()`. -/
inductive Op where
  | append (buf : List UInt8)
  /-- bytes are stored at `WriteBegin()`, and `AddBytes` counts `len` of them in -/
  | addBytes (bytes : List UInt8) (len : ℕ)
  | consumeBytes (len : ℕ)
  | readAndClear
  | clear
deriving DecidableEq, Repr

/-- What a call returns. -/
inductive Out where
  | done
  /-- `length_error` -/
  | threw
  | read (bytes : List UInt8)
deriving DecidableEq, Repr

/-- A call. When `resize` throws, `Append` has changed nothing, and the buffer can be used on. -/
def apply (b : Buffer) : Op → Except Fault (Buffer × Out)
  | .append buf =>
    match b.append buf buf.length with
    | .ok b' => .ok (b', .done)
    | .error .exception => .ok (b, .threw)
    | .error fault => .error fault
  | .addBytes bytes len => do
    let b ← (b.fill bytes).addBytes len
    .ok (b, .done)
  | .consumeBytes len => do
    let b ← b.consumeBytes len
    .ok (b, .done)
  | .readAndClear =>
    let (bytes, b) := b.readAndClear
    .ok (b, .read bytes)
  | .clear => .ok (b.clear, .done)

/-- No more is stored than `BytesCanWrite()`, no more counted in than stored, and no more consumed
than `BytesToRead()`. -/
def Legal (b : Buffer) : Op → Prop
  | .addBytes bytes len => bytes.length ≤ b.bytesCanWrite ∧ len ≤ bytes.length
  | .consumeBytes len => len ≤ b.bytesToRead
  | .append _ | .readAndClear | .clear => True

instance (b : Buffer) : DecidablePred (Legal b)
  | .addBytes bytes len =>
    inferInstanceAs (Decidable (bytes.length ≤ b.bytesCanWrite ∧ len ≤ bytes.length))
  | .consumeBytes len => inferInstanceAs (Decidable (len ≤ b.bytesToRead))
  | .append _ | .readAndClear | .clear => .isTrue trivial

/-! ## The queue -/

/-- What has been put in since the last clearing, and how much of it has been consumed. -/
structure Contents where
  put : List UInt8
  consumed : ℕ
deriving DecidableEq, Repr

namespace Contents

def empty : Contents := ⟨[], 0⟩

/-- The bytes that are left. -/
def left (q : Contents) : List UInt8 := q.put.drop q.consumed

/-- The contents behind a call that has returned. -/
def after (q : Contents) : Op → Out → Contents
  | .append _, .threw => q
  | .append buf, _ => { q with put := q.put ++ buf }
  | .addBytes bytes len, _ => { q with put := q.put ++ bytes.take len }
  | .consumeBytes len, _ => { q with consumed := q.consumed + len }
  | .readAndClear, _ | .clear, _ => empty

/-- The contents behind all the calls of a run. -/
def afterAll (q : Contents) : List Op → List Out → Contents
  | op :: ops, out :: outs => (q.after op out).afterAll ops outs
  | _, _ => q

end Contents

/-- The readable bytes are those that are left. -/
structure Holds (b : Buffer) (q : Contents) : Prop where
  /-- the bytes between the indices are those that are left -/
  readable : b.readable = q.left
  /-- no more has been consumed than was put in -/
  consumed_le : q.consumed ≤ q.put.length

theorem holds_empty (b : Buffer) : Holds b.clear .empty := ⟨rfl, Nat.le_refl _⟩

variable {b b' : Buffer} {q : Contents} {op : Op} {out : Out}

/-- More bytes come behind those that are left. -/
theorem Holds.put (h : Holds b q) {bytes : List UInt8}
    (hread : b'.readable = b.readable ++ bytes) : Holds b' { q with put := q.put ++ bytes } := by
  constructor
  · rw [hread, h.readable]
    exact (List.drop_append_of_le_length h.consumed_le).symm
  · rw [List.length_append]
    exact h.consumed_le.trans (Nat.le_add_right _ _)

/-- Consuming takes the same bytes from the buffer and from the queue. -/
theorem Holds.consume (h : Holds b q) {len : ℕ} (hlen : len ≤ b.bytesToRead)
    (hread : b'.readable = b.readable.drop len) :
    Holds b' { q with consumed := q.consumed + len } := by
  have hle := h.consumed_le
  have hleft : b.bytesToRead = q.put.length - q.consumed := by
    rw [← length_readable, h.readable, Contents.left, List.length_drop]
  constructor
  · rw [hread, h.readable]
    exact List.drop_drop
  · show q.consumed + len ≤ q.put.length
    omega

/-- A call keeps buffer and queue together, and `ReadAndClear` returns what is left. -/
theorem apply_holds (h : Holds b q) (hlegal : Legal b op) (hok : apply b op = .ok (b', out)) :
    Holds b' (q.after op out) ∧ ∀ bytes, out = .read bytes → bytes = q.left := by
  cases op with
  | append buf =>
    simp only [apply] at hok
    split at hok
    · rename_i happend
      cases hok
      have hread := (append_ok happend).2
      rw [List.take_length] at hread
      exact ⟨h.put hread, fun _ hout => by cases hout⟩
    · cases hok
      -- `Append` refused the bytes, and changed nothing
      exact ⟨h, fun _ hout => by cases hout⟩
    · cases hok
  | addBytes bytes len =>
    rcases bind_ok.1 hok with ⟨b₁, hadd, hok⟩
    cases hok
    exact ⟨h.put (addBytes_fill hlegal.2 hadd), fun _ hout => by cases hout⟩
  | consumeBytes len =>
    rcases bind_ok.1 hok with ⟨b₁, hconsume, hok⟩
    cases hok
    rcases consumeBytes_ok hconsume with ⟨hlen, hread⟩
    exact ⟨h.consume hlen hread, fun _ hout => by cases hout⟩
  | readAndClear =>
    cases hok
    refine ⟨holds_empty b, fun bytes hout => ?_⟩
    cases hout
    exact h.readable
  | clear =>
    cases hok
    exact ⟨holds_empty b, fun _ hout => by cases hout⟩

/-- A legal call fails only where `Append` would have to count more bytes than a `size_t` can. -/
theorem apply_fails (hlegal : Legal b op) {fault : Fault} (hfail : apply b op = .error fault) :
    ∃ buf, op = .append buf ∧ 2 ^ 64 ≤ b.byteSize + (buf.length - b.bytesCanWrite) * 2 := by
  cases op with
  | append buf =>
    refine ⟨buf, rfl, ?_⟩
    by_contra hsmall
    have hmax : maxSize = 2 ^ 63 - 1 := rfl
    by_cases hroom : b.byteSize + (buf.length - b.bytesCanWrite) * 2 ≤ maxSize
    · rcases append_isOk.2 hroom with ⟨b', happend⟩
      simp [apply, happend] at hfail
    · -- too big for a vector, and `resize` says so
      have hsize : maxSize < b.ensuredSize buf.length := by
        unfold ensuredSize
        split
        · rw [Nat.mod_eq_of_lt (by omega)]
          omega
        · omega
      have happend : b.append buf buf.length = .error .exception := if_pos hsize
      simp [apply, happend] at hfail
  | addBytes bytes len =>
    rcases (addBytes_isOk (b := b.fill bytes)).2 (hlegal.2.trans hlegal.1) with ⟨b', hadd⟩
    simp [apply, hadd] at hfail
  | consumeBytes len =>
    rcases consumeBytes_of_le hlegal with ⟨b', hconsume, -⟩
    simp [apply, hconsume] at hfail
  | readAndClear | clear => cases hfail

/-! ## Runs -/

/-- Every legal run keeps the buffer and the queue together. -/
theorem run_holds {ops : List Op} {outs : List Out} (h : Holds b q)
    (hlegal : Guarded apply Legal b ops) (hrun : run apply b ops = .ok (b', outs)) :
    Holds b' (q.afterAll ops outs) := by
  induction ops generalizing b q outs with
  | nil =>
    cases hrun
    exact h
  | cons op ops ih =>
    rcases run_cons_inv hrun with ⟨b₁, out, outs, hop, hrest, rfl⟩
    exact ih (apply_holds h hlegal.1 hop).1 (hlegal.2 b₁ out hop) hrest

/-- After any legal calls the indices are in order, and the readable bytes are those that were put
in since the last clearing, less those that were consumed. The next call returns such bytes, and
it fails only if it has to count more bytes than a `size_t` can. -/
theorem byte_queue (reservedSize : ℕ) (ops : List Op)
    (hlegal : Guarded apply Legal (new reservedSize) ops) (b : Buffer) (outs : List Out)
    (hrun : run apply (new reservedSize) ops = .ok (b, outs)) :
    b.readIndex ≤ b.writeIndex ∧ b.writeIndex ≤ b.byteSize ∧
      b.readable = (Contents.empty.afterAll ops outs).left ∧
      ∀ op, Legal b op →
        (∀ b' bytes, apply b op = .ok (b', .read bytes) →
          bytes = (Contents.empty.afterAll ops outs).left) ∧
        ∀ fault, apply b op = .error fault →
          ∃ buf, op = .append buf ∧ 2 ^ 64 ≤ b.byteSize + (buf.length - b.bytesCanWrite) * 2 := by
  have hnew : Holds (new reservedSize) .empty := ⟨rfl, Nat.le_refl _⟩
  have h := run_holds hnew hlegal hrun
  refine ⟨b.read_le, b.write_le, h.readable, fun op hop => ⟨?_, ?_⟩⟩
  · intro b' bytes hread
    exact (apply_holds h hop hread).2 bytes rfl
  · intro fault hfail
    exact apply_fails hop hfail

/-- A buffer of four bytes that grows, is read in part and is cleared by consuming the rest. -/
theorem byte_queue_run :
    ∃ b outs, run apply (new 4) [.addBytes [1, 2, 3] 2, .append [4, 5, 6], .consumeBytes 3,
        .consumeBytes 2, .append [7, 8], .consumeBytes 1] = .ok (b, outs) ∧
      b.readable = [8] ∧ b.byteSize = 6 := by
  have hrun : (run apply (new 4) [.addBytes [1, 2, 3] 2, .append [4, 5, 6], .consumeBytes 3,
      .consumeBytes 2, .append [7, 8], .consumeBytes 1]).map
      (fun r => (r.2, r.1.byteSize)) = .ok (List.replicate 6 .done, 6) := by decide +kernel
  rcases map_ok.1 hrun with ⟨⟨b, outs⟩, hrun, hret⟩
  rcases Prod.mk.inj hret with ⟨houts, hsize⟩
  obtain ⟨-, -, hread, -⟩ := byte_queue 4 [.addBytes [1, 2, 3] 2, .append [4, 5, 6],
    .consumeBytes 3, .consumeBytes 2, .append [7, 8], .consumeBytes 1] (by decide +kernel) b outs
    hrun
  refine ⟨b, outs, hrun, ?_, hsize⟩
  have houts : outs = List.replicate 6 .done := houts
  rw [hread, houts]
  decide

end FxServer.Buffer
