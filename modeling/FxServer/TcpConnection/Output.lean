import FxServer.Machine
import FxServer.TcpConnection

/-!
# FxServer.TcpConnection.Output — the order in which output reaches the socket

A client calls `Write` any number of times and then `ZeroCopyWrite`; `WriteToPeer`
runs any number of times in between and afterwards, with any results of `write` and
`sendfile`. As results that run out stand for `EAGAIN`, a run that ends in the middle
of the results of a `WriteToPeer` shows the state at that moment.

The bytes that have been issued are cut into three parts: those the socket has, those in the
write buffer, and the rest of the file. A `write` moves the first border, a `sendfile` the
second, and in order as long as the second moves only when the buffer is empty.

* `output_in_order` — what has been accepted and what is still held are, in order,
  what was issued, as long as `sendfile` accepts nothing while the write buffer holds
  bytes.
* `sendfile_overtakes_buffer` — `write` takes one of two bytes and would block, and
  `sendfile` sends a byte of the file before the second.
-/

namespace FxServer.TcpConnection

open Machine

variable (files : Files)

/-- A call of the client, or of the loop when the socket is ready. -/
inductive Op where
  | write (buf : List UInt8)
  | zeroCopyWrite (fd : ℕ) (offset len : ℕ)
  | writeToPeer (results : List IoResult)
deriving DecidableEq, Repr

/-- The callbacks of a connection that its output can lead to. -/
inductive Called where
  | close
  | writeDone
deriving DecidableEq, Repr

/-- The connection is closed behind a loop that failed, unless it is closed already. -/
def closeFailed (k : TcpConnection) (failed : Option Bool) :
    Except Fault (TcpConnection × List Called) :=
  match failed, k.closed with
  | some shutdown, false => do
    let k ← k.activeClose shutdown
    .ok (k, [.close])
  | _, _ => .ok (k, [])

/-- `WriteToPeer`, with callbacks that leave the connection alone. -/
def writeToPeer (k : TcpConnection) (results : List IoResult) :
    Except Fault (TcpConnection × List Called) := do
  let (k, failed, rest) ← writeLoop results k
  let bytesToRead := k.writeBuf.bytesToRead
  let (k, called) ← closeFailed k failed
  let (k, failed) ← sendfileLoop files rest k
  let (k, called') ← closeFailed k failed
  if k.writeDone bytesToRead then .ok (k.finishWrite, called ++ called' ++ [.writeDone])
  else .ok (k, called ++ called')

/-- A call on the connection, with the callbacks that it makes. -/
def step (k : TcpConnection) : Op → Except Fault (TcpConnection × List Called)
  | .write buf => do
    let k ← k.write buf
    .ok (k, [])
  | .zeroCopyWrite fd offset len => .ok (zeroCopyWrite files k fd offset len, [])
  | .writeToPeer results => writeToPeer files k results

/-! ## The contract -/

/-- No write follows the `ZeroCopyWrite`. -/
def ZeroCopyLast : List Op → Prop
  | [] => True
  | .zeroCopyWrite _ _ _ :: ops => ∀ op ∈ ops, ∃ results, op = .writeToPeer results
  | _ :: ops => ZeroCopyLast ops

theorem zeroCopyLast_of_forall {ops : List Op}
    (h : ∀ op ∈ ops, ∃ results, op = .writeToPeer results) : ZeroCopyLast ops := by
  induction ops with
  | nil => trivial
  | cons op ops ih =>
    rcases h op List.mem_cons_self with ⟨results, rfl⟩
    exact ih fun op' hop' => h op' (List.mem_cons_of_mem _ hop')

/-- What the client tells the connection to send. -/
def output (ops : List Op) : List UInt8 :=
  ops.flatMap fun
    | .write buf => buf
    | .zeroCopyWrite fd offset len => Cyclic.get (files fd) offset len
    | .writeToPeer _ => []

/-- These results of `sendfile` accept nothing. -/
def AcceptsNothing : List IoResult → Prop
  | .ok n :: rs => n = 0 ∧ AcceptsNothing rs
  | _ => True

/-- Once `write` has failed with some of `bytesToRead` bytes left, `sendfile` accepts
nothing. -/
def FileWaits : List IoResult → ℕ → Prop
  | [], _ => True
  | .again :: rs, bytesToRead | .error _ :: rs, bytesToRead => bytesToRead = 0 ∨ AcceptsNothing rs
  | .ok n :: rs, bytesToRead => bytesToRead = 0 ∨ FileWaits rs (bytesToRead - n)

/-- While a file is being sent, it waits for the write buffer. -/
def InTurn (k : TcpConnection) : Op → Prop
  | .writeToPeer results =>
    k.zeroCopyWriteFd ≠ -1 → FileWaits results k.writeBuf.bytesToRead
  | _ => True

instance decidableAcceptsNothing : DecidablePred AcceptsNothing
  | [] | .again :: _ | .error _ :: _ => .isTrue trivial
  | .ok n :: rs =>
    have := decidableAcceptsNothing rs
    inferInstanceAs (Decidable (n = 0 ∧ AcceptsNothing rs))

instance decidableFileWaits : ∀ rs bytesToRead, Decidable (FileWaits rs bytesToRead)
  | [], _ => .isTrue trivial
  | .again :: rs, bytesToRead | .error _ :: rs, bytesToRead =>
    inferInstanceAs (Decidable (bytesToRead = 0 ∨ AcceptsNothing rs))
  | .ok n :: rs, bytesToRead =>
    have := decidableFileWaits rs (bytesToRead - n)
    inferInstanceAs (Decidable (bytesToRead = 0 ∨ FileWaits rs (bytesToRead - n)))

instance (k : TcpConnection) : DecidablePred (InTurn k)
  | .writeToPeer results => inferInstanceAs
      (Decidable (k.zeroCopyWriteFd ≠ -1 → FileWaits results k.writeBuf.bytesToRead))
  | .write _ | .zeroCopyWrite _ _ _ => .isTrue trivial

/-! ## The invariant -/

/-- The rest of the file range. -/
def fileRest (k : TcpConnection) : List UInt8 :=
  if k.zeroCopyWriteFd = -1 then []
  else Cyclic.get (files k.zeroCopyWriteFd) k.zeroCopyWriteOffset
    (k.zeroCopyLen - k.zeroCopyWritedLen)

/-- What is held goes on where the accepted bytes end: the buffer, then the file. -/
structure Inv (k : TcpConnection) : Prop where
  /-- what was sent, what is buffered and what is left of the file is what was issued -/
  order : k.sent ++ k.writeBuf.readable ++ k.fileRest files = k.issued
  /-- no more of the file is sent than was asked for -/
  writed_le : k.zeroCopyWritedLen ≤ k.zeroCopyLen

/-- A connection whose output is `issued` so far. -/
theorem new_inv (loop fd : ℕ) (state : TcpConnectionState) : Inv files (new loop fd state) :=
  ⟨rfl, Nat.le_refl _⟩

variable {files}

/-- `Write` with no file in front keeps the order. -/
theorem write_inv {k k' : TcpConnection} {buf : List UInt8} (h : Inv files k)
    (hfile : k.zeroCopyWriteFd = -1) (hok : k.write buf = .ok k') :
    Inv files k' ∧ k'.zeroCopyWriteFd = -1 ∧ k'.issued = k.issued ++ buf := by
  rcases bind_ok.1 hok with ⟨writeBuf, hbuf, hok⟩
  cases hok
  have hreadable := (Buffer.append_ok hbuf).2
  have horder := h.order
  rw [List.take_length] at hreadable
  simp only [fileRest, hfile, if_true, List.append_nil] at horder
  refine ⟨⟨?_, h.writed_le⟩, hfile, rfl⟩
  show k.sent ++ writeBuf.readable ++ fileRest files _ = k.issued ++ buf
  simp only [fileRest, hfile, if_true, List.append_nil, hreadable, ← horder, List.append_assoc]

/-- `ZeroCopyWrite` with no file in front keeps the order. -/
theorem zeroCopyWrite_inv {k : TcpConnection} (h : Inv files k) (hfile : k.zeroCopyWriteFd = -1)
    (fd offset len : ℕ) : Inv files (zeroCopyWrite files k fd offset len) := by
  have horder := h.order
  simp only [fileRest, hfile, if_true, List.append_nil] at horder
  refine ⟨?_, Nat.zero_le _⟩
  show k.sent ++ k.writeBuf.readable ++ fileRest files _ = k.issued ++ _
  have hfd : (fd : ℤ) ≠ -1 := by omega
  simp only [fileRest, zeroCopyWrite, hfd, if_false, horder, Nat.sub_zero]

/-- The loop over the buffer moves bytes from its front to the socket. -/
theorem writeLoop_spec {rs rest : List IoResult} {k k' : TcpConnection} {failed : Option Bool}
    (hok : writeLoop rs k = .ok (k', failed, rest)) :
    k'.sent ++ k'.writeBuf.readable = k.sent ++ k.writeBuf.readable ∧
      (FileWaits rs k.writeBuf.bytesToRead → k'.writeBuf.readable = [] ∨ AcceptsNothing rest) := by
  induction rs generalizing k with
  | nil =>
    cases hok
    exact ⟨rfl, fun _ => .inr trivial⟩
  | cons r rs ih =>
    unfold writeLoop at hok
    split at hok
    · -- everything has been written
      rename_i hempty
      cases hok
      exact ⟨rfl, fun _ => .inl (Buffer.bytesToRead_eq_zero.1 hempty)⟩
    · rename_i hne
      split at hok
      · -- the socket is full
        cases hok
        exact ⟨rfl, fun hwaits => .inr (hwaits.resolve_left hne)⟩
      · -- `write` fails
        cases hok
        exact ⟨rfl, fun hwaits => .inr (hwaits.resolve_left hne)⟩
      · -- `write` takes `n` bytes, and the loop goes on
        rename_i n
        rcases bind_ok.1 hok with ⟨k₁, haccept, hok⟩
        rcases bind_ok.1 haccept with ⟨writeBuf, hbuf, haccept⟩
        cases haccept
        rcases Buffer.consumeBytes_ok hbuf with ⟨hle, hreadable⟩
        rcases ih hok with ⟨horder, hwaits⟩
        refine ⟨horder.trans ?_, fun h => hwaits ?_⟩
        · show k.sent ++ k.writeBuf.readable.take n ++ writeBuf.readable = _
          rw [hreadable, List.append_assoc, List.take_append_drop]
        · have hlen : writeBuf.bytesToRead = k.writeBuf.bytesToRead - n := by
            rw [← Buffer.length_readable, hreadable, List.length_drop, Buffer.length_readable]
          show FileWaits rs writeBuf.bytesToRead
          rw [hlen]
          exact h.resolve_left hne

/-- The loop over the file, behind an empty buffer or with nothing accepted. -/
theorem sendfileLoop_spec {rs : List IoResult} {k k' : TcpConnection} {failed : Option Bool}
    (h : Inv files k)
    (hturn : k.zeroCopyWriteFd ≠ -1 → k.writeBuf.readable = [] ∨ AcceptsNothing rs)
    (hok : sendfileLoop files rs k = .ok (k', failed)) :
    Inv files k' := by
  induction rs generalizing k with
  | nil =>
    cases hok
    exact h
  | cons r rs ih =>
    unfold sendfileLoop at hok
    split at hok
    · cases hok
      exact h
    · rename_i hmore
      rw [not_or] at hmore
      split at hok
      · cases hok
        exact h
      · cases hok
        exact h
      · rename_i n
        rcases bind_ok.1 hok with ⟨k₁, haccept, hok⟩
        rcases bind_ok.1 haccept with ⟨_, -, haccept⟩
        rcases bind_ok.1 haccept with ⟨_, hn, haccept⟩
        rw [check_ok] at hn
        cases haccept
        -- `sendfile` takes the first `n` bytes of what is left of the range
        have hrest : fileRest files k =
            Cyclic.get (files k.zeroCopyWriteFd) k.zeroCopyWriteOffset n ++
              Cyclic.get (files k.zeroCopyWriteFd) (k.zeroCopyWriteOffset + n)
                (k.zeroCopyLen - (k.zeroCopyWritedLen + n)) := by
          rw [fileRest, if_neg hmore.1, ← Cyclic.get_add]
          congr 1
          omega
        have hinv : Inv files { k with
            zeroCopyWriteOffset := k.zeroCopyWriteOffset + n
            zeroCopyWritedLen := k.zeroCopyWritedLen + n
            sent := k.sent ++
              Cyclic.get (files k.zeroCopyWriteFd) k.zeroCopyWriteOffset n } := by
          constructor
          · -- nothing of the buffer is left to go before them
            have horder := h.order
            rw [hrest] at horder
            show k.sent ++ Cyclic.get _ _ n ++ k.writeBuf.readable ++ fileRest files _ = k.issued
            rw [fileRest, if_neg hmore.1, ← horder]
            rcases hturn hmore.1 with hempty | ⟨rfl, -⟩
            · simp [hempty]
            · simp [Cyclic.get]
          · show k.zeroCopyWritedLen + n ≤ k.zeroCopyLen
            have := h.writed_le
            omega
        exact ih hinv (fun hfd => (hturn hfd).imp_right And.right) hok

/-- Nothing is closed behind a loop that has not failed. -/
@[simp] theorem closeFailed_none (k : TcpConnection) : closeFailed k none = .ok (k, []) := rfl

/-- The close path after an error sends nothing and calls no write-done callback. -/
theorem closeFailed_inv {k k' : TcpConnection} {failed : Option Bool} {called : List Called}
    (hok : closeFailed k failed = .ok (k', called)) :
    (∃ channel state, k' = { k with channel, state }) ∧ Called.writeDone ∉ called := by
  unfold closeFailed at hok
  split at hok
  · rcases bind_ok.1 hok with ⟨k₁, hclose, hok⟩
    cases hok
    rcases activeClose_frame hclose with ⟨-, events, hk'⟩
    exact ⟨⟨_, _, hk'⟩, by simp⟩
  · cases hok
    exact ⟨⟨_, _, rfl⟩, by simp⟩

/-- No file is being sent, or all of it has been. -/
theorem fileRest_eq_nil {k : TcpConnection}
    (h : k.zeroCopyWriteFd = -1 ∨ k.zeroCopyLen = k.zeroCopyWritedLen) :
    fileRest files k = [] := by
  unfold fileRest
  split
  · rfl
  · rename_i hfd
    rw [h.resolve_left hfd, Nat.sub_self]
    rfl

/-- `WriteToPeer` in its turn sends what is next, and calls back when nothing is left. -/
theorem writeToPeer_inv {k k' : TcpConnection} {results : List IoResult} {called : List Called}
    (h : Inv files k) (hturn : InTurn k (.writeToPeer results))
    (hok : writeToPeer files k results = .ok (k', called)) :
    Inv files k' ∧ k'.issued = k.issued ∧ (k.zeroCopyWriteFd = -1 → k'.zeroCopyWriteFd = -1) ∧
      (Called.writeDone ∈ called → k'.sent = k'.issued) := by
  rcases bind_ok.1 hok with ⟨⟨k₁, failed₁, rest⟩, hwrite, hok⟩
  rcases bind_ok.1 hok with ⟨⟨k₂, called₂⟩, hclose, hok⟩
  rcases bind_ok.1 hok with ⟨⟨k₃, failed₃⟩, hsendfile, hok⟩
  rcases bind_ok.1 hok with ⟨⟨k₄, called₄⟩, hclose', hok⟩
  rcases writeLoop_spec hwrite with ⟨horder, hwaits⟩
  rcases writeLoop_frame hwrite with ⟨writeBuf, sent, hk₁⟩
  rcases closeFailed_inv hclose with ⟨⟨channel, state, hk₂⟩, hcalled₂⟩
  have hinv₂ : Inv files k₂ := by
    subst hk₂ hk₁
    exact ⟨(congrArg (· ++ fileRest files k) horder).trans h.order, h.writed_le⟩
  rcases sendfileLoop_frame hsendfile with ⟨offset, writed, sent', hk₃⟩
  have hinv₃ : Inv files k₃ := sendfileLoop_spec hinv₂ (fun hfd => by
    subst hk₂ hk₁
    exact hwaits (hturn hfd)) hsendfile
  rcases closeFailed_inv hclose' with ⟨⟨channel', state', hk₄⟩, hcalled₄⟩
  have hinv₄ : Inv files k₄ := by
    subst hk₄
    exact ⟨hinv₃.order, hinv₃.writed_le⟩
  have hissued : k₄.issued = k.issued := by rw [hk₄, hk₃, hk₂, hk₁]
  have hfd : k₄.zeroCopyWriteFd = k.zeroCopyWriteFd := by rw [hk₄, hk₃, hk₂, hk₁]
  have hbuf : k₄.writeBuf = k₁.writeBuf := by rw [hk₄, hk₃, hk₂]
  simp only at hok
  split at hok
  · -- everything has been written
    rename_i hdone
    cases hok
    obtain ⟨hempty, hfile⟩ : k₁.writeBuf.bytesToRead = 0 ∧
        (k₄.zeroCopyWriteFd = -1 ∨ k₄.zeroCopyLen = k₄.zeroCopyWritedLen) := by
      simpa [writeDone] using hdone
    have hall := hinv₄.order
    rw [fileRest_eq_nil hfile, List.append_nil, hbuf, Buffer.bytesToRead_eq_zero.1 hempty,
      List.append_nil] at hall
    rcases finishWrite_frame k₄ with ⟨offset, len, writed, hle, hfinished⟩
    rw [hfinished]
    refine ⟨⟨?_, hle hinv₄.writed_le⟩, hissued, fun _ => rfl, fun _ => hall⟩
    rw [fileRest_eq_nil (.inl rfl), hbuf, Buffer.bytesToRead_eq_zero.1 hempty, hall]
    simp
  · cases hok
    refine ⟨hinv₄, hissued, fun h => hfd.trans h, fun hmem => ?_⟩
    rcases List.mem_append.1 hmem with hmem | hmem
    · exact absurd hmem hcalled₂
    · exact absurd hmem hcalled₄

/-! ## Runs -/

/-- Every run in turn keeps the order. -/
theorem run_inv {ops : List Op} {k k' : TcpConnection} {outs : List (List Called)}
    (h : Inv files k) (hlast : ZeroCopyLast ops)
    (hfile : k.zeroCopyWriteFd = -1 ∨ ∀ op ∈ ops, ∃ results, op = .writeToPeer results)
    (hturn : Guarded (step files) InTurn k ops) (hrun : run (step files) k ops = .ok (k', outs)) :
    Inv files k' ∧ k'.issued = k.issued ++ output files ops := by
  induction ops generalizing k outs with
  | nil =>
    cases hrun
    exact ⟨h, by simp [output]⟩
  | cons op ops ih =>
    rcases run_cons_inv hrun with ⟨k₁, called, outs', hstep, hrest, -⟩
    -- the file's descriptor is unset until the one `ZeroCopyWrite`, after which only writes to
    -- the peer follow
    have hturn' := hturn.2 k₁ called hstep
    cases op with
    | write buf =>
      have hfile : k.zeroCopyWriteFd = -1 := hfile.resolve_right fun hall => by
        rcases hall _ List.mem_cons_self with ⟨results, hr⟩
        cases hr
      rcases bind_ok.1 hstep with ⟨k₂, hwrite, hstep⟩
      cases hstep
      rcases write_inv h hfile hwrite with ⟨hinv, hfile', hissued⟩
      rcases ih hinv hlast (.inl hfile') hturn' hrest with ⟨hinv', hissued'⟩
      exact ⟨hinv', by rw [hissued', hissued]; simp [output]⟩
    | zeroCopyWrite fd offset len =>
      have hfile : k.zeroCopyWriteFd = -1 := hfile.resolve_right fun hall => by
        rcases hall _ List.mem_cons_self with ⟨results, hr⟩
        cases hr
      cases hstep
      obtain ⟨hinv', hissued'⟩ := ih (zeroCopyWrite_inv h hfile fd offset len)
        (zeroCopyLast_of_forall hlast) (.inr hlast) hturn' hrest
      exact ⟨hinv', by rw [hissued']; simp [output, zeroCopyWrite]⟩
    | writeToPeer results =>
      rcases writeToPeer_inv h hturn.1 hstep with ⟨hinv, hissued, hfile', -⟩
      obtain ⟨hinv', hissued'⟩ := ih hinv hlast
        (hfile.imp hfile' fun hall op hop => hall op (List.mem_cons_of_mem _ hop)) hturn' hrest
      exact ⟨hinv', by rw [hissued', hissued]; simp [output]⟩

theorem zeroCopyLast_append {ops ops' : List Op} (h : ZeroCopyLast (ops ++ ops')) :
    ZeroCopyLast ops := by
  induction ops with
  | nil => trivial
  | cons op ops ih =>
    cases op with
    | write buf => exact ih h
    | zeroCopyWrite fd offset len => exact fun op' hop' => h op' (List.mem_append_left _ hop')
    | writeToPeer results => exact ih h

/-- At every moment of a run in which the file waits for the write buffer: the bytes
accepted by the socket are the first ones of what was issued, what is held are the
others, and the write-done callback runs only when nothing is held. -/
theorem output_in_order (files : Files) (loop fd : ℕ) (ops : List Op) (op : Op)
    (hlast : ZeroCopyLast (ops ++ [op]))
    (hturn : Guarded (step files) InTurn (new loop fd .kConnected) (ops ++ [op]))
    (k k' : TcpConnection) (outs : List (List Called)) (called : List Called)
    (hrun : run (step files) (new loop fd .kConnected) ops = .ok (k, outs))
    (hstep : step files k op = .ok (k', called)) :
    k'.sent <+: output files (ops ++ [op]) ∧
      k'.sent ++ k'.writeBuf.readable ++ k'.fileRest files = output files (ops ++ [op]) ∧
      (Called.writeDone ∈ called → k'.sent = output files (ops ++ [op])) := by
  have hnew : Inv files (new loop fd .kConnected) := new_inv files loop fd .kConnected
  rcases run_inv hnew (zeroCopyLast_append hlast) (.inl rfl) hturn.take hrun with ⟨hinv, -⟩
  have hrun' := run_append_ok hrun (run_cons_ok hstep (run_nil k'))
  rcases run_inv hnew hlast (.inl rfl) hturn hrun' with ⟨hinv', hissued⟩
  have hissued : k'.issued = output files (ops ++ [op]) := hissued
  -- what is sent, buffered and still in the file is all that was issued
  have horder := hinv'.order
  rw [hissued] at horder
  refine ⟨⟨k'.writeBuf.readable ++ k'.fileRest files, by rw [← List.append_assoc, horder]⟩,
    horder, fun hdone => ?_⟩
  -- only `WriteToPeer` calls back, and only with nothing left
  cases op with
  | write buf =>
    rcases bind_ok.1 hstep with ⟨k₂, -, hstep⟩
    cases hstep
    simp at hdone
  | zeroCopyWrite fd offset len =>
    cases hstep
    simp at hdone
  | writeToPeer results =>
    rcases writeToPeer_inv hinv (hturn.drop hrun).1 hstep with ⟨-, -, -, hsent⟩
    rw [hsent hdone, hissued]

/-- Two bytes and then three of a file, in three calls of `WriteToPeer`. -/
theorem output_in_order_run :
    ∃ k' : TcpConnection,
      k'.sent ++ k'.writeBuf.readable ++ k'.fileRest (fun _ i => UInt8.ofNat i) =
        [1, 2, 7, 8, 9] ∧ k'.sent = [1, 2, 7, 8, 9] := by
  have hcalled : (run (step fun _ i => UInt8.ofNat i) (new 0 4 .kConnected)
      [.write [1, 2], .writeToPeer [.ok 1], .zeroCopyWrite 5 7 3, .writeToPeer [.ok 1, .ok 2]] >>=
      fun r => step (fun _ i => UInt8.ofNat i) r.1 (.writeToPeer [.ok 1]) >>= fun r' =>
        .ok r'.2) = .ok [.writeDone] := by decide
  rcases bind_ok.1 hcalled with ⟨⟨k, outs⟩, hrun, hcalled⟩
  rcases bind_ok.1 hcalled with ⟨⟨k', called⟩, hstep, hcalled⟩
  obtain rfl : called = [.writeDone] := Except.ok.inj hcalled
  obtain ⟨-, horder, hdone⟩ := output_in_order (fun _ i => UInt8.ofNat i) 0 4
    [.write [1, 2], .writeToPeer [.ok 1], .zeroCopyWrite 5 7 3, .writeToPeer [.ok 1, .ok 2]]
    (.writeToPeer [.ok 1]) (by simp [ZeroCopyLast]) (by decide) k k' outs [.writeDone] hrun hstep
  exact ⟨k', horder, hdone (by simp)⟩

/-- `write` takes the byte `1` and would block, `sendfile` takes the byte `9`, and the
byte `2` follows in the next call. -/
theorem sendfile_overtakes_buffer :
    ZeroCopyLast [.write [1, 2], .zeroCopyWrite 5 0 1, .writeToPeer [.ok 1, .again, .ok 1],
      .writeToPeer [.ok 1]] ∧
    (run (step fun _ _ => 9) (new 0 4 .kConnected)
      [.write [1, 2], .zeroCopyWrite 5 0 1, .writeToPeer [.ok 1, .again, .ok 1],
        .writeToPeer [.ok 1]]).map (fun r => r.1.sent) = .ok [1, 9, 2] ∧
    ¬ [1, 9, 2] <+: output (fun _ _ => 9) [.write [1, 2], .zeroCopyWrite 5 0 1,
      .writeToPeer [.ok 1, .again, .ok 1], .writeToPeer [.ok 1]] :=
  ⟨by simp [ZeroCopyLast], by decide, by decide⟩

end FxServer.TcpConnection
