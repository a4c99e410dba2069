import FxServer.TcpConnection.Output

/-!
# FxServer.TcpConnection.Interest — does the channel wait for room in the socket?

What `Write` leaves in the buffer and what `ZeroCopyWrite` announces is sent by `WriteToPeer`,
and that runs when the channel has writing enabled. `Write` enables it, `WriteToPeer` disables it
when everything has been sent, and `ZeroCopyWrite` leaves it alone.

Each call is judged by itself: a step keeps what is pending waited for exactly if it meets the
condition. So the statement about runs is an equivalence, and needs no further invariant.

* `never_stranded_iff` — output that is pending is waited for behind every call exactly when no
  `ZeroCopyWrite` finds writing disabled.
* `file_stranded` — a new connection is told to send a file.
-/

namespace FxServer

/-- The channel is interested in `EPOLLOUT`. -/
def Channel.writing (ch : Channel) : Bool := ch.events &&& Channel.kWriteEvents ≠ 0

@[simp] theorem Channel.writing_enableWriting (ch : Channel) :
    ch.enableWriting.writing = true := by
  refine decide_eq_true fun h => ?_
  have hbit := congrArg (fun mask => mask.getLsbD 2) h
  simp [enableWriting, kWriteEvents, epollOut] at hbit

/-- The channel is interested in `EPOLLIN`. -/
def Channel.reading (ch : Channel) : Bool := ch.events &&& Channel.kReadEvents ≠ 0

section Bits

variable (ch : Channel)

theorem Channel.writing_eq : ch.writing = ch.events.getLsbD 2 := by
  have hmask : Channel.kWriteEvents = BitVec.twoPow 32 2 := by decide
  have hzero : BitVec.twoPow 32 2 ≠ 0 := by decide
  unfold Channel.writing
  rw [hmask, BitVec.and_twoPow]
  cases ch.events.getLsbD 2 with
  | false => rfl
  | true => exact decide_eq_true hzero

theorem Channel.reading_eq : ch.reading = ch.events.getLsbD 0 := by
  have hmask : Channel.kReadEvents = BitVec.twoPow 32 0 := by decide
  have hzero : BitVec.twoPow 32 0 ≠ 0 := by decide
  unfold Channel.reading
  rw [hmask, BitVec.and_twoPow]
  cases ch.events.getLsbD 0 with
  | false => rfl
  | true => exact decide_eq_true hzero

@[simp] theorem Channel.writing_disableWriting : ch.disableWriting.writing = false := by
  rw [writing_eq]
  simp [disableWriting, kWriteEvents, epollOut]

@[simp] theorem Channel.writing_enableReading : ch.enableReading.writing = ch.writing := by
  rw [writing_eq, writing_eq]
  simp [enableReading, kReadEvents, epollIn]

@[simp] theorem Channel.writing_disableReading : ch.disableReading.writing = ch.writing := by
  rw [writing_eq, writing_eq]
  simp [disableReading, kReadEvents, epollIn]

@[simp] theorem Channel.reading_enableReading : ch.enableReading.reading = true := by
  rw [reading_eq]
  simp [enableReading, kReadEvents, epollIn]

@[simp] theorem Channel.reading_disableReading : ch.disableReading.reading = false := by
  rw [reading_eq]
  simp [disableReading, kReadEvents, epollIn]

@[simp] theorem Channel.reading_enableWriting : ch.enableWriting.reading = ch.reading := by
  rw [reading_eq, reading_eq]
  simp [enableWriting, kWriteEvents, epollOut]

@[simp] theorem Channel.reading_disableWriting : ch.disableWriting.reading = ch.reading := by
  rw [reading_eq, reading_eq]
  simp [disableWriting, kWriteEvents, epollOut]

end Bits

namespace TcpConnection

open Machine

/-- Something is in the write buffer, or part of a file range is still to be sent. -/
def Pending (k : TcpConnection) : Prop :=
  k.writeBuf.bytesToRead ≠ 0 ∨ k.zeroCopyWriteFd ≠ -1 ∧ k.zeroCopyWritedLen ≠ k.zeroCopyLen

/-- The output of an open connection is waited for. -/
def NotStranded (k : TcpConnection) : Prop :=
  k.closed = false → k.Pending → k.channel.writing = true

/-- `ZeroCopyWrite` has nothing to send, or is called while writing is enabled. -/
def Awaited (k : TcpConnection) : Op → Prop
  | .zeroCopyWrite _ _ len => len = 0 ∨ k.closed = true ∨ k.channel.writing = true
  | .write _ | .writeToPeer _ => True

instance (k : TcpConnection) : Decidable k.Pending := by
  unfold Pending
  infer_instance

instance (k : TcpConnection) : Decidable k.NotStranded := by
  unfold NotStranded
  infer_instance

instance (k : TcpConnection) : DecidablePred (Awaited k)
  | .zeroCopyWrite _ _ len => inferInstanceAs
      (Decidable (len = 0 ∨ k.closed = true ∨ k.channel.writing = true))
  | .write _ | .writeToPeer _ => .isTrue trivial

variable {files : Files} {k k' : TcpConnection}

/-- Nothing is pending when the buffer is empty and the file is sent. -/
theorem not_pending : ¬ k.Pending ↔ k.writeBuf.bytesToRead = 0 ∧
    (k.zeroCopyWriteFd = -1 ∨ k.zeroCopyWritedLen = k.zeroCopyLen) := by
  unfold Pending
  rw [not_or, not_not, not_and_or, not_not, not_not]

/-! ## WriteToPeer -/

theorem writeLoop_empty (hempty : k.writeBuf.bytesToRead = 0) (rs : List IoResult) :
    writeLoop rs k = .ok (k, none, rs) := by
  cases rs with
  | nil => rfl
  | cons r rs => simp only [writeLoop, hempty, if_true]

/-- A connection that is open behind a loop has not been closed by it. -/
theorem closeFailed_open {failed : Option Bool} {called : List Called}
    (hok : closeFailed k failed = .ok (k', called)) (hopen : k'.closed = false) : k' = k := by
  unfold closeFailed at hok
  split at hok
  · rcases bind_ok.1 hok with ⟨k₁, hclose, hok⟩
    cases hok
    rcases activeClose_frame hclose with ⟨-, events, rfl⟩
    cases hopen
  · cases hok
    rfl

theorem finishWrite_zeroCopyWriteFd (k : TcpConnection) : k.finishWrite.zeroCopyWriteFd = -1 := by
  rcases finishWrite_frame k with ⟨offset, len, writed, -, hfinished⟩
  rw [hfinished]

theorem finishWrite_writeBuf (k : TcpConnection) : k.finishWrite.writeBuf = k.writeBuf := by
  rcases finishWrite_frame k with ⟨offset, len, writed, -, hfinished⟩
  rw [hfinished]

/-- Output that `WriteToPeer` leaves was pending before, and the events are those of before. -/
theorem writeToPeer_pending {results : List IoResult} {called : List Called}
    (hok : writeToPeer files k results = .ok (k', called)) (hopen : k'.closed = false)
    (hpending : k'.Pending) : k.Pending ∧ k.closed = false ∧ k'.channel = k.channel := by
  rcases bind_ok.1 hok with ⟨⟨k₁, failed₁, rest⟩, hwrite, hok⟩
  rcases bind_ok.1 hok with ⟨⟨k₂, called₂⟩, hclose, hok⟩
  rcases bind_ok.1 hok with ⟨⟨k₃, failed₃⟩, hsendfile, hok⟩
  rcases bind_ok.1 hok with ⟨⟨k₄, called₄⟩, hclose', hok⟩
  simp only at hok
  split at hok
  · -- everything has been written
    rename_i hdone
    cases hok
    obtain ⟨hempty, -⟩ : k₁.writeBuf.bytesToRead = 0 ∧
        (k₄.zeroCopyWriteFd = -1 ∨ k₄.zeroCopyLen = k₄.zeroCopyWritedLen) := by
      simpa [writeDone] using hdone
    rcases closeFailed_inv hclose with ⟨⟨_, _, hk₂⟩, -⟩
    rcases sendfileLoop_frame hsendfile with ⟨_, _, _, hk₃⟩
    rcases closeFailed_inv hclose' with ⟨⟨_, _, hk₄⟩, -⟩
    have hbuf : k₄.writeBuf = k₁.writeBuf := by rw [hk₄, hk₃, hk₂]
    have hnot : ¬ k₄.finishWrite.Pending :=
      not_pending.2 ⟨by rw [finishWrite_writeBuf, hbuf, hempty],
        .inl (finishWrite_zeroCopyWriteFd k₄)⟩
    exact absurd hpending hnot
  · cases hok
    obtain rfl := closeFailed_open hclose' hopen
    rcases sendfileLoop_frame hsendfile with ⟨offset, writed, sent', hk₃⟩
    have hopen₂ : k₂.closed = false := by
      rw [hk₃] at hopen
      exact hopen
    obtain rfl := closeFailed_open hclose hopen₂
    rcases writeLoop_frame hwrite with ⟨writeBuf, sent, hk₁⟩
    have hchannel : k'.channel = k.channel := by rw [hk₃, hk₁]
    have hopen₀ : k.closed = false := by
      rw [hk₁] at hopen₂
      exact hopen₂
    refine ⟨?_, hopen₀, hchannel⟩
    by_contra hnot
    rcases not_pending.1 hnot with ⟨hempty, hfile⟩
    rw [writeLoop_empty hempty] at hwrite
    cases hwrite
    rw [sendfileLoop_done hfile] at hsendfile
    cases hsendfile
    exact hnot hpending

/-! ## Calls -/

/-- A step strands nothing exactly if it was awaited. -/
theorem step_notStranded {op : Op} (h : k.NotStranded) :
    Awaited k op ↔ ∀ k' called, step files k op = .ok (k', called) → k'.NotStranded := by
  cases op with
  | write buf =>
    -- `Write` enables writing, whatever the connection waited for before
    refine iff_of_true trivial fun k' called hok _ _ => ?_
    rcases bind_ok.1 hok with ⟨k₁, hwrite, hok⟩
    cases hok
    rcases write_frame hwrite with ⟨writeBuf, rfl⟩
    exact Channel.writing_enableWriting k.channel
  | zeroCopyWrite fd offset len =>
    have hfd : (fd : ℤ) ≠ -1 := by omega
    -- what is pending after the call: unsent bytes, or a file that is not empty
    have hpending : (zeroCopyWrite files k fd offset len).Pending ↔
        k.writeBuf.bytesToRead ≠ 0 ∨ len ≠ 0 :=
      or_congr Iff.rfl ⟨fun hmore => hmore.2.symm, fun hlen => ⟨hfd, hlen.symm⟩⟩
    constructor
    · rintro hawaited k' called hok hopen hleft
      cases hok
      rcases hawaited with hlen | hclosed | hwriting
      · have hbytes := (hpending.1 hleft).resolve_right (not_not.2 hlen)
        exact h hopen (.inl hbytes)
      · have hopen : k.closed = false := hopen
        rw [hclosed] at hopen
        cases hopen
      · exact hwriting
    · intro hall
      rw [Awaited, or_iff_not_imp_left, or_iff_not_imp_left]
      intro hlen hopen
      have hopen' : k.closed = false := by simpa using hopen
      exact hall (zeroCopyWrite files k fd offset len) [] rfl hopen' (hpending.2 (.inr hlen))
  | writeToPeer results =>
    refine iff_of_true trivial fun k' called hok hopen hpending => ?_
    -- what is still pending was pending before, and the interest is only dropped with nothing
    -- left
    rcases writeToPeer_pending hok hopen hpending with ⟨hpending₀, hopen₀, hchannel⟩
    rw [hchannel]
    exact h hopen₀ hpending₀

/-- Behind every call the output of the connection is waited for, if and only if every
`ZeroCopyWrite` of something to an open connection is called while writing is enabled. -/
theorem never_stranded_iff (files : Files) (loop fd : ℕ) (ops : List Op) :
    Always (step files) NotStranded (new loop fd .kConnected) ops ↔
      Guarded (step files) Awaited (new loop fd .kConnected) ops :=
  have hnew : ¬ (new loop fd .kConnected).Pending := not_pending.2 ⟨rfl, .inl rfl⟩
  always_iff_guarded (fun _ _ => step_notStranded) fun _ hpending => absurd hpending hnew

/-- A file that follows what is in the buffer is waited for. -/
example : Guarded (step fun _ _ => 0) Awaited (new 0 4 .kConnected)
    [.write [1, 2], .writeToPeer [.ok 1], .zeroCopyWrite 5 0 3, .writeToPeer [.ok 1, .ok 2]] := by
  decide

/-- Three bytes of a file, and nothing that the channel waits for. -/
theorem file_stranded :
    ¬ Always (step fun _ _ => 0) NotStranded (new 0 4 .kConnected) [.zeroCopyWrite 5 0 3] := by
  intro h
  have hstranded : NotStranded (zeroCopyWrite (fun _ _ => 0) (new 0 4 .kConnected) 5 0 3) :=
    h [.zeroCopyWrite 5 0 3] _ [[]] (List.prefix_refl _) rfl
  exact absurd hstranded (by decide)

end TcpConnection

end FxServer
