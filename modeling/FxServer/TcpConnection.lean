import FxServer.Buffer

/-!
# FxServer.TcpConnection — one connection and its channel

The model of `src/src/fx_channel.cc` and of what `src/src/fx_tcp_connection.cc` does
to the connection itself; the loops, pollers and callbacks around it are added by
the modules that use it. The results of system calls are inputs.

A call of the system takes its result from a list. Behind the end of the list each
further call would block, so every prefix of a sequence of results is a run of its
own.

* `writeLoop`, `sendfileLoop`, `finishWrite` — the parts of `WriteToPeer`, between
  which the close callback may run.
* `readFromPeer` — what is read goes to the read buffer, or the peer has closed.
-/

namespace FxServer

/-! ## Channels -/

/-- A set of epoll events. -/
abbrev Mask := BitVec 32

def epollIn : Mask := 0x001

def epollOut : Mask := 0x004

def epollRdNorm : Mask := 0x040

def epollWrNorm : Mask := 0x100

/-- What the write callback of a channel is bound to. -/
inductive WriteCallback where
  | connectedToPeer
  | writeToPeer
deriving DecidableEq, Repr

/-- A `Channel`: its events and what they call. Whether the read callback is set is all that
is known of it; the write callback is one of two. -/
structure Channel where
  /-- the loop the channel belongs to -/
  loop : ℕ
  fd : ℕ
  events : Mask
  revents : Mask
  /-- `rcb_` is set, to `ReadFromPeer` -/
  readCallback : Bool
  writeCallback : WriteCallback
deriving DecidableEq, Repr

namespace Channel

def kReadEvents : Mask := epollIn

def kWriteEvents : Mask := epollOut

/-- `EnableReading`, up to the update of the poller. -/
def enableReading (ch : Channel) : Channel := { ch with events := ch.events ||| kReadEvents }

/-- `DisableReading`, up to the update of the poller. -/
def disableReading (ch : Channel) : Channel := { ch with events := ch.events &&& ~~~kReadEvents }

/-- `EnableWriting`, up to the update of the poller. -/
def enableWriting (ch : Channel) : Channel := { ch with events := ch.events ||| kWriteEvents }

/-- `DisableWriting`, up to the update of the poller. -/
def disableWriting (ch : Channel) : Channel := { ch with events := ch.events &&& ~~~kWriteEvents }

/-- `HandleEvents` calls the write callback. -/
def writeReady (ch : Channel) : Bool := ch.revents &&& (epollOut ||| epollWrNorm) ≠ 0

/-- `HandleEvents` calls the read callback, if there is one. -/
def readReady (ch : Channel) : Bool := ch.revents &&& (epollIn ||| epollRdNorm) ≠ 0

end Channel

/-! ## Connections -/

/-- The states a connection goes through, in this order. -/
inductive TcpConnectionState where
  | kConnecting
  | kConnected
  | kDisconnected
deriving DecidableEq, Repr

/-- The result of `write` or `sendfile`: a count, `EAGAIN`, or another error, and then
whether the socket can still be shut down. Behind a reset it cannot. -/
inductive IoResult where
  | ok (n : ℕ)
  | again
  | error (shutdown : Bool)
deriving DecidableEq, Repr

/-- The result of `readv`: what it delivers (nothing at the end of the stream),
`EAGAIN`, or another error. -/
inductive ReadResult where
  | data (bytes : List UInt8)
  | again
  | error
deriving DecidableEq, Repr

/-- Whether `ReadFromPeer` takes the result for the end of the connection. -/
def ReadResult.closes : ReadResult → Bool
  | .data bytes => bytes = []
  | .again => false
  | .error => true

/-- The contents of the files that are sent, by descriptor and offset. -/
abbrev Files := ℤ → ℕ → UInt8

/-- A `TcpConnection`: its state, channel and buffers, and the file range that is being
sent. Two histories are kept beside the fields of the source. -/
structure TcpConnection where
  state : TcpConnectionState
  channel : Channel
  readBuf : Buffer
  writeBuf : Buffer
  /-- `-1` when no file is being sent -/
  zeroCopyWriteFd : ℤ
  zeroCopyWriteOffset : ℕ
  zeroCopyLen : ℕ
  zeroCopyWritedLen : ℕ
  /-- history: the bytes that `Write` and `ZeroCopyWrite` were told to send -/
  issued : List UInt8
  /-- history: the bytes that the socket has accepted -/
  sent : List UInt8

namespace TcpConnection

/-- The constructor, for a connection that is up or is still connecting; it sets the
callbacks of the channel accordingly. -/
def new (loop fd : ℕ) (state : TcpConnectionState) : TcpConnection where
  state
  channel := {
    loop
    fd
    events := 0
    revents := 0
    readCallback := state = .kConnected
    writeCallback := if state = .kConnected then .writeToPeer else .connectedToPeer }
  readBuf := .new Buffer.kDefaultReservedSize
  writeBuf := .new Buffer.kDefaultReservedSize
  zeroCopyWriteFd := -1
  zeroCopyWriteOffset := 0
  zeroCopyLen := 0
  zeroCopyWritedLen := 0
  issued := []
  sent := []

/-- `closed()` -/
def closed (k : TcpConnection) : Bool := k.state = .kDisconnected

/-- `Write`: the bytes go into the write buffer, and the channel waits for the socket. -/
def write (k : TcpConnection) (buf : List UInt8) : Except Fault TcpConnection := do
  let writeBuf ← k.writeBuf.append buf buf.length
  .ok { k with writeBuf, channel := k.channel.enableWriting, issued := k.issued ++ buf }

/-- `ZeroCopyWrite`, which takes down what is to be sent. It does not enable writing, and
forgets a file that is still being sent. -/
def zeroCopyWrite (files : Files) (k : TcpConnection) (fd : ℤ) (offset len : ℕ) : TcpConnection :=
  { k with
    zeroCopyWriteFd := fd
    zeroCopyWriteOffset := offset
    zeroCopyLen := len
    zeroCopyWritedLen := 0
    issued := k.issued ++ Cyclic.get (files fd) offset len }

/-- `ClearZeroCopyWrite` -/
def clearZeroCopyWrite (k : TcpConnection) : TcpConnection :=
  { k with
    zeroCopyWriteFd := -1
    zeroCopyWriteOffset := 0
    zeroCopyLen := 0
    zeroCopyWritedLen := 0 }

/-- `ActiveClose` before it calls the close callback; `shutdown` is whether the call of
that name succeeds. -/
def activeClose (k : TcpConnection) (shutdown : Bool) : Except Fault TcpConnection := do
  check (k.state ≠ .kDisconnected)
  match k.state with
  | .kConnected =>
    -- the `PCHECK` of `socketop::DisableReading` ends the process
    check (shutdown = true)
    .ok { k with channel := k.channel.disableReading, state := .kDisconnected }
  -- a connection that is not up yet only waits to become writable
  | _ => .ok { k with channel := k.channel.disableWriting, state := .kDisconnected }

/-- `PassiveClose` of an open connection, before it calls the close callback. -/
def passiveClose (k : TcpConnection) : TcpConnection :=
  { k with channel := k.channel.disableReading.disableWriting, state := .kDisconnected }

/-! ## WriteToPeer -/

/-- `write_buf_.ConsumeBytes` behind a `write` that took `n` bytes. -/
def accept (k : TcpConnection) (n : ℕ) : Except Fault TcpConnection := do
  let writeBuf ← k.writeBuf.consumeBytes n
  .ok { k with writeBuf, sent := k.sent ++ k.writeBuf.readable.take n }

/-- The loop over the write buffer: the error other than `EAGAIN` that it ends with, if
it does, and the results that are left. When the results run out, `write` gives
`EAGAIN`. -/
def writeLoop : List IoResult → TcpConnection →
    Except Fault (TcpConnection × Option Bool × List IoResult)
  | [], k => .ok (k, none, [])
  | r :: rs, k =>
    if k.writeBuf.bytesToRead = 0 then .ok (k, none, r :: rs)
    else
      match r with
      | .again => .ok (k, none, rs)
      | .error shutdown => .ok (k, some shutdown, rs)
      | .ok n => do
        let k ← k.accept n
        writeLoop rs k

/-- `sendfile` takes `n` bytes. -/
def acceptFile (files : Files) (k : TcpConnection) (n : ℕ) : Except Fault TcpConnection := do
  check (k.zeroCopyWritedLen ≤ k.zeroCopyLen)
  check (n ≤ k.zeroCopyLen - k.zeroCopyWritedLen)
  .ok { k with
    zeroCopyWriteOffset := k.zeroCopyWriteOffset + n
    zeroCopyWritedLen := k.zeroCopyWritedLen + n
    sent := k.sent ++ Cyclic.get (files k.zeroCopyWriteFd) k.zeroCopyWriteOffset n }

/-- The loop over the file. -/
def sendfileLoop (files : Files) : List IoResult → TcpConnection →
    Except Fault (TcpConnection × Option Bool)
  | [], k => .ok (k, none)
  | r :: rs, k =>
    if k.zeroCopyWriteFd = -1 ∨ k.zeroCopyWritedLen = k.zeroCopyLen then .ok (k, none)
    else
      match r with
      | .again => .ok (k, none)
      | .error shutdown => .ok (k, some shutdown)
      | .ok n => do
        let k ← k.acceptFile files n
        sendfileLoop files rs k

/-- `bytes_to_read` was left by the first loop: everything has been written. -/
def writeDone (k : TcpConnection) (bytesToRead : ℕ) : Bool :=
  bytesToRead = 0 ∧ (k.zeroCopyWriteFd = -1 ∨ k.zeroCopyLen = k.zeroCopyWritedLen)

/-- The end of `WriteToPeer` when everything has been written. -/
def finishWrite (k : TcpConnection) : TcpConnection :=
  let k := if k.zeroCopyWriteFd ≠ -1 then k.clearZeroCopyWrite else k
  { k with channel := k.channel.disableWriting }

/-! ## ReadFromPeer -/

/-- The size of the buffer on the stack that `readv` fills behind the read buffer. -/
def localBufLen : ℕ := 65536

/-- The read buffer behind `readv`, for a result that does not close the connection. -/
def readFromPeer (k : TcpConnection) : ReadResult → Except Fault TcpConnection
  | .data bytes =>
    let bytesLeft := k.readBuf.bytesCanWrite
    let filled := k.readBuf.fill (bytes.take bytesLeft)
    if bytesLeft < bytes.length then do
      -- the rest has gone to the buffer on the stack
      let readBuf ← filled.addBytes bytesLeft
      let readBuf ← readBuf.append (bytes.drop bytesLeft) (bytes.length - bytesLeft)
      .ok { k with readBuf }
    else do
      let readBuf ← filled.addBytes bytes.length
      .ok { k with readBuf }
  | .again | .error =>
    -- `-1` is taken for a count
    let bytesLeft := k.readBuf.bytesCanWrite
    if bytesLeft < 2 ^ 64 - 1 then do
      let readBuf ← k.readBuf.addBytes bytesLeft
      let readBuf ← readBuf.append (List.replicate localBufLen 0) (2 ^ 64 - 1 - bytesLeft)
      .ok { k with readBuf }
    else do
      let readBuf ← k.readBuf.addBytes (2 ^ 64 - 1)
      .ok { k with readBuf }

/-! ## What the operations change -/

/-- `Write` buffers its bytes, counts them as issued and asks for writing. -/
theorem write_frame {k k' : TcpConnection} {buf : List UInt8} (hok : k.write buf = .ok k') :
    ∃ writeBuf, k' = { k with
      writeBuf, channel := k.channel.enableWriting, issued := k.issued ++ buf } := by
  rcases bind_ok.1 hok with ⟨writeBuf, -, hok⟩
  cases hok
  exact ⟨_, rfl⟩

/-- `ActiveClose` of an open connection changes the state and the events, and nothing else.
-/
theorem activeClose_frame {k k' : TcpConnection} {shutdown : Bool}
    (hok : k.activeClose shutdown = .ok k') :
    k.closed = false ∧
      ∃ events, k' = { k with
        channel := { k.channel with events }, state := .kDisconnected } := by
  rcases bind_ok.1 hok with ⟨_, hopen, hok⟩
  rw [check_ok] at hopen
  refine ⟨by simp [closed, hopen], ?_⟩
  split at hok
  · rcases bind_ok.1 hok with ⟨_, -, hok⟩
    cases hok
    exact ⟨_, rfl⟩
  · cases hok
    exact ⟨_, rfl⟩

/-- The loop that empties the buffer changes the buffer and what is sent. -/
theorem writeLoop_frame {rs rest : List IoResult} {k k' : TcpConnection}
    {failed : Option Bool} (hok : writeLoop rs k = .ok (k', failed, rest)) :
    ∃ writeBuf sent, k' = { k with writeBuf, sent } := by
  induction rs generalizing k with
  | nil =>
    cases hok
    exact ⟨_, _, rfl⟩
  | cons r rs ih =>
    -- the loop ends with nothing left, at EAGAIN or at an error; else one round and the rest
    unfold writeLoop at hok
    split at hok
    · cases hok
      exact ⟨_, _, rfl⟩
    · split at hok
      · cases hok
        exact ⟨_, _, rfl⟩
      · cases hok
        exact ⟨_, _, rfl⟩
      · rcases bind_ok.1 hok with ⟨k₁, haccept, hok⟩
        rcases bind_ok.1 haccept with ⟨writeBuf, -, haccept⟩
        cases haccept
        rcases ih hok with ⟨b, sent, hk'⟩
        exact ⟨b, sent, hk'⟩

/-- Without a file, or when all of it has been sent, the loop over the file does nothing. -/
theorem sendfileLoop_done {files : Files} {k : TcpConnection}
    (hdone : k.zeroCopyWriteFd = -1 ∨ k.zeroCopyWritedLen = k.zeroCopyLen) (rs : List IoResult) :
    sendfileLoop files rs k = .ok (k, none) := by
  cases rs with
  | nil => rfl
  | cons r rs => simp only [sendfileLoop, hdone, if_true]

/-- The loop that sends the file changes its counts and what is sent. -/
theorem sendfileLoop_frame {files : Files} {rs : List IoResult} {k k' : TcpConnection}
    {failed : Option Bool} (hok : sendfileLoop files rs k = .ok (k', failed)) :
    ∃ offset writed sent,
      k' = { k with zeroCopyWriteOffset := offset, zeroCopyWritedLen := writed, sent } := by
  induction rs generalizing k with
  | nil =>
    cases hok
    exact ⟨_, _, _, rfl⟩
  | cons r rs ih =>
    -- as in the loop of `write`: nothing left, EAGAIN, an error, or one round and the rest
    unfold sendfileLoop at hok
    split at hok
    · cases hok
      exact ⟨_, _, _, rfl⟩
    · split at hok
      · cases hok
        exact ⟨_, _, _, rfl⟩
      · cases hok
        exact ⟨_, _, _, rfl⟩
      · rcases bind_ok.1 hok with ⟨k₁, haccept, hok⟩
        rcases bind_ok.1 haccept with ⟨_, -, haccept⟩
        rcases bind_ok.1 haccept with ⟨_, -, haccept⟩
        cases haccept
        rcases ih hok with ⟨offset, writed, sent, hk'⟩
        exact ⟨offset, writed, sent, hk'⟩

/-- The end of a write stops asking for it and drops the file. -/
theorem finishWrite_frame (k : TcpConnection) :
    ∃ offset len writed, (k.zeroCopyWritedLen ≤ k.zeroCopyLen → writed ≤ len) ∧
      k.finishWrite = { k with
        channel := k.channel.disableWriting
        zeroCopyWriteFd := -1
        zeroCopyWriteOffset := offset
        zeroCopyLen := len
        zeroCopyWritedLen := writed } := by
  unfold finishWrite
  split
  · exact ⟨0, 0, 0, fun _ => Nat.le_refl 0, rfl⟩
  · rename_i hnone
    have hfd : k.zeroCopyWriteFd = -1 := not_not.1 hnone
    exact ⟨_, _, _, id, by rw [← hfd]⟩

/-- Reading changes the read buffer only. -/
theorem readFromPeer_frame {k k' : TcpConnection} {result : ReadResult}
    (hok : k.readFromPeer result = .ok k') : ∃ readBuf, k' = { k with readBuf } := by
  cases result with
  | data bytes =>
    simp only [readFromPeer] at hok
    split at hok
    · rcases bind_ok.1 hok with ⟨_, -, hok⟩
      rcases bind_ok.1 hok with ⟨_, -, hok⟩
      cases hok
      exact ⟨_, rfl⟩
    · rcases bind_ok.1 hok with ⟨_, -, hok⟩
      cases hok
      exact ⟨_, rfl⟩
  | again | error =>
    simp only [readFromPeer] at hok
    split at hok
    · rcases bind_ok.1 hok with ⟨_, -, hok⟩
      rcases bind_ok.1 hok with ⟨_, -, hok⟩
      cases hok
      exact ⟨_, rfl⟩
    · rcases bind_ok.1 hok with ⟨_, -, hok⟩
      cases hok
      exact ⟨_, rfl⟩

end TcpConnection

end FxServer
