import FxServer.HTTPCodec.Assertions
import FxServer.HTTPServer.Served
import FxServer.HTTPServer.Verdict
import FxServer.TcpConnection.Ends
import FxServer.TcpConnection.Interest

/-!
# FxServer.HTTPServer.Session — a connection of the server from its first byte to its last

`Run` gives the connections of the server to the codec, and the codec's callbacks to `OnRequest`
and `OnParseHeaderError`, which write a response and leave the rest to `WriteResponseDone`. A
session is one such connection under `HandleEvents`: the write callback, and then the read
callback, with whatever the system says to `write` and `readv`. Errors of the channel are only
logged, and have no part here.

The invariant has two phases. While the codec waits for the rest of a request nothing has been
written; once there is a verdict its response is in the write buffer or sent. Each event either
stays in its phase or takes the session from the first to the second.

* `handleEvents` — the step of a session.
* `Ready` — what the poller, the system and a client that waits for its response keep to.
* `session_answered` — no session fails; one response is written, for what the peer has sent, and
  it is sent in order, and all of it before the server closes the connection.
-/

namespace FxServer

open Machine

/-! ## WriteToPeer, when no file is to be sent -/

namespace TcpConnection

variable {files : Files} {k k' : TcpConnection} {rs rest : List IoResult} {failed : Option Bool}
  {called : List Called} {m : ℕ}

/-- `write` takes at most what it is given, `m` bytes at first, and a socket that it fails for can
be shut down. -/
def TakesAtMost : ℕ → List IoResult → Prop
  | m, .ok n :: rs => n ≤ m ∧ TakesAtMost (m - n) rs
  | _, .error shutdown :: _ => shutdown = true
  | _, .again :: _ | _, [] => True

instance decidableTakesAtMost : ∀ m rs, Decidable (TakesAtMost m rs)
  | _, [] | _, .again :: _ => .isTrue trivial
  | _, .error shutdown :: _ => inferInstanceAs (Decidable (shutdown = true))
  | m, .ok n :: rs =>
    have := decidableTakesAtMost (m - n) rs
    inferInstanceAs (Decidable (n ≤ m ∧ TakesAtMost (m - n) rs))

/-- What the kernel takes is no longer buffered. -/
theorem bytesToRead_accept {n : ℕ} (h : k.accept n = .ok k') :
    k'.writeBuf.bytesToRead = k.writeBuf.bytesToRead - n := by
  rcases bind_ok.1 h with ⟨writeBuf, hconsume, h⟩
  cases h
  rcases Buffer.consumeBytes_ok hconsume with ⟨-, hrest⟩
  show writeBuf.bytesToRead = _
  rw [← Buffer.length_readable, hrest, List.length_drop, Buffer.length_readable]

/-- A kernel that takes no more than it is given, and fails only where it can be shut down,
lets the loop end. -/
theorem writeLoop_isOk (htakes : TakesAtMost k.writeBuf.bytesToRead rs) :
    ∃ k' failed rest, writeLoop rs k = .ok (k', failed, rest) ∧ failed ≠ some false := by
  induction rs generalizing k with
  | nil => exact ⟨_, _, _, rfl, by simp⟩
  | cons r rs ih =>
    rw [writeLoop_cons]
    by_cases hempty : k.writeBuf.bytesToRead = 0
    · unfold writeRound
      simp only [hempty, if_true, ok_bind]
      exact ⟨_, _, _, rfl, by simp⟩
    · cases r with
      | again =>
        unfold writeRound
        simp only [hempty, if_false, ok_bind]
        exact ⟨_, _, _, rfl, by simp [IoResult.failure]⟩
      | error shutdown =>
        -- the socket failed, but it can still be shut down
        obtain rfl : shutdown = true := htakes
        unfold writeRound
        simp only [hempty, if_false, ok_bind]
        exact ⟨_, _, _, rfl, by simp [IoResult.failure]⟩
      | ok n =>
        -- the kernel took some of the bytes
        rcases writeRound_ok hempty htakes.1 with ⟨k₁, hround, hbytes⟩
        simp only [hround, ok_bind]
        exact ih (hbytes.symm ▸ htakes.2)

/-- The loop fails only with something left, and leaves everything to a socket that takes
nothing. -/
theorem writeLoop_left (hok : writeLoop rs k = .ok (k', failed, rest)) :
    (failed ≠ none → k'.writeBuf.bytesToRead ≠ 0) ∧
      (AcceptsNothing rs → k'.writeBuf.bytesToRead = k.writeBuf.bytesToRead) := by
  induction rs generalizing k with
  | nil =>
    cases hok
    exact ⟨by simp, fun _ => rfl⟩
  | cons r rs ih =>
    unfold writeLoop at hok
    split at hok
    · cases hok
      exact ⟨by simp, fun _ => rfl⟩
    · rename_i hne
      cases r with
      | again =>
        cases hok
        exact ⟨by simp, fun _ => rfl⟩
      | error shutdown =>
        cases hok
        -- an error leaves what was still buffered
        exact ⟨fun _ => hne, fun _ => rfl⟩
      | ok n =>
        rcases bind_ok.1 hok with ⟨k₁, haccept, hok⟩
        have hbytes := bytesToRead_accept haccept
        rcases ih hok with ⟨hfailed, hnothing⟩
        refine ⟨hfailed, ?_⟩
        rintro ⟨rfl, hrest⟩
        rw [hnothing hrest, hbytes, Nat.sub_zero]

/-- After such a loop the close path does not abort. -/
theorem closeFailed_isOk (k : TcpConnection) (hfailed : failed ≠ some false) :
    ∃ out, closeFailed k failed = .ok out := by
  unfold closeFailed
  split
  · -- the assertions of `ActiveClose`: the state, and the result of `shutdown`
    rename_i shutdown hopen
    have hstate : k.state ≠ .kDisconnected := by
      intro hclosed
      simp [closed, hclosed] at hopen
    have hshutdown : shutdown = true := by
      cases shutdown with
      | true => rfl
      | false => exact absurd rfl hfailed
    unfold activeClose
    rw [check_true hstate, ok_bind, check_true hshutdown]
    split <;> exact ⟨_, rfl⟩
  · exact ⟨_, rfl⟩

/-- After a kernel that takes no more than it is given `WriteToPeer` succeeds. -/
theorem writeToPeer_isOk (hfile : k.zeroCopyWriteFd = -1)
    (htakes : TakesAtMost k.writeBuf.bytesToRead rs) :
    ∃ out, writeToPeer files k rs = .ok out := by
  rcases writeLoop_isOk htakes with ⟨k₁, failed, rest, hwrite, hfailed⟩
  rcases closeFailed_isOk k₁ hfailed with ⟨⟨k₂, called⟩, hclose⟩
  have hfile₂ : k₂.zeroCopyWriteFd = -1 := by
    rcases writeLoop_frame hwrite with ⟨_, _, rfl⟩
    rcases closeFailed_inv hclose with ⟨⟨_, _, rfl⟩, -⟩
    exact hfile
  unfold writeToPeer
  simp only [hwrite, ok_bind, hclose, sendfileLoop_done (.inl hfile₂), closeFailed_none]
  split <;> exact ⟨_, rfl⟩

/-- How a call of `WriteToPeer` leaves the connection. -/
inductive Written (k k' : TcpConnection) (called : List Called) : Prop
  /-- everything has been written -/
  | done (hmem : Called.writeDone ∈ called) (hempty : k'.writeBuf.bytesToRead = 0)
    (hstate : k'.state = k.state) (hchannel : k'.channel = k.channel.disableWriting)
  /-- something is left -/
  | waits (hmem : Called.writeDone ∉ called) (hleft : k'.writeBuf.bytesToRead ≠ 0)
    (hstate : k'.state = k.state) (hchannel : k'.channel = k.channel)
  /-- `write` has failed, and something is left -/
  | fails (hmem : Called.writeDone ∉ called) (hleft : k'.writeBuf.bytesToRead ≠ 0)
    (hstate : k'.state = .kDisconnected) (hchannel : k'.channel = k.channel.disableReading)

/-- It accounts for every byte it takes from the buffer; a kernel that takes none changes
none. -/
theorem writeToPeer_written (hfile : k.zeroCopyWriteFd = -1) (hup : k.state ≠ .kConnecting)
    (hok : writeToPeer files k rs = .ok (k', called)) : Written k k' called ∧
      (AcceptsNothing rs → k'.writeBuf.bytesToRead = k.writeBuf.bytesToRead) := by
  rcases bind_ok.1 hok with ⟨⟨k₁, failed, rest⟩, hwrite, hok⟩
  rcases bind_ok.1 hok with ⟨⟨k₂, called₂⟩, hclose, hok⟩
  rcases writeLoop_left hwrite with ⟨hleft, hnothing⟩
  rcases writeLoop_frame hwrite with ⟨writeBuf, sent, hk₁⟩
  have hfile₁ : k₁.zeroCopyWriteFd = -1 := by rw [hk₁, hfile]
  have hstate₁ : k₁.state = k.state := by rw [hk₁]
  have hchannel₁ : k₁.channel = k.channel := by rw [hk₁]
  rcases closeFailed_inv hclose with ⟨⟨channel, state, hk₂⟩, hcalled⟩
  have hfile₂ : k₂.zeroCopyWriteFd = -1 := by rw [hk₂, hfile₁]
  have hbuf₂ : k₂.writeBuf = k₁.writeBuf := by rw [hk₂]
  simp only [sendfileLoop_done (.inl hfile₂), ok_bind, closeFailed_none, List.append_nil] at hok
  unfold closeFailed at hclose
  split at hclose
  · -- `write` has failed, and the connection is closed
    rcases bind_ok.1 hclose with ⟨k₃, hactive, hclose⟩
    cases hclose
    have hne := hleft (Option.some_ne_none _)
    rw [if_neg (by simp [writeDone, hne])] at hok
    cases hok
    rcases bind_ok.1 hactive with ⟨_, hopen, hactive⟩
    rw [check_ok, hstate₁] at hopen
    have hstate : k.state = .kConnected := by
      cases hk : k.state with
      | kConnected => rfl
      | kConnecting => exact absurd hk hup
      | kDisconnected => exact absurd hk hopen
    rw [hstate₁, hstate] at hactive
    rcases bind_ok.1 hactive with ⟨_, -, hactive⟩
    cases hactive
    exact ⟨.fails hcalled hne rfl (congrArg Channel.disableReading hchannel₁), hnothing⟩
  · cases hclose
    split at hok
    · -- everything has been written
      rename_i hdone
      cases hok
      have hempty : k₁.writeBuf.bytesToRead = 0 := by
        have hboth : k₁.writeBuf.bytesToRead = 0 ∧ _ := of_decide_eq_true hdone
        exact hboth.1
      rcases finishWrite_frame k₁ with ⟨offset, len, writed, -, hfinished⟩
      rw [hfinished]
      exact ⟨.done (by simp) hempty hstate₁ (congrArg Channel.disableWriting hchannel₁), hnothing⟩
    · rename_i hmore
      cases hok
      refine ⟨.waits hcalled (fun hempty => hmore ?_) hstate₁ hchannel₁, hnothing⟩
      simp [writeDone, hempty, hfile₁]

end TcpConnection

/-! ## The response to a callback -/

namespace HTTPCodec

/-- The callback that the codec makes when all of `d` comes at once. -/
def verdict (boost : Boost) (d : List UInt8) : Option Callback :=
  match onMessage boost HTTPServer.codec (some onNewConnection) (.ofList d) with
  | .ok (_, msg) => msg.callback
  | .error _ => none

section Verdict

variable {boost : Boost} {d : List UInt8} {k : HTTPConnection} {msg : Message}
  {req : HTTPRequest} {res : HTTPResponse} {callback : Callback}

theorem verdict_ok (h : onMessage boost HTTPServer.codec (some onNewConnection) (.ofList d) =
    .ok (k, msg)) : verdict boost d = msg.callback := by
  rw [verdict, h]

/-- A callback has been made by a call that did not fail. -/
theorem verdict_some (h : verdict boost d = some callback) : ∃ k msg,
    onMessage boost HTTPServer.codec (some onNewConnection) (.ofList d) = .ok (k, msg) ∧
      msg.callback = some callback := by
  unfold verdict at h
  split at h
  · rename_i k msg hok
    exact ⟨k, msg, hok, h⟩
  · cases h

/-- There is one exactly when the stream is settled. -/
theorem verdict_settled : verdict boost d ≠ none ↔ settled boost d = true := by
  have hsettled : Answers (onMessage boost HTTPServer.codec (some onNewConnection) (.ofList d)) ↔
      settled boost (Buffer.ofList d).readable = true := onMessage_start
  rw [Buffer.readable_ofList] at hsettled
  rw [← hsettled]
  constructor
  · intro h
    rcases Option.ne_none_iff_exists'.1 h with ⟨callback, hcallback⟩
    rcases verdict_some hcallback with ⟨k, msg, hok, hmsg⟩
    exact ⟨k, msg, hok, by simp [hmsg]⟩
  · rintro ⟨k, msg, hok, hmsg⟩
    rwa [verdict_ok hok]

theorem verdict_none (h : settled boost d = false) : verdict boost d = none := by
  by_contra hne
  cases h.symm.trans (verdict_settled.1 hne)

/-- A request the verdict passes on has no candidates yet. -/
theorem verdict_candidates (h : verdict boost d = some (.request req)) :
    req.requestPathCandidates = [] := by
  rcases verdict_some h with ⟨k, msg, hok, hmsg⟩
  have hrun : run (receive boost HTTPServer.codec) start [whole d] = .ok (k, [msg]) :=
    run_cons_ok hok (run_nil k)
  exact parsed_candidates hrun (List.mem_singleton_self msg) hmsg

/-- Every error that is found is a bad request. -/
theorem verdict_error (h : verdict boost d = some (.error res)) : res = .new 400 := by
  rcases verdict_some h with ⟨k, msg, hok, hmsg⟩
  rw [onMessage_some] at hok
  rcases bind_ok.1 hok with ⟨⟨r, s, b⟩, hparse, hok⟩
  simp only [conclude, HTTPServer.codec] at hok
  split at hok
  · rename_i herror
    obtain rfl : r = .kParseError := herror.1
    rcases parsing_last (by decide) hparse (by decide) with ⟨s₀, b₀, -, hcall⟩
    -- every parse error is a 400
    have hres : s.res = some (.new 400) := by
      cases call_called hcall with
      | fails req => rfl
    rw [hres] at hok
    cases hok
    cases hmsg
    rfl
  · split at hok
    · cases hok
      cases hmsg
    · cases hok
      cases hmsg

end Verdict

end HTTPCodec

namespace HTTPServer

open HTTPModuleFileAccessor HTTPModuleRequestRewrite HTTPModuleRequestValidator Trace
open HTTPCodec (Callback Resumes announcesEmptyBody onMessage onNewConnection settled verdict)
open TcpConnection (AcceptsNothing Called TakesAtMost Written writeToPeer)

/-- What `OnRequest` and `OnParseHeaderError` pass to `WriteResponseAndClose`. -/
def responseTo (os : ℕ → OS) (basePath : CString) : Callback → Except Fault HTTPResponse
  | .request req => outcome (onRequest os basePath req) []
  | .error res => .ok res

/-- A response that is sent from a file has no length, and nothing is sent of it. -/
def SentFromMemory (res : HTTPResponse) : Prop := res.isZeroCopyBody = true → res.bodyLength = 0

section Responses

variable {files : Files} {os : ℕ → OS} {basePath : CString} {r req : HTTPRequest}
  {res : HTTPResponse} {conn conn' : TcpConnection} {now : Ptime} {fd byteSize n : ℕ}

theorem sentFromMemory_new (status : ℕ) : SentFromMemory (.new status) := fun h => by cases h

/-- A file opened for sending leaves the length at 0; one that is read is sent from memory.
-/
theorem readOpened_fromMemory (hlen : res.bodyLength = 0) (hmem : res.isZeroCopyBody = false)
    {res' : HTTPResponse} (h : readOpened os n fd byteSize res = .ok res') :
    SentFromMemory res' := by
  unfold readOpened at h
  split at h
  · cases h
    exact fun _ => hlen
  · split at h
    · cases h
      intro hzero
      exact absurd (hmem.symm.trans hzero) (by simp)
    · rcases bind_ok.1 h with ⟨_, -, h⟩
      cases h
      intro hzero
      exact absurd (hmem.symm.trans hzero) (by simp)

theorem gives_checkFileCanRead (path : List UInt8) :
    Gives (fun _ => True) (checkFileCanRead os basePath path) fun _ => True :=
  (gives_note trivial).bind fun _ _ => gives_pure trivial

/-- What `ReadFile` makes of a response is sent from memory. -/
theorem gives_readFile (hlen : res.bodyLength = 0) (hmem : res.isZeroCopyBody = false) :
    Gives (fun _ => True) (readFile os basePath req res) SentFromMemory := by
  unfold readFile
  refine (gives_checkFileCanRead _).bind fun out _ => ?_
  refine (gives_lift fun _ _ => trivial : Gives _ _ fun _ => True).bind fun _ _ => ?_
  refine (gives_note trivial).bind fun now _ => ?_
  split
  · exact gives_pure fun hzero => absurd (hmem.symm.trans hzero) (by simp)
  · exact gives_lift fun res' h => readOpened_fromMemory hlen hmem h

/-- What the search finds is sent from memory. -/
theorem gives_findCandidate (candidates : List (List UInt8)) :
    Gives (fun _ => True) (findCandidate os basePath req candidates)
      fun out => ∀ res ∈ out.2, SentFromMemory res := by
  have hmade : ∀ status, ∀ res ∈ some (makeResponse status), SentFromMemory res := by
    rintro status res ⟨rfl⟩
    exact sentFromMemory_new status
  induction candidates with
  | nil => exact gives_pure (hmade 404)
  | cons path candidates ih =>
    refine (gives_checkFileCanRead path).bind fun out _ => ?_
    rcases out with ⟨ret, byteSize⟩
    cases ret with
    -- found: the response comes later, from `ReadFile`
    | kOk => exact gives_pure fun res hres => by cases hres
    | kNotFound => exact ih
    | kForbidden => exact gives_pure (hmade 403)
    | kNotFile => exact gives_pure (hmade 400)
    | kInternalError => exact gives_pure (hmade 500)

/-- A refusal of the validator is sent from memory. -/
theorem process_fromMemory (h : process r = .ok (some res)) : SentFromMemory res := by
  unfold process at h
  simp only at h
  split at h
  · cases h
  · split at h
    · cases h
      exact sentFromMemory_new 400
    · split at h
      · cases h
        exact sentFromMemory_new 400
      · split at h
        · cases h
          exact sentFromMemory_new 501
        · cases h

/-- Whatever `OnRequest` returns is sent from memory. -/
theorem gives_onRequest : Gives (fun _ => True) (onRequest os basePath r) SentFromMemory := by
  unfold onRequest
  refine (gives_lift fun verdict h => h : Gives _ _ fun verdict =>
    process r = .ok verdict).bind fun verdict hverdict => ?_
  split
  · exact gives_pure (process_fromMemory hverdict)
  · refine (gives_lift fun _ _ => trivial : Gives _ _ fun _ => True).bind fun req _ => ?_
    have hfind : Gives (fun _ => True) (preProcessing os basePath req)
        fun out => ∀ res ∈ out.2, SentFromMemory res :=
      (gives_lift fun _ _ => trivial : Gives _ _ fun _ => True).bind
        fun _ _ => gives_findCandidate _
    refine hfind.bind fun out hout => ?_
    split
    · exact gives_pure (hout _ rfl)
    · exact gives_readFile rfl rfl

/-- Every response to a verdict is sent from memory. -/
theorem responseTo_fromMemory {boost : Boost} {d : List UInt8} {callback : Callback}
    (hverdict : verdict boost d = some callback)
    (h : responseTo os basePath callback = .ok res) : SentFromMemory res := by
  cases callback with
  | request req => exact (gives_onRequest []).2 res h
  | error res' =>
    cases h
    rw [HTTPCodec.verdict_error hverdict]
    exact sentFromMemory_new 400

/-- The response lies in the write buffer, and the channel waits for the socket. -/
theorem writeResponseAndClose_waits (hmem : SentFromMemory res)
    (hinv : TcpConnection.Inv files conn) (hfile : conn.zeroCopyWriteFd = -1)
    (h : writeResponseAndClose files conn res now = .ok conn') :
    TcpConnection.Inv files conn' ∧ conn'.zeroCopyWriteFd = -1 ∧ conn'.state = conn.state ∧
      conn'.channel.writing = true ∧ conn'.channel.reading = conn.channel.reading := by
  rcases bind_ok.1 h with ⟨conn₁, hwrite, h⟩
  rcases TcpConnection.write_inv hinv hfile hwrite with ⟨hinv₁, hfile₁, -⟩
  rcases TcpConnection.write_frame hwrite with ⟨writeBuf, hconn₁⟩
  have hfirst : conn₁.state = conn.state ∧ conn₁.channel = conn.channel.enableWriting := by
    rw [hconn₁]
    exact ⟨rfl, rfl⟩
  split at h
  · rename_i hbody
    -- with a length the body is in memory
    rw [if_neg (fun hzero => hbody (hmem hzero))] at h
    rcases TcpConnection.write_inv hinv₁ hfile₁ h with ⟨hinv₂, hfile₂, -⟩
    rcases TcpConnection.write_frame h with ⟨writeBuf', hconn'⟩
    refine ⟨hinv₂, hfile₂, ?_⟩
    rw [hconn']
    simp [hfirst]
  · cases h
    refine ⟨hinv₁, hfile₁, hfirst.1, ?_⟩
    simp [hfirst]

end Responses

/-! ## Deciding what is asked -/

section Decide

variable {os : ℕ → OS} {basePath : CString}

instance (n : ℕ) (path : List UInt8) : Decidable (Rereads os basePath n path) :=
  decidable_of_iff ((checkStat (os n) (absPath basePath path)).1 = .kOk ∧
      ∀ fd ∈ (os (n + 1)).openFile (absPath basePath path),
        (checkStat (os n) (absPath basePath path)).2 < zeroCopyFileMinSize →
          ∀ bytes ∈ (os (n + 1)).pread fd (checkStat (os n) (absPath basePath path)).2,
            bytes.length = (checkStat (os n) (absPath basePath path)).2)
    ⟨fun ⟨hstat, h⟩ => ⟨hstat, fun fd bytes hopen hsmall hread => h fd hopen hsmall bytes hread⟩,
      fun ⟨hstat, h⟩ => ⟨hstat, fun fd hopen hsmall bytes hread => h fd bytes hopen hsmall hread⟩⟩

instance decidableSteady : ∀ n candidates, Decidable (Steady os basePath n candidates)
  | _, [] => .isTrue trivial
  | n, path :: candidates =>
    have := decidableSteady (n + 1) candidates
    match hstat : (checkStat (os n) (absPath basePath path)).1 with
    | .kOk => decidable_of_iff (Rereads os basePath (n + 1) path) (by simp [Steady, hstat])
    | .kNotFound => decidable_of_iff (Steady os basePath (n + 1) candidates)
        (by simp [Steady, hstat])
    | .kForbidden | .kNotFile | .kInternalError => .isTrue (by simp [Steady, hstat])

instance (r : HTTPRequest) : Decidable (Acceptable r) := by
  unfold Acceptable
  infer_instance

instance (r : HTTPRequest) : Decidable (Answerable os basePath r) := by
  unfold Answerable
  infer_instance

end Decide

/-! ## Sessions -/

/-- A connection of the server, with what the codec and the server keep in it. -/
structure Session where
  conn : TcpConnection
  /-- the context, which is the state of parsing -/
  context : Option HTTPRequestParsingState
  /-- the write-done callback is `WriteResponseDone` -/
  closesWhenDone : Bool
  /-- history: the bytes that have come from the peer -/
  received : List UInt8
  /-- history: the callbacks that the codec has made -/
  callbacks : List Callback
  /-- history: `WriteResponseDone` has been called -/
  done : Bool

/-- What the system says when the channel is ready. -/
structure Readiness where
  /-- the results of `write`, when the write callback is called -/
  writes : Option (List IoResult)
  /-- whether the `shutdown` of `WriteResponseDone` succeeds -/
  shutdown : Bool
  /-- the result of `readv`, when the read callback is called -/
  reads : Option ReadResult
  /-- the time, if a response is made -/
  now : Ptime

namespace Session

/-- An accepted connection, behind `OnNewConnection` of the codec and `StartReading`. -/
def new (loop fd : ℕ) : Session where
  conn :=
    let conn := TcpConnection.new loop fd .kConnected
    { conn with channel := conn.channel.enableReading }
  context := some onNewConnection
  closesWhenDone := false
  received := []
  callbacks := []
  done := false

variable (boost : Boost) (os : ℕ → OS) (basePath : CString) (files : Files)

/-- `WriteToPeer`, with `WriteResponseDone` at its end. -/
def writeToPeer (s : Session) (results : List IoResult) (shutdown : Bool) :
    Except Fault Session := do
  let (conn, called) ← TcpConnection.writeToPeer files s.conn results
  if Called.writeDone ∈ called ∧ s.closesWhenDone = true then do
    let conn ← conn.activeClose shutdown
    .ok { s with conn, done := true }
  else .ok { s with conn }

/-- `OnRequest` or `OnParseHeaderError`. -/
def answer (s : Session) (callback : Callback) (now : Ptime) : Except Fault Session := do
  let res ← responseTo os basePath callback
  let conn ← writeResponseAndClose files s.conn res now
  .ok { s with conn, closesWhenDone := true }

/-- `ReadFromPeer`, with the `OnMessage` of the codec, and the callback that it makes. -/
def readFromPeer (s : Session) (result : ReadResult) (now : Ptime) : Except Fault Session := do
  let conn ← s.conn.receive result
  if result.closes then .ok { s with conn }
  else do
    let (k, msg) ← onMessage boost codec s.context conn.readBuf
    let s := { s with
      conn := { conn with readBuf := k.readBuf }
      context := k.context
      received := s.received ++ result.delivered }
    match msg.callback with
    | none => .ok s
    | some callback =>
      answer os basePath files { s with callbacks := s.callbacks ++ [callback] } callback now

/-- `HandleEvents`: the write callback comes before the read callback. -/
def handleEvents (s : Session) (ready : Readiness) : Except Fault Session := do
  let s ← match ready.writes with
    | none => .ok s
    | some results => s.writeToPeer files results ready.shutdown
  match ready.reads with
  | none => .ok s
  | some result => s.readFromPeer boost os basePath files result ready.now

/-- A step of the session as a machine without outputs. -/
def step (s : Session) (ready : Readiness) : Except Fault (Session × Unit) := do
  let s ← s.handleEvents boost os basePath files ready
  .ok (s, ())

/-! ## What is asked of the others -/

/-- The write callback is called while writing is enabled. `write` takes what there is, and of a
socket that has failed nothing more. -/
def WriteReady (s : Session) : Option (List IoResult) → Prop
  | none => True
  | some results => s.conn.channel.writing = true ∧
    TakesAtMost s.conn.writeBuf.bytesToRead results ∧
    (s.conn.closed = true → AcceptsNothing results)

/-- There is room for the response, if there is one. -/
def Fits (conn : TcpConnection) (now : Ptime) : Except Fault HTTPResponse → Prop
  | .ok res => Room conn ((HTTPCodec.encodeResponse res now).length + res.body.length)
  | .error _ => True

/-- No module fails for the request. -/
def Accepted : Option Callback → Prop
  | some (.request req) => Answerable os basePath req
  | some (.error _) | none => True

/-- Behind a whole request, or a malformed line, the client waits. It does not send a content
length of zero, nor a request for which a module fails. -/
structure Sends (s : Session) (bytes : List UInt8) (now : Ptime) : Prop where
  /-- the client sends nothing behind a request that is settled -/
  waits : settled boost s.received = false
  /-- the read buffer can grow by what it sends -/
  room : s.conn.readBuf.HasRoom bytes.length
  /-- no body of no bytes is announced -/
  body : announcesEmptyBody boost (s.received ++ bytes) = false
  /-- no module fails for the request -/
  accepted : Accepted os basePath (verdict boost (s.received ++ bytes))
  /-- there is room for the response -/
  fits : ∀ callback ∈ (verdict boost (s.received ++ bytes)).toList,
    Fits s.conn now (responseTo os basePath callback)

/-- The read callback is called while reading is enabled, and something can be read. -/
def ReadReady (s : Session) (now : Ptime) : Option ReadResult → Prop
  | none => True
  | some (.data bytes) => s.conn.channel.reading = true ∧
    (bytes ≠ [] → s.Sends boost os basePath bytes now)
  | some .again => False
  | some .error => s.conn.channel.reading = true

/-- A connection that the server closes can be shut down: it has not been reset. -/
def Ready (s : Session) (ready : Readiness) : Prop :=
  s.WriteReady ready.writes ∧ ready.shutdown = true ∧
    s.ReadReady boost os basePath ready.now ready.reads

instance (s : Session) : DecidablePred s.WriteReady
  | none => .isTrue trivial
  | some results => inferInstanceAs (Decidable (s.conn.channel.writing = true ∧
      TakesAtMost s.conn.writeBuf.bytesToRead results ∧
      (s.conn.closed = true → AcceptsNothing results)))

instance (conn : TcpConnection) (now : Ptime) : DecidablePred (Fits conn now)
  | .ok res => inferInstanceAs (Decidable (conn.writeBuf.byteSize +
      2 * ((HTTPCodec.encodeResponse res now).length + res.body.length) ≤ Buffer.maxSize))
  | .error _ => .isTrue trivial

instance : DecidablePred (Accepted os basePath)
  | some (.request req) => inferInstanceAs (Decidable (Answerable os basePath req))
  | some (.error _) | none => .isTrue trivial

instance (s : Session) (bytes : List UInt8) (now : Ptime) :
    Decidable (s.Sends boost os basePath bytes now) :=
  decidable_of_iff (settled boost s.received = false ∧ s.conn.readBuf.HasRoom bytes.length ∧
    announcesEmptyBody boost (s.received ++ bytes) = false ∧
    Accepted os basePath (verdict boost (s.received ++ bytes)) ∧
    ∀ callback ∈ (verdict boost (s.received ++ bytes)).toList,
      Fits s.conn now (responseTo os basePath callback))
    ⟨fun ⟨hwaits, hroom, hbody, haccepted, hfits⟩ => ⟨hwaits, hroom, hbody, haccepted, hfits⟩,
      fun h => ⟨h.waits, h.room, h.body, h.accepted, h.fits⟩⟩

instance (s : Session) (now : Ptime) : DecidablePred (s.ReadReady boost os basePath now)
  | none => .isTrue trivial
  | some (.data bytes) => inferInstanceAs (Decidable (s.conn.channel.reading = true ∧
      (bytes ≠ [] → s.Sends boost os basePath bytes now)))
  | some .again => .isFalse id
  | some .error => inferInstanceAs (Decidable (s.conn.channel.reading = true))

instance (s : Session) : DecidablePred (s.Ready boost os basePath) := fun ready =>
  inferInstanceAs (Decidable (s.WriteReady ready.writes ∧ ready.shutdown = true ∧
    s.ReadReady boost os basePath ready.now ready.reads))

/-! ## The invariant -/

/-- The codec waits for the rest of the request, and nothing has been written. -/
structure Reading (s : Session) : Prop where
  /-- the codec goes on as from the start with all that has come -/
  resumes : ∃ state, s.context = some state ∧
    Resumes boost codec s.received state s.conn.readBuf
  /-- nothing has been written -/
  issued : s.conn.issued = []
  /-- so the channel does not wait for the socket -/
  writing : s.conn.channel.writing = false
  done : s.done = false

/-- The response has been written, and `WriteToPeer` is to send it. -/
structure Answering (s : Session) (callback : Callback) : Prop where
  /-- just the response to the callback has been written -/
  response : ∃ res now, responseTo os basePath callback = .ok res ∧
    s.conn.issued = HTTPCodec.encodeResponse res now ++ bodyBytes files res
  /-- `WriteResponseDone` is set -/
  closesWhenDone : s.closesWhenDone = true
  /-- as long as something is left the channel waits for the socket -/
  writing : s.conn.closed = false → s.conn.channel.writing = true
  /-- a connection that was closed before the end has something left -/
  left : s.conn.closed = true → s.conn.channel.writing = true → s.conn.writeBuf.bytesToRead ≠ 0
  /-- and one that was closed by `WriteResponseDone` has nothing left -/
  done : s.done = true → s.conn.closed = true ∧ s.conn.channel.writing = false ∧
    s.conn.sent = s.conn.issued

/-- The phase of a session, by the verdict on what has come. -/
def Phase (s : Session) : Option Callback → Prop
  | none => s.Reading boost
  | some callback => s.Answering os basePath files callback

/-- The output is in order, the channel reads until the connection is closed, and the
session is in the phase in which the bytes received so far have put it. -/
structure Inv (s : Session) : Prop where
  /-- what was issued is sent, or is held in order -/
  output : TcpConnection.Inv files s.conn
  /-- no response is sent from a file -/
  noFile : s.conn.zeroCopyWriteFd = -1
  /-- the connection is connected, or has been -/
  up : s.conn.state ≠ .kConnecting
  /-- reading is enabled until the connection is closed -/
  reading : s.conn.channel.reading = !s.conn.closed
  /-- the codec has made the callback for what has come, if there is one -/
  callbacks : s.callbacks = (verdict boost s.received).toList
  /-- the phase is the one of the verdict on what has come -/
  phase : s.Phase boost os basePath files (verdict boost s.received)

/-- What can be said of a session at any time. -/
structure Answered (s : Session) : Prop where
  /-- the codec makes one callback, for what has come, or none -/
  callbacks : s.callbacks = (verdict boost s.received).toList
  /-- before the callback nothing is written -/
  silent : verdict boost s.received = none → s.conn.issued = []
  /-- and behind it the response -/
  response : ∀ callback, verdict boost s.received = some callback →
    ∃ res now, responseTo os basePath callback = .ok res ∧
      s.conn.issued = HTTPCodec.encodeResponse res now ++ bodyBytes files res
  /-- it is sent in order -/
  order : s.conn.sent <+: s.conn.issued
  /-- and completely, before `WriteResponseDone` closes the connection -/
  complete : s.done = true → s.conn.closed = true ∧ verdict boost s.received ≠ none ∧
    s.conn.sent = s.conn.issued
  /-- an open connection waits for more of the request, or for the socket to take the rest -/
  waits : s.conn.closed = false →
    if verdict boost s.received = none then s.conn.channel.reading = true
    else s.conn.channel.writing = true ∧ ∀ now, ∃ s', s.handleEvents boost os basePath files
      ⟨some [.ok s.conn.writeBuf.bytesToRead], true, none, now⟩ = .ok s' ∧ s'.done = true

variable {boost os basePath files} {s s' : Session} {results : List IoResult} {now : Ptime}
  {bytes : List UInt8} {result : ReadResult} {callback : Callback} {conn : TcpConnection}

theorem closed_iff : s.conn.closed = true ↔ s.conn.state = .kDisconnected := by
  simp [TcpConnection.closed]

theorem new_inv (loop fd : ℕ) : Inv boost os basePath files (new loop fd) := by
  have hverdict : verdict boost (new loop fd).received = none := HTTPCodec.verdict_none rfl
  -- nothing has been received, so the connection is reading
  have hreading : (new loop fd).Reading boost := {
    resumes := ⟨onNewConnection, rfl, HTTPCodec.resumes_start boost codec⟩
    issued := rfl
    writing := by
      refine (Channel.writing_enableReading _).trans ?_
      simp [TcpConnection.new, Channel.writing_eq]
    done := rfl }
  constructor
  · exact ⟨rfl, Nat.le_refl _⟩
  · rfl
  · simp [new, TcpConnection.new]
  · simp [new, TcpConnection.new, TcpConnection.closed]
  · rw [hverdict]
    rfl
  · rw [hverdict]
    exact hreading

/-! ## WriteToPeer -/

/-- The write callback is not called before there is a response. -/
theorem Inv.answering (h : Inv boost os basePath files s)
    (hwriting : s.conn.channel.writing = true) :
    ∃ callback, verdict boost s.received = some callback ∧
      s.Answering os basePath files callback := by
  have hphase := h.phase
  cases hverdict : verdict boost s.received with
  | none =>
    rw [hverdict] at hphase
    cases hphase.writing.symm.trans hwriting
  | some callback =>
    rw [hverdict] at hphase
    exact ⟨callback, rfl, hphase⟩

/-- Of a session that is answering only the connection changes. -/
theorem Inv.withConn (h : Inv boost os basePath files s)
    (hverdict : verdict boost s.received = some callback) (houtput : TcpConnection.Inv files conn)
    (hfile : conn.zeroCopyWriteFd = -1) (hup : conn.state ≠ .kConnecting)
    (hreading : conn.channel.reading = !conn.closed) (done : Bool)
    (hanswering : Answering os basePath files { s with conn, done } callback) :
    Inv boost os basePath files { s with conn, done } :=
  ⟨houtput, hfile, hup, hreading, h.callbacks, by
    show Phase boost os basePath files { s with conn, done } (verdict boost s.received)
    rw [hverdict]
    exact hanswering⟩

/-- Writing keeps the invariant, and a write-done callback ends the session. -/
theorem writeToPeer_inv (h : Inv boost os basePath files s) (hready : s.WriteReady (some results)) :
    ∃ s', s.writeToPeer files results true = .ok s' ∧ Inv boost os basePath files s' ∧
      ∀ conn called, TcpConnection.writeToPeer files s.conn results = .ok (conn, called) →
        Called.writeDone ∈ called → s'.done = true := by
  rcases hready with ⟨hwriting, htakes, hdead⟩
  rcases h.answering hwriting with ⟨callback, hverdict, hanswering⟩
  rcases TcpConnection.writeToPeer_isOk h.noFile htakes with ⟨⟨conn, called⟩, hwrite⟩
  rcases TcpConnection.writeToPeer_inv h.output (fun hfd => absurd h.noFile hfd) hwrite with
    ⟨houtput, hissued, hfile, hsent⟩
  obtain ⟨res, now, hres, hresponse⟩ := hanswering.response
  have hresponse' : ∃ res now, responseTo os basePath callback = .ok res ∧
      conn.issued = HTTPCodec.encodeResponse res now ++ bodyBytes files res :=
    ⟨res, now, hres, hissued.trans hresponse⟩
  have hnotDone : s.done = false := by
    cases hdone : s.done with
    | false => rfl
    | true => cases (hanswering.done hdone).2.1.symm.trans hwriting
  rcases TcpConnection.writeToPeer_written h.noFile h.up hwrite with ⟨hwritten, hnothing⟩
  have hnever : Called.writeDone ∉ called → ∀ conn' called',
      (.ok (conn, called) : Except Fault _) = .ok (conn', called') →
        Called.writeDone ∈ called' → s.done = true := by
    rintro hmem conn' called' ⟨⟩ hmem'
    exact absurd hmem' hmem
  unfold writeToPeer
  rw [hwrite, ok_bind]
  cases hwritten with
  | done hmem hempty hstate hchannel =>
    -- the connection is open, or something would have been left
    have hopen : s.conn.closed = false := by
      cases hclosed : s.conn.closed with
      | false => rfl
      | true =>
        have hleft := hanswering.left hclosed hwriting
        exact absurd ((hnothing (hdead hclosed)).symm.trans hempty) hleft
    have hup : conn.state = .kConnected := by
      cases hk : s.conn.state with
      | kConnected => exact hstate.trans hk
      | kConnecting => exact absurd hk h.up
      | kDisconnected => cases hopen.symm.trans (closed_iff.2 hk)
    have hactive : conn.activeClose true = .ok { conn with
        channel := conn.channel.disableReading, state := .kDisconnected } := by
      unfold TcpConnection.activeClose
      rw [check_true (by rw [hup]; decide), ok_bind, hup]
      rfl
    refine ⟨_, (if_pos ⟨hmem, hanswering.closesWhenDone⟩).trans
      (bind_ok.2 ⟨_, hactive, rfl⟩), ?_, fun _ _ _ _ => rfl⟩
    have houtput' : TcpConnection.Inv files { conn with
        channel := conn.channel.disableReading, state := .kDisconnected } :=
      ⟨houtput.order, houtput.writed_le⟩
    refine h.withConn hverdict houtput' (hfile h.noFile) ?_ ?_ true ?_
    · exact TcpConnectionState.noConfusion
    · exact Channel.reading_disableReading _
    · have hwriting' : conn.channel.disableReading.writing = false := by
        rw [Channel.writing_disableReading, hchannel]
        exact Channel.writing_disableWriting _
      refine ⟨hresponse', hanswering.closesWhenDone, ?_, ?_, ?_⟩
      · intro hopen
        cases hopen
      · intro _ hwriting
        cases hwriting'.symm.trans hwriting
      · exact fun _ => ⟨rfl, hwriting', hsent hmem⟩
  | waits hmem hleft hstate hchannel =>
    have hclosed : conn.closed = s.conn.closed := by rw [TcpConnection.closed, hstate]; rfl
    refine ⟨{ s with conn }, if_neg fun h => hmem h.1, ?_, hnever hmem⟩
    refine h.withConn hverdict houtput (hfile h.noFile) (hstate ▸ h.up) ?_ s.done ?_
    · rw [hchannel, hclosed]
      exact h.reading
    · refine ⟨hresponse', hanswering.closesWhenDone, ?_, fun _ _ => hleft, ?_⟩
      · intro _
        show conn.channel.writing = true
        rw [hchannel, hwriting]
      · intro hdone
        cases hnotDone.symm.trans hdone
  | fails hmem hleft hstate hchannel =>
    refine ⟨{ s with conn }, if_neg fun h => hmem h.1, ?_, hnever hmem⟩
    refine h.withConn hverdict houtput (hfile h.noFile) (by rw [hstate]; decide) ?_ s.done ?_
    · rw [hchannel, Channel.reading_disableReading, TcpConnection.closed, hstate]
      rfl
    · refine ⟨hresponse', hanswering.closesWhenDone, ?_, fun _ _ => hleft, ?_⟩
      · intro hopen
        have hclosed : conn.closed = true := by rw [TcpConnection.closed, hstate]; rfl
        cases hopen.symm.trans hclosed
      · intro hdone
        cases hnotDone.symm.trans hdone

/-! ## ReadFromPeer -/

/-- The peer has closed the connection, or it has failed. -/
theorem readFromPeer_closes (h : Inv boost os basePath files s) (hcloses : result.closes = true) :
    ∃ s', s.readFromPeer boost os basePath files result now = .ok s' ∧
      Inv boost os basePath files s' := by
  have hreceive : s.conn.receive result =
      .ok (if s.conn.closed then s.conn else s.conn.passiveClose) := if_pos hcloses
  unfold readFromPeer
  rw [hreceive, ok_bind, if_pos hcloses]
  cases hclosed : s.conn.closed with
  -- it was closed before: nothing changes
  | true => exact ⟨s, rfl, h⟩
  | false =>
    refine ⟨_, rfl, ?_⟩
    have hwriting : s.conn.passiveClose.channel.writing = false :=
      Channel.writing_disableWriting _
    have hreading : s.conn.passiveClose.channel.reading = false :=
      (Channel.reading_disableWriting _).trans (Channel.reading_disableReading _)
    have hphase := h.phase
    refine ⟨⟨h.output.order, h.output.writed_le⟩, h.noFile, TcpConnectionState.noConfusion,
      hreading, h.callbacks, ?_⟩
    show Phase boost os basePath files { s with conn := s.conn.passiveClose }
      (verdict boost s.received)
    cases hverdict : verdict boost s.received with
    | none =>
      rw [hverdict] at hphase
      -- the peer went away before its request was complete
      exact ⟨hphase.resumes, hphase.issued, hwriting, hphase.done⟩
    | some callback =>
      rw [hverdict] at hphase
      -- or before it had read the whole response
      refine ⟨hphase.response, hphase.closesWhenDone, ?_, ?_, ?_⟩
      · intro hopen
        cases hopen
      · intro _ hwrites
        cases hwriting.symm.trans hwrites
      · intro hdone
        cases hclosed.symm.trans (hphase.done hdone).1

/-- No module fails. -/
theorem responseTo_isOk (hverdict : verdict boost bytes = some callback)
    (haccepted : Accepted os basePath (some callback)) :
    ∃ res, responseTo os basePath callback = .ok res := by
  cases callback with
  | request req => exact (onRequest_isOk_iff (HTTPCodec.verdict_candidates hverdict)).2 haccepted
  | error res => exact ⟨res, rfl⟩

/-- `OnMessage` comes to the same as on all bytes at once. -/
theorem onMessage_sends (hreads : s.Reading boost) (hsends : s.Sends boost os basePath bytes now)
    (hread : s.conn.readFromPeer (.data bytes) = .ok conn) :
    ∃ k msg, onMessage boost codec s.context conn.readBuf = .ok (k, msg) ∧
      msg.callback = verdict boost (s.received ++ bytes) ∧
      (msg.callback = none → ∃ state, k.context = some state ∧
        Resumes boost codec (s.received ++ bytes) state k.readBuf) := by
  obtain ⟨state, hcontext, hresumes⟩ := hreads.resumes
  have harrives := HTTPCodec.arrives_readFromPeer hread (some state)
  have hview := hresumes bytes (.ofList (s.received ++ bytes)) conn.readBuf
    (Buffer.readable_ofList _) harrives
  rw [hcontext]
  cases hstart : onMessage boost codec (some onNewConnection) (.ofList (s.received ++ bytes)) with
  | error fault =>
    -- only a content length of zero makes it fail
    have hfaults := (HTTPCodec.onMessage_faults boost codec _ (by decide)).1 ⟨fault, hstart⟩
    rw [HTTPCodec.faults_start, Buffer.readable_ofList, hsends.body] at hfaults
    cases hfaults
  | ok x =>
    rcases x with ⟨k₀, msg⟩
    rw [hstart] at hview
    rcases map_ok.1 hview with ⟨⟨k, msg'⟩, hmsg, hsame⟩
    obtain rfl : msg' = msg := congrArg (fun v => v.2.2) hsame
    refine ⟨k, msg', hmsg, (HTTPCodec.verdict_ok hstart).symm, fun hquiet => ?_⟩
    rcases HTTPCodec.onMessage_waits rfl hmsg hquiet with ⟨state', hcontext', hwaits⟩
    exact ⟨state', hcontext', hresumes.step harrives hwaits⟩

/-- A session that has come to its verdict is answered. -/
theorem answer_inv (houtput : TcpConnection.Inv files s.conn)
    (hfile : s.conn.zeroCopyWriteFd = -1) (hup : s.conn.state ≠ .kConnecting)
    (hopen : s.conn.closed = false) (hreading : s.conn.channel.reading = true)
    (hissued : s.conn.issued = []) (hdone : s.done = false)
    (hverdict : verdict boost s.received = some callback) (hcallbacks : s.callbacks = [callback])
    (haccepted : Accepted os basePath (some callback))
    (hfits : Fits s.conn now (responseTo os basePath callback)) :
    ∃ s', s.answer os basePath files callback now = .ok s' ∧ Inv boost os basePath files s' := by
  rcases responseTo_isOk hverdict haccepted with ⟨res, hres⟩
  rw [hres] at hfits
  obtain ⟨conn, hwrite⟩ : ∃ conn, writeResponseAndClose files s.conn res now = .ok conn :=
    writeResponseAndClose_isOk hfits
  rcases writeResponseAndClose_waits (responseTo_fromMemory hverdict hres) houtput hfile hwrite with
    ⟨houtput', hfile', hstate, hwriting, hreading'⟩
  have hclosed : conn.closed = false := by
    rw [TcpConnection.closed, hstate]
    exact hopen
  have hissued' := writeResponseAndClose_issued hwrite
  -- the response is all that was ever issued
  rw [hissued, List.nil_append] at hissued'
  unfold answer
  rw [hres, ok_bind, hwrite, ok_bind]
  refine ⟨_, rfl, houtput', hfile', hstate ▸ hup, ?_, ?_, ?_⟩
  · show conn.channel.reading = !conn.closed
    rw [hreading', hreading, hclosed]
    rfl
  · show s.callbacks = (verdict boost s.received).toList
    rw [hverdict, hcallbacks]
    rfl
  · show Phase boost os basePath files _ (verdict boost s.received)
    rw [hverdict]
    refine ⟨⟨res, now, hres, hissued'⟩, rfl, fun _ => hwriting, ?_, ?_⟩
    · intro hclosed'
      cases hclosed.symm.trans hclosed'
    · intro hdone'
      cases hdone.symm.trans hdone'

/-- Reading bytes keeps it: they are parsed, and answered once they are settled. -/
theorem readFromPeer_data (h : Inv boost os basePath files s) (hne : bytes ≠ [])
    (hreading : s.conn.channel.reading = true) (hsends : s.Sends boost os basePath bytes now) :
    ∃ s', s.readFromPeer boost os basePath files (.data bytes) now = .ok s' ∧
      Inv boost os basePath files s' := by
  have hcloses : (ReadResult.data bytes).closes = false := decide_eq_false hne
  have hbefore : verdict boost s.received = none := HTTPCodec.verdict_none hsends.waits
  have hreads : s.Reading boost := by
    have hphase := h.phase
    rwa [hbefore] at hphase
  have hopen : s.conn.closed = false := by
    have hsame := h.reading
    rw [hreading] at hsame
    simpa using hsame
  have hnothing : s.callbacks = [] := by
    have hcallbacks := h.callbacks
    rwa [hbefore] at hcallbacks
  rcases TcpConnection.readFromPeer_data_isOk.2 hsends.room with ⟨conn, hread⟩
  rcases onMessage_sends hreads hsends hread with ⟨k, msg, hmsg, hcallback, hresumes⟩
  rcases TcpConnection.readFromPeer_frame hread with ⟨readBuf, rfl⟩
  unfold readFromPeer
  rw [TcpConnection.receive_stays hcloses, hread, ok_bind, hcloses, hmsg]
  cases hquiet : msg.callback with
  | none =>
    -- the codec waits for more
    have hverdict := hcallback.symm.trans hquiet
    simp only [ok_bind, hquiet]
    refine ⟨_, rfl, ⟨h.output.order, h.output.writed_le⟩, h.noFile, h.up, h.reading, ?_, ?_⟩
    · show s.callbacks = (verdict boost (s.received ++ bytes)).toList
      rw [hverdict, hnothing]
      rfl
    · show Phase boost os basePath files _ (verdict boost (s.received ++ bytes))
      rw [hverdict]
      exact ⟨hresumes hquiet, hreads.issued, hreads.writing, hreads.done⟩
  | some callback =>
    have hverdict := hcallback.symm.trans hquiet
    have haccepted := hsends.accepted
    rw [hverdict] at haccepted
    have hfits := hsends.fits callback (by rw [hverdict]; exact List.mem_singleton_self _)
    simp only [ok_bind, hquiet]
    refine answer_inv ⟨h.output.order, h.output.writed_le⟩ h.noFile h.up hopen hreading
      hreads.issued hreads.done hverdict ?_ haccepted hfits
    rw [hnothing]
    rfl

/-! ## Runs -/

/-- The read callback, behind a write callback that may have closed the connection. -/
theorem reads_inv {s₁ : Session} {reads : Option ReadResult} (h : Inv boost os basePath files s)
    (h₁ : Inv boost os basePath files s₁) (hsame : s.conn.channel.writing = false → s₁ = s)
    (hready : s.ReadReady boost os basePath now reads) :
    ∃ s', (match reads with
      | none => (.ok s₁ : Except Fault Session)
      | some result => s₁.readFromPeer boost os basePath files result now) = .ok s' ∧
        Inv boost os basePath files s' := by
  cases reads with
  | none => exact ⟨s₁, rfl, h₁⟩
  | some result =>
    cases result with
    | again => exact hready.elim
    | error => exact readFromPeer_closes h₁ rfl
    | data bytes =>
      by_cases hempty : bytes = []
      · exact readFromPeer_closes h₁ (decide_eq_true hempty)
      · -- the client still sends its request, so there is nothing to write
        rcases hready with ⟨hreading, hsends⟩
        have hnone := HTTPCodec.verdict_none (hsends hempty).waits
        have hwriting : s.conn.channel.writing = false := by
          have hphase := h.phase
          rw [hnone] at hphase
          exact hphase.writing
        rw [hsame hwriting]
        exact readFromPeer_data h hempty hreading (hsends hempty)

/-- A round of events keeps it, in the order in which the handler reads them. -/
theorem handleEvents_inv {ready : Readiness} (h : Inv boost os basePath files s)
    (hready : s.Ready boost os basePath ready) :
    ∃ s', s.handleEvents boost os basePath files ready = .ok s' ∧
      Inv boost os basePath files s' := by
  rcases ready with ⟨writes, shutdown, reads, now⟩
  rcases hready with ⟨hwrites, hshutdown, hreads⟩
  obtain rfl : shutdown = true := hshutdown
  unfold handleEvents
  cases writes with
  | none => exact reads_inv h h (fun _ => rfl) hreads
  | some results =>
    rcases writeToPeer_inv h hwrites with ⟨s₁, hwrite, h₁, -⟩
    simp only [hwrite, ok_bind]
    refine reads_inv h h₁ ?_ hreads
    intro hwriting
    cases hwriting.symm.trans hwrites.1

/-- No session fails, and each keeps the invariant. -/
theorem run_inv {loop fd : ℕ} {events : List Readiness}
    (hready : Guarded (step boost os basePath files) (Ready boost os basePath) (new loop fd)
      events) :
    ∃ s outs, run (step boost os basePath files) (new loop fd) events = .ok (s, outs) ∧
      Inv boost os basePath files s := by
  refine run_of_inv (Inv boost os basePath files) ?_ (new_inv loop fd) hready
  intro s ready h hready
  rcases handleEvents_inv h hready with ⟨s', hhandle, h'⟩
  exact ⟨s', (), bind_ok.2 ⟨s', hhandle, rfl⟩, h'⟩

/-- A socket that takes everything ends the session. -/
theorem Inv.ends (h : Inv boost os basePath files s) (hopen : s.conn.closed = false)
    (hwriting : s.conn.channel.writing = true) (now : Ptime) :
    ∃ s', s.handleEvents boost os basePath files
      ⟨some [.ok s.conn.writeBuf.bytesToRead], true, none, now⟩ = .ok s' ∧ s'.done = true := by
  have hready : s.WriteReady (some [.ok s.conn.writeBuf.bytesToRead]) := by
    refine ⟨hwriting, ⟨Nat.le_refl _, trivial⟩, fun hclosed => ?_⟩
    cases hopen.symm.trans hclosed
  rcases writeToPeer_inv h hready with ⟨s', hwrite, -, hdone⟩
  obtain ⟨conn, called, hall, hmem⟩ : ∃ conn called, TcpConnection.writeToPeer files s.conn
      [.ok s.conn.writeBuf.bytesToRead] = .ok (conn, called) ∧ Called.writeDone ∈ called :=
    TcpConnection.writeToPeer_all h.noFile
  refine ⟨s', ?_, hdone conn called hall hmem⟩
  unfold handleEvents
  simp only [hwrite, ok_bind]

/-- Under the invariant everything that was settled has been answered. -/
theorem Inv.answered (h : Inv boost os basePath files s) : s.Answered boost os basePath files := by
  have hphase := h.phase
  have horder := h.output.order
  rw [TcpConnection.fileRest, if_pos h.noFile, List.append_nil] at horder
  refine ⟨h.callbacks, ?_, ?_, ⟨_, horder⟩, ?_, ?_⟩
  · intro hnone
    rw [hnone] at hphase
    exact hphase.issued
  · intro callback hverdict
    rw [hverdict] at hphase
    exact hphase.response
  · intro hdone
    cases hverdict : verdict boost s.received with
    | none =>
      rw [hverdict] at hphase
      -- a connection that is still reading has written nothing
      cases hphase.done.symm.trans hdone
    | some callback =>
      rw [hverdict] at hphase
      rcases hphase.done hdone with ⟨hclosed, -, hsent⟩
      exact ⟨hclosed, Option.some_ne_none _, hsent⟩
  · intro hopen
    cases hverdict : verdict boost s.received with
    | none =>
      rw [if_pos rfl, h.reading, hopen]
      rfl
    | some callback =>
      rw [hverdict] at hphase
      have hwriting := hphase.writing hopen
      rw [if_neg (Option.some_ne_none _)]
      exact ⟨hwriting, h.ends hopen hwriting⟩

end Session

end HTTPServer

end FxServer
