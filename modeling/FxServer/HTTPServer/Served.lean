import FxServer.HTTPServer.Answers
import FxServer.TcpConnection.Output

/-!
# FxServer.HTTPServer.Served — how a file arrives

A file of less than `2^20` bytes is read into the response. A larger one is to be sent from its
descriptor; but then nobody tells the response how long its body is, and one without a length has
neither a `Content-Length` nor a body.

For a small file the argument goes along the way of its bytes: `stat`, `readv`, the response, the
write buffer, the socket. For a large one it is enough that the response has no length, whatever
is sent.

* `served_iff` — a file that is found, and stays as it is, arrives under its length if and only if
  it has less than `2^20` bytes.
* `large_file_lost` — of a file of `2^20` bytes nothing arrives.
-/

namespace FxServer

open Machine

/-! ## Output without a file -/

namespace TcpConnection

variable {files : Files} {k k' : TcpConnection}

/-- Calls of `WriteToPeer` while no file is to be sent. -/
theorem writeToPeer_run {results : List (List IoResult)} {outs : List (List Called)}
    (h : Inv files k) (hfile : k.zeroCopyWriteFd = -1)
    (hrun : run (step files) k (results.map .writeToPeer) = .ok (k', outs)) :
    Inv files k' ∧ k'.issued = k.issued ∧ k'.zeroCopyWriteFd = -1 := by
  induction results generalizing k outs with
  | nil =>
    cases hrun
    exact ⟨h, rfl, hfile⟩
  | cons rs results ih =>
    rcases run_cons_inv hrun with ⟨k₁, called, outs', hstep, hrest, -⟩
    rcases writeToPeer_inv h (fun hfd => absurd hfile hfd) hstep with ⟨hinv, hissued, hfile', -⟩
    rcases ih hinv (hfile' hfile) hrest with ⟨hinv', hissued', hnone⟩
    exact ⟨hinv', hissued'.trans hissued, hnone⟩

/-- A kernel that takes everything empties the buffer. -/
theorem accept_all (k : TcpConnection) : ∃ k₁, k.accept k.writeBuf.bytesToRead = .ok k₁ ∧
    k₁.writeBuf.bytesToRead = 0 ∧ k₁.zeroCopyWriteFd = k.zeroCopyWriteFd := by
  rcases Buffer.consumeBytes_of_le (Nat.le_refl k.writeBuf.bytesToRead) with
    ⟨writeBuf, hconsume, hrest⟩
  refine ⟨_, bind_ok.2 ⟨writeBuf, hconsume, rfl⟩, ?_, rfl⟩
  show writeBuf.bytesToRead = 0
  rw [Buffer.bytesToRead_eq_zero, hrest, ← Buffer.length_readable, List.drop_length]

/-- The socket takes all that is in the write buffer. -/
theorem writeToPeer_all (hfile : k.zeroCopyWriteFd = -1) :
    ∃ k' called, writeToPeer files k [.ok k.writeBuf.bytesToRead] = .ok (k', called) ∧
      Called.writeDone ∈ called := by
  obtain ⟨k₁, rest, hwrite, hempty, hfile₁⟩ : ∃ k₁ rest,
      writeLoop [.ok k.writeBuf.bytesToRead] k = .ok (k₁, none, rest) ∧
        k₁.writeBuf.bytesToRead = 0 ∧ k₁.zeroCopyWriteFd = -1 := by
    -- the loop asks the kernel only while something is buffered
    by_cases hempty : k.writeBuf.bytesToRead = 0
    · exact ⟨k, _, by rw [writeLoop, if_pos hempty], hempty, hfile⟩
    · rcases accept_all k with ⟨k₁, haccept, hempty₁, hfile₁⟩
      refine ⟨k₁, [], ?_, hempty₁, hfile₁.trans hfile⟩
      unfold writeLoop
      rw [if_neg hempty]
      exact bind_ok.2 ⟨k₁, haccept, rfl⟩
  have hdone : k₁.writeDone 0 = true := by simp [writeDone, hfile₁]
  refine ⟨k₁.finishWrite, [.writeDone], ?_, List.mem_singleton_self _⟩
  unfold writeToPeer
  simp only [hwrite, ok_bind, closeFailed_none, sendfileLoop_done (.inl hfile₁), hempty, hdone,
    if_true, List.nil_append]

end TcpConnection

namespace HTTPServer

open Trace HTTPModuleFileAccessor HTTPModuleRequestRewrite HTTPModuleRequestValidator
open TcpConnection (Inv Op Called)

variable {files : Files} {os : ℕ → OS} {basePath path : CString} {r req req' : HTTPRequest}
  {res : HTTPResponse} {conn conn' : TcpConnection} {now : Ptime} {content out : List UInt8}

/-! ## What is to arrive -/

/-- At any time the file at `path` can be read, and has the bytes `content`. -/
structure Serves (os : ℕ → OS) (files : Files) (path : CString) (content : List UInt8) : Prop where
  /-- `CheckFileCanRead` finds a file that can be read, with its size -/
  stat : ∀ n, checkStat (os n) path = (.kOk, content.length)
  /-- `open` succeeds -/
  opened : ∀ n, ∃ fd, (os n).openFile path = some fd
  /-- `pread` delivers the whole content -/
  read : ∀ n fd, (os n).openFile path = some fd → (os n).pread fd content.length = some content
  /-- and so does `sendfile` from the descriptor -/
  sent : ∀ n fd, (os n).openFile path = some fd →
    Cyclic.get (files fd) 0 content.length = content

/-- Nothing is left to be sent on the connection. -/
structure Idle (files : Files) (conn : TcpConnection) : Prop where
  inv : Inv files conn
  /-- the write buffer is empty -/
  written : conn.writeBuf.readable = []
  /-- and no file is being sent -/
  noFile : conn.zeroCopyWriteFd = -1

/-- A client finds the length of `content` in the header, and `content` behind it. -/
def Carries (out content : List UInt8) : Prop :=
  ∃ lines, splitHead out = some (lines, content) ∧
    ascii "Content-Length: " ++ formatUnsigned content.length ∈ lines

/-- What `WriteToPeer` sends behind `sent`, however often it runs, is `out`. -/
structure Sends (files : Files) (conn : TcpConnection) (sent out : List UInt8) : Prop where
  /-- in order, and all of it when the write-done callback comes -/
  order : ∀ (results : List (List IoResult)) (last : List IoResult) k k' outs called,
    run (TcpConnection.step files) conn (results.map .writeToPeer) = .ok (k, outs) →
    TcpConnection.writeToPeer files k last = .ok (k', called) →
    k'.sent <+: sent ++ out ∧ (Called.writeDone ∈ called → k'.sent = sent ++ out)
  /-- the callback comes if the socket takes everything -/
  ends : ∃ k called, TcpConnection.writeToPeer files conn [.ok out.length] = .ok (k, called) ∧
    Called.writeDone ∈ called

/-- The request is answered on `conn`, and the response that is sent carries `content`. -/
def Delivers (files : Files) (os : ℕ → OS) (basePath : CString) (r : HTTPRequest)
    (conn : TcpConnection) (now : Ptime) (content : List UInt8) : Prop :=
  ∃ res conn' out, outcome (onRequest os basePath r) [] = .ok res ∧
    writeResponseAndClose files conn res now = .ok conn' ∧
    conn'.issued = conn.issued ++ out ∧ Carries out content ∧ Sends files conn' conn.sent out

/-! ## The response for a file -/

/-- A file that can be read in full is the body, or the descriptor to send it from. -/
theorem readFile_served {es : List CString} (res : HTTPResponse)
    (h : Serves os files (absPath basePath req.realRequestPath) content) :
    ∃ fd : ℕ, outcome (readFile os basePath req res) es =
      .ok (if zeroCopyFileMinSize ≤ content.length then res.setZeroCopyFd fd
        else res.setBody content) := by
  rcases h.opened (es.length + 1) with ⟨fd, hopen⟩
  refine ⟨fd, ?_⟩
  rw [readFile_outcome, h.stat, check_true rfl, ok_bind, hopen]
  simp only [readOpened, h.read _ fd hopen, check_true trivial, ok_bind]
  split <;> rfl

/-- The response to a request for which the accessor has found a file. -/
theorem onRequest_served (haccept : process r = .ok none)
    (hresolve : resolveRequestPathCandidates r = .ok req)
    (hfound : outcome (preProcessing os basePath req) [] = .ok (req', none))
    (h : Serves os files (absPath basePath req'.realRequestPath) content) :
    ∃ fd : ℕ, outcome (onRequest os basePath r) [] =
      .ok (if zeroCopyFileMinSize ≤ content.length then (HTTPResponse.new 200).setZeroCopyFd fd
        else (HTTPResponse.new 200).setBody content) := by
  rw [onRequest_accepted haccept, hresolve, outcome_lift_bind, ok_bind, (Trace.bind_ok hfound).2]
  exact readFile_served (.new 200) h

/-- The accessor takes the first candidate, if it can be read. -/
theorem preProcessing_found {p : List UInt8} {candidates : List (List UInt8)}
    (hcandidates : req.requestPathCandidates = p :: candidates)
    (hstat : (checkStat (os 0) (absPath basePath p)).1 = .kOk) :
    outcome (preProcessing os basePath req) [] =
      .ok ({ req with realRequestPath := p }, none) := by
  simp only [preProcessing, hcandidates, check_true (List.cons_ne_nil p candidates),
    outcome_lift_bind, ok_bind, findCandidate, checkFileCanRead, bind_assoc, pure_bind,
    outcome_note_bind, List.length_nil, hstat, outcome_pure]

/-! ## Sending a body from memory -/

theorem Idle.sent_eq (h : Idle files conn) : conn.sent = conn.issued := by
  have horder := h.inv.order
  rw [h.written, TcpConnection.fileRest, if_pos h.noFile] at horder
  simpa using horder

/-- A response from memory lies in the write buffer. -/
theorem writeResponseAndClose_buffered (h : Idle files conn) (hres : res.isZeroCopyBody = false)
    (hok : writeResponseAndClose files conn res now = .ok conn') :
    Inv files conn' ∧ conn'.zeroCopyWriteFd = -1 ∧ conn'.sent = conn.sent := by
  rcases bind_ok.1 hok with ⟨conn₁, hwrite, hok⟩
  rcases TcpConnection.write_inv h.inv h.noFile hwrite with ⟨hinv, hfile, -⟩
  rcases TcpConnection.write_frame hwrite with ⟨writeBuf, hconn₁⟩
  have hsent : conn₁.sent = conn.sent := by rw [hconn₁]
  rw [hres] at hok
  split at hok
  · rcases TcpConnection.write_inv hinv hfile hok with ⟨hinv', hfile', -⟩
    rcases TcpConnection.write_frame hok with ⟨writeBuf', hconn'⟩
    exact ⟨hinv', hfile', by rw [hconn', hsent]⟩
  · cases hok
    exact ⟨hinv, hfile, hsent⟩

/-- What is buffered in front of no file is sent by every run that ends. -/
theorem sends_of_buffered {sent : List UInt8} (hinv : Inv files conn)
    (hfile : conn.zeroCopyWriteFd = -1) (hsent : conn.sent = sent)
    (hissued : conn.issued = sent ++ out) : Sends files conn sent out where
  order results last k k' outs called hrun hlast := by
    rcases TcpConnection.writeToPeer_run hinv hfile hrun with ⟨hinv₁, hissued₁, hfile₁⟩
    rcases TcpConnection.writeToPeer_inv hinv₁ (fun hfd => absurd hfile₁ hfd) hlast with
      ⟨hinv', hissued', -, hdone⟩
    -- nothing is issued while it is sent
    have hall : k'.issued = sent ++ out := hissued'.trans (hissued₁.trans hissued)
    constructor
    · rw [← hall, ← hinv'.order, List.append_assoc]
      exact List.prefix_append _ _
    · exact fun hmem => (hdone hmem).trans hall
  ends := by
    have horder := hinv.order
    rw [TcpConnection.fileRest, if_pos hfile, List.append_nil, hissued, hsent,
      List.append_cancel_left_eq] at horder
    rw [← horder, Buffer.length_readable]
    exact TcpConnection.writeToPeer_all hfile

/-! ## The result -/

/-- A body with its length in the head is carried. -/
theorem carries_body (hbody : content ≠ []) :
    Carries (HTTPCodec.encodeResponse ((HTTPResponse.new 200).setBody content) now ++ content)
      content := by
  have hlength : ((HTTPResponse.new 200).setBody content).bodyLength ≠ 0 :=
    mt List.length_eq_zero_iff.1 hbody
  refine ⟨_, splitHead_body hlength content, ?_⟩
  unfold responseLines
  rw [if_pos hlength]
  exact List.mem_append_right _ (List.mem_singleton_self _)

/-- A response without a length carries nothing. -/
theorem not_carries (hlength : res.bodyLength = 0) :
    ¬ Carries (HTTPCodec.encodeResponse res now) content := by
  rintro ⟨lines, hsplit, -⟩
  rw [splitHead_nobody hlength] at hsplit
  cases hsplit

/-- A file that is too large to be read does not arrive. -/
theorem not_delivers (haccept : process r = .ok none)
    (hresolve : resolveRequestPathCandidates r = .ok req)
    (hfound : outcome (preProcessing os basePath req) [] = .ok (req', none))
    (h : Serves os files (absPath basePath req'.realRequestPath) content)
    (hlarge : zeroCopyFileMinSize ≤ content.length) :
    ¬ Delivers files os basePath r conn now content := by
  rintro ⟨res, conn', out, hres, hwrite, hissued, hcarries, -⟩
  rcases onRequest_served haccept hresolve hfound h with ⟨fd, hres'⟩
  rw [if_pos hlarge] at hres'
  cases hres'.symm.trans hres
  -- the length is still the one of a new response
  have hlength : ((HTTPResponse.new 200).setZeroCopyFd fd).bodyLength = 0 := rfl
  have hout := (List.append_cancel_left_eq ..).mp
    (hissued.symm.trans (writeResponseAndClose_issued hwrite))
  have hbody := length_bodyBytes files ((HTTPResponse.new 200).setZeroCopyFd fd)
  rw [hlength, List.length_eq_zero_iff] at hbody
  rw [hout, hbody, List.append_nil] at hcarries
  exact not_carries hlength hcarries

/-- A small file is found, written to the connection and sent. -/
theorem delivers (haccept : process r = .ok none)
    (hresolve : resolveRequestPathCandidates r = .ok req)
    (hfound : outcome (preProcessing os basePath req) [] = .ok (req', none))
    (h : Serves os files (absPath basePath req'.realRequestPath) content) (hne : content ≠ [])
    (hidle : Idle files conn)
    (hroom : Room conn ((HTTPCodec.encodeResponse ((HTTPResponse.new 200).setBody content)
      now).length + content.length))
    (hsmall : content.length < zeroCopyFileMinSize) :
    Delivers files os basePath r conn now content := by
  rcases onRequest_served haccept hresolve hfound h with ⟨fd, hres⟩
  rw [if_neg (Nat.not_le.2 hsmall)] at hres
  obtain ⟨conn', hwrite⟩ : ∃ conn', writeResponseAndClose files conn
      ((HTTPResponse.new 200).setBody content) now = .ok conn' := writeResponseAndClose_isOk hroom
  have hissued := writeResponseAndClose_issued hwrite
  -- header and body are both in the write buffer
  rcases writeResponseAndClose_buffered hidle rfl hwrite with ⟨hinv, hfile, hsent⟩
  refine ⟨_, conn', _, hres, hwrite, hissued, carries_body hne, ?_⟩
  refine sends_of_buffered hinv hfile hsent ?_
  rw [hissued, hidle.sent_eq]

/-- The validator has accepted a request, and the accessor has found a file for it that is not
empty, and stays as it is. On a connection with nothing left to send and room for the response, the
file arrives under its length if and only if it has less than `2^20` bytes. -/
theorem served_iff (files : Files) (os : ℕ → OS) (basePath : CString) (r req req' : HTTPRequest)
    (conn : TcpConnection) (now : Ptime) (content : List UInt8) (haccept : process r = .ok none)
    (hresolve : resolveRequestPathCandidates r = .ok req)
    (hfound : outcome (preProcessing os basePath req) [] = .ok (req', none))
    (h : Serves os files (absPath basePath req'.realRequestPath) content) (hne : content ≠ [])
    (hidle : Idle files conn)
    (hroom : Room conn ((HTTPCodec.encodeResponse ((HTTPResponse.new 200).setBody content)
      now).length + content.length)) :
    Delivers files os basePath r conn now content ↔ content.length < zeroCopyFileMinSize := by
  constructor
  · intro hdelivers
    by_contra hlarge
    exact not_delivers haccept hresolve hfound h (Nat.not_lt.1 hlarge) hdelivers
  · exact delivers haccept hresolve hfound h hne hidle hroom

theorem idle_new (files : Files) (loop fd : ℕ) (state : TcpConnectionState) :
    Idle files (.new loop fd state) :=
  ⟨TcpConnection.new_inv files loop fd state, rfl, rfl⟩

/-- A request for the index of the document root. -/
def getIndex : HTTPRequest :=
  { HTTPRequest.new with
    majorVersion := 1
    requestType := ascii "GET"
    originalRequestPath := ascii "/" }

/-- A system in which every path leads to `content`. -/
def everywhere (content : List UInt8) : OS where
  uid := 0
  gid := 0
  stat _ := .ok ⟨0x81A4, 0, 0, content.length⟩
  openFile _ := some 3
  pread _ n := some (content.take n)

/-- In the system that has one file everywhere, every path is a readable file. -/
theorem checkStat_everywhere (content : List UInt8) (path : CString) :
    checkStat (everywhere content) path = (.kOk, content.length) := by
  have hreg : Stat.isReg ⟨0x81A4, 0, 0, content.length⟩ = true :=
    (by decide : decide ((0x81A4 : BitVec 32) &&& 0xF000 = 0x8000) = true)
  have hread : (0x81A4 : BitVec 32) &&& Stat.sIrUsr ≠ 0 := by decide
  unfold checkStat everywhere
  simp only [hreg, hread, ne_eq, not_false_eq_true, Bool.true_eq_false, if_true, if_false]

/-- `GET /` is accepted there, and resolved to the index. -/
theorem getIndex_found (content : List UInt8) :
    process getIndex = .ok none ∧
    resolveRequestPathCandidates getIndex =
      .ok { getIndex with requestPathCandidates := dirAccessSuffixes } ∧
    outcome (preProcessing (fun _ => everywhere content) (cStr (ascii "/srv"))
        { getIndex with requestPathCandidates := dirAccessSuffixes }) [] =
      .ok ({ getIndex with
        requestPathCandidates := dirAccessSuffixes
        realRequestPath := ascii "/index.html" }, none) := by
  refine ⟨by decide +kernel, resolve_directory (by decide) (by decide) rfl, ?_⟩
  exact preProcessing_found rfl (congrArg Prod.fst (checkStat_everywhere content _))

/-- In that system every path serves the same bytes. -/
theorem everywhere_serves (b : UInt8) (n : ℕ) (path : CString) :
    Serves (fun _ => everywhere (List.replicate n b)) (fun _ _ => b) path (List.replicate n b) where
  stat _ := checkStat_everywhere _ path
  opened _ := ⟨3, rfl⟩
  read _ _ _ := congrArg some List.take_length
  sent _ _ _ := by simp [Cyclic.get]

/-- Two bytes for `GET /`. -/
theorem served_iff_run : Delivers (fun _ _ => 104) (fun _ => everywhere [104, 104])
    (cStr (ascii "/srv")) getIndex (.new 0 5 .kConnected) ⟨4, 24, 3, 2014, 16, 43, 26⟩
    [104, 104] := by
  rcases getIndex_found [104, 104] with ⟨haccept, hresolve, hfound⟩
  have hroom : Room (.new 0 5 .kConnected) ((HTTPCodec.encodeResponse
      ((HTTPResponse.new 200).setBody [104, 104]) ⟨4, 24, 3, 2014, 16, 43, 26⟩).length +
        ([104, 104] : List UInt8).length) := by
    unfold Room
    decide +kernel
  exact (served_iff _ _ _ _ _ _ _ _ [104, 104] haccept hresolve hfound (everywhere_serves 104 2 _)
    (by decide) (idle_new _ 0 5 .kConnected) hroom).2 (by decide)

/-- A file of `2^20` bytes that is found, and does not arrive. -/
theorem large_file_lost : ∃ r req req' content,
    process r = .ok none ∧ resolveRequestPathCandidates r = .ok req ∧
    outcome (preProcessing (fun _ => everywhere content) (cStr (ascii "/srv")) req) [] =
      .ok (req', none) ∧
    Serves (fun _ => everywhere content) (fun _ _ => 104)
      (absPath (cStr (ascii "/srv")) req'.realRequestPath) content ∧
    content.length = 2 ^ 20 ∧ ∀ conn now, ¬ Delivers (fun _ _ => 104)
      (fun _ => everywhere content) (cStr (ascii "/srv")) r conn now content := by
  -- a name for the list, which is never computed
  obtain ⟨content, hcontent⟩ : ∃ content : List UInt8, content = List.replicate (2 ^ 20) 104 :=
    ⟨_, rfl⟩
  have hlength : content.length = 2 ^ 20 := by rw [hcontent, List.length_replicate]
  have hserves : ∀ path, Serves (fun _ => everywhere content) (fun _ _ => 104) path content := by
    rw [hcontent]
    exact everywhere_serves 104 _
  rcases getIndex_found content with ⟨haccept, hresolve, hfound⟩
  exact ⟨_, _, _, content, haccept, hresolve, hfound, hserves _, hlength, fun conn now =>
    not_delivers haccept hresolve hfound (hserves _) hlength.ge⟩

end HTTPServer

end FxServer
