import FxServer.HTTPServer.DocumentRoot
import FxServer.HTTPServer.Framing

/-!
# FxServer.HTTPServer.Answers — which requests are answered

`OnRequest` writes the response that one of the modules makes, or the accessor's. There is none
when a module fails: the validator, which logs a version of the response that it has not made yet;
the rewriter, for an empty path; and `ReadFile`, when the file is not what `PreProcessing` has seen
a moment before.

The bytes of the response do not matter here, only whether the functions come to an end. So each
module has one lemma that says when it does, and `onRequest_isOk_iff` puts them together along
`OnRequest`.

* `process_accepts_iff` — which requests the validator accepts.
* `answers_iff` — a request is answered, by one response, if and only if none of this happens.
* `version_unanswered` — a request of the version 1.2.
-/

namespace FxServer

open Machine Trace

namespace HTTPServer

open HTTPModuleFileAccessor HTTPModuleRequestRewrite HTTPModuleRequestValidator

variable {files : Files} {os : ℕ → OS} {basePath : CString} {r req : HTTPRequest}
  {res : HTTPResponse} {conn conn' : TcpConnection} {now : Ptime} {es : List CString} {n : ℕ}

/-! ## Writing a response -/

/-- The write buffer can take `n` bytes, however it grows. -/
def Room (conn : TcpConnection) (n : ℕ) : Prop :=
  conn.writeBuf.byteSize + 2 * n ≤ Buffer.maxSize

/-- A write uses up its bytes of the room in the buffer. -/
theorem write_room {buf : List UInt8} (h : Room conn (buf.length + n)) :
    ∃ conn', conn.write buf = .ok conn' ∧ Room conn' n := by
  unfold Room at h
  obtain ⟨writeBuf, hbuf⟩ := Buffer.append_isOk.2
    (by omega : conn.writeBuf.byteSize + (buf.length - conn.writeBuf.bytesCanWrite) * 2 ≤ _)
  have hsize := Buffer.append_byteSize_le hbuf
  refine ⟨_, bind_ok.2 ⟨writeBuf, hbuf, rfl⟩, ?_⟩
  show writeBuf.byteSize + 2 * n ≤ _
  omega

/-- With room for head and body the response is written. -/
theorem writeResponseAndClose_isOk
    (h : Room conn ((HTTPCodec.encodeResponse res now).length + res.body.length)) :
    ∃ conn', writeResponseAndClose files conn res now = .ok conn' := by
  rcases write_room h with ⟨conn₁, hwrite, hroom⟩
  unfold writeResponseAndClose
  rw [hwrite, ok_bind]
  split
  · split
    · exact ⟨_, rfl⟩
    · rcases write_room (n := 0) hroom with ⟨conn₂, hbody, -⟩
      exact ⟨conn₂, hbody⟩
  · exact ⟨_, rfl⟩

/-! ## The validator -/

/-- What the validator asks of a request. -/
def Acceptable (r : HTTPRequest) : Prop :=
  (r.minorVersion ≤ 1 ∧ r.majorVersion ≤ 1) ∧
    (r.minorVersion = 1 ∧ r.majorVersion = 1 → r.getHeader (ascii "host") ≠ none) ∧
    ¬ ascii ".." <:+: r.originalRequestPath ∧ r.requestType = ascii "GET"

/-- The validator comes to a verdict when it does not have to log the version. -/
theorem process_isOk : (∃ verdict, process r = .ok verdict) ↔
    r.minorVersion ≤ 1 ∧ r.majorVersion ≤ 1 := by
  rw [← Nat.not_lt, ← Nat.not_lt, ← not_or]
  unfold process
  simp only
  split_ifs with hversion hhost hdots htype
  -- only the first of the checks fails to make its response
  · exact iff_of_false (fun ⟨_, h⟩ => by cases h) (not_not.2 hversion)
  all_goals exact iff_of_true ⟨_, rfl⟩ hversion

/-- The validator passes exactly the acceptable requests. -/
theorem process_accepts_iff : process r = .ok none ↔ Acceptable r := by
  have hdots : (Search.first (ascii "..") r.originalRequestPath ≠ none ∨
      Search.first (ascii "...") r.originalRequestPath ≠ none) ↔
        ascii ".." <:+: r.originalRequestPath := by
    rw [Ne, Ne, Search.first_eq_none, Search.first_eq_none, not_not, not_not]
    -- where three dots are, two are
    refine or_iff_left_of_imp fun h => List.IsInfix.trans ?_ h
    exact ⟨[46], [], rfl⟩
  unfold Acceptable process
  simp only
  rw [if_congr hdots rfl rfl]
  split_ifs with hversion hhost hdot htype
  · refine iff_of_false (fun h => by cases h) fun h => ?_
    omega
  · exact iff_of_false (fun h => by cases h) fun h => h.2.1 ⟨hhost.1, hhost.2.1⟩ hhost.2.2
  · exact iff_of_false (fun h => by cases h) fun h => h.2.2.1 hdot
  · exact iff_of_false (fun h => by cases h) fun h => htype h.2.2.2
  · refine iff_of_true rfl ⟨by omega, fun hone hnone => ?_, hdot, not_not.1 htype⟩
    exact hhost ⟨hone.1, hone.2, hnone⟩

/-! ## The accessor -/

/-- `ReadFile` finds the file that `PreProcessing` has found when `n` paths had been given to the
system: it can still be read, and has as many bytes as `stat` says. -/
def Rereads (os : ℕ → OS) (basePath : CString) (n : ℕ) (path : List UInt8) : Prop :=
  (checkStat (os n) (absPath basePath path)).1 = .kOk ∧
    ∀ fd bytes, (os (n + 1)).openFile (absPath basePath path) = some fd →
      (checkStat (os n) (absPath basePath path)).2 < zeroCopyFileMinSize →
      (os (n + 1)).pread fd (checkStat (os n) (absPath basePath path)).2 = some bytes →
      bytes.length = (checkStat (os n) (absPath basePath path)).2

/-- If one of the candidates can be read, `ReadFile` finds it again. -/
def Steady (os : ℕ → OS) (basePath : CString) : ℕ → List (List UInt8) → Prop
  | _, [] => True
  | n, path :: candidates =>
    match (checkStat (os n) (absPath basePath path)).1 with
    | .kOk => Rereads os basePath (n + 1) path
    | .kNotFound => Steady os basePath (n + 1) candidates
    | .kForbidden | .kNotFile | .kInternalError => True

/-- Only a small file that is read short makes the response's assertion fail. -/
theorem readOpened_isOk {fd byteSize : ℕ} :
    (∃ res', readOpened os n fd byteSize res = .ok res') ↔
      ∀ bytes, byteSize < zeroCopyFileMinSize → (os n).pread fd byteSize = some bytes →
        bytes.length = byteSize := by
  unfold readOpened
  split
  · -- a large file is sent from its descriptor and not read here
    rename_i hlarge
    refine iff_of_true ⟨_, rfl⟩ fun bytes hsmall => ?_
    omega
  · rename_i hsmall
    split
    · -- `pread` failed: the response is a 500
      rename_i hnone
      exact iff_of_true ⟨_, rfl⟩ fun bytes _ hread => by cases hnone.symm.trans hread
    · rename_i bytes hread
      -- read: `SetBody` takes it only at the length that `stat` said
      constructor
      · rintro ⟨res', hok⟩ bytes' _ hread'
        rcases bind_ok.1 hok with ⟨_, hlength, -⟩
        cases hread.symm.trans hread'
        exact check_ok.1 hlength
      · intro h
        exact ⟨_, bind_ok.2 ⟨(), check_true (h bytes (Nat.not_le.1 hsmall) hread), rfl⟩⟩

/-- `ReadFile`, when `es` has been given to the system. -/
theorem readFile_outcome (os : ℕ → OS) (basePath : CString) (req : HTTPRequest)
    (res : HTTPResponse) (es : List CString) :
    outcome (readFile os basePath req res) es = (do
      check ((checkStat (os es.length) (absPath basePath req.realRequestPath)).1 = .kOk)
      match (os (es.length + 1)).openFile (absPath basePath req.realRequestPath) with
      | none => .ok res
      | some fd =>
        readOpened os (es.length + 1) fd
          (checkStat (os es.length) (absPath basePath req.realRequestPath)).2 res) := by
  simp only [readFile, checkFileCanRead, bind_assoc, pure_bind, outcome_note_bind,
    outcome_lift_bind, List.length_append, List.length_singleton]
  refine congrArg _ (funext fun _ => ?_)
  cases (os (es.length + 1)).openFile (absPath basePath req.realRequestPath) <;> rfl

/-- So `ReadFile` fails only where it does not find the file again. -/
theorem readFile_isOk : (∃ res', outcome (readFile os basePath req res) es = .ok res') ↔
    Rereads os basePath es.length req.realRequestPath := by
  rw [readFile_outcome]
  unfold Rereads
  by_cases hstat : (checkStat (os es.length) (absPath basePath req.realRequestPath)).1 = .kOk
  · rw [check_true hstat, ok_bind]
    cases hopen : (os (es.length + 1)).openFile (absPath basePath req.realRequestPath) with
    -- not opened any more: the response is a 500
    | none => exact iff_of_true ⟨_, rfl⟩ ⟨hstat, fun fd bytes hfd => by cases hfd⟩
    | some fd =>
      simp only [readOpened_isOk, hstat, true_and]
      constructor
      · rintro h fd' bytes ⟨rfl⟩
        exact h bytes
      · exact fun h bytes => h fd bytes rfl
  · rw [check_false hstat]
    -- the assertion that the file can still be read
    exact iff_of_false (fun ⟨_, h⟩ => by cases h) fun h => hstat h.1

/-- `OnRequest` behind the search for a candidate. -/
def finish (os : ℕ → OS) (basePath : CString) :
    HTTPRequest × Option HTTPResponse → Accessing HTTPResponse
  | (_, some res) => return res
  | (req, none) => readFile os basePath req (.new 200)

/-- The search computes a response exactly when the candidate it settles on is found again.
-/
theorem findCandidate_isOk (os : ℕ → OS) (basePath : CString) (req : HTTPRequest)
    (candidates : List (List UInt8)) (es : List CString) :
    (∃ res', outcome (findCandidate os basePath req candidates >>= finish os basePath) es =
      .ok res') ↔ Steady os basePath es.length candidates := by
  induction candidates generalizing es with
  | nil => exact iff_of_true ⟨_, rfl⟩ trivial
  | cons path candidates ih =>
    simp only [findCandidate, checkFileCanRead, bind_assoc, pure_bind, outcome_note_bind, Steady]
    have hlength : (es ++ [absPath basePath path]).length = es.length + 1 := by simp
    cases (checkStat (os es.length) (absPath basePath path)).1 with
    | kOk =>
      -- the path is given to the system again, by `ReadFile`
      simp only [pure_bind, finish]
      rw [readFile_isOk, hlength]
    | kNotFound =>
      rw [← hlength]
      exact ih _
    | kForbidden => exact iff_of_true ⟨_, rfl⟩ trivial
    | kNotFile => exact iff_of_true ⟨_, rfl⟩ trivial
    | kInternalError => exact iff_of_true ⟨_, rfl⟩ trivial

/-! ## The result -/

/-- What the rewriter tries for a path. -/
def candidatesFor (path : List UInt8) : List (List UInt8) :=
  if path.getLast? = some 47 then dirAccessSuffixes
  else compressedFileExtensions.map (path ++ ·) ++ [path]

/-- Without candidates of its own a request gets those for its path. -/
theorem resolve_candidatesFor (hpath : r.originalRequestPath ≠ [])
    (hnone : r.requestPathCandidates = []) : resolveRequestPathCandidates r =
      .ok { r with requestPathCandidates := candidatesFor r.originalRequestPath } := by
  unfold candidatesFor
  split
  · rename_i hlast
    exact resolve_directory hpath hlast hnone
  · rename_i hlast
    exact resolve_file hpath hlast hnone

-- the index of a directory is that of the document root
example : candidatesFor (ascii "/pub/") = [ascii "/index.html"] ∧
    candidatesFor (ascii "/a.txt") = [ascii "/a.txt.gz", ascii "/a.txt"] := by
  decide +kernel

theorem candidatesFor_ne_nil (path : List UInt8) : candidatesFor path ≠ [] := by
  unfold candidatesFor
  split
  · exact List.cons_ne_nil _ _
  · exact List.append_ne_nil_of_right_ne_nil _ (List.cons_ne_nil _ _)

/-- A request that the validator accepts is answered when the rewriter and the accessor do not
fail. -/
theorem onRequest_isOk (haccept : process r = .ok none) (hnone : r.requestPathCandidates = []) :
    (∃ res', outcome (onRequest os basePath r) [] = .ok res') ↔
      r.originalRequestPath ≠ [] ∧ Steady os basePath 0 (candidatesFor r.originalRequestPath) := by
  rw [onRequest_accepted haccept]
  by_cases hpath : r.originalRequestPath = []
  · rw [resolve_empty hpath]
    exact iff_of_false (fun ⟨_, h⟩ => by cases h) fun h => h.1 hpath
  · rw [resolve_candidatesFor hpath hnone]
    have hne := candidatesFor_ne_nil r.originalRequestPath
    simp only [outcome_lift_bind, ok_bind, preProcessing, bind_assoc, check_true hne]
    exact (findCandidate_isOk os basePath _ _ []).trans (and_iff_right hpath).symm

/-- The validator comes to a verdict, as it should, and one response is written. -/
def Answers (os : ℕ → OS) (basePath : CString) (r : HTTPRequest) : Prop :=
  (∃ verdict, process r = .ok verdict) ∧ (process r = .ok none ↔ Acceptable r) ∧
    ∃ res, outcome (onRequest os basePath r) [] = .ok res ∧
      ∀ files conn now,
        Room conn ((HTTPCodec.encodeResponse res now).length + res.body.length) →
          ∃ conn', writeResponseAndClose files conn res now = .ok conn' ∧
            conn'.issued = conn.issued ++ (HTTPCodec.encodeResponse res now ++ bodyBytes files res)

/-- No module fails. -/
def Answerable (os : ℕ → OS) (basePath : CString) (r : HTTPRequest) : Prop :=
  (r.minorVersion ≤ 1 ∧ r.majorVersion ≤ 1) ∧ (Acceptable r →
    r.originalRequestPath ≠ [] ∧ Steady os basePath 0 (candidatesFor r.originalRequestPath))

/-- All modules together: `OnRequest` computes a response exactly on the answerable
requests. -/
theorem onRequest_isOk_iff (hnone : r.requestPathCandidates = []) :
    (∃ res', outcome (onRequest os basePath r) [] = .ok res') ↔ Answerable os basePath r := by
  unfold Answerable
  rw [← process_isOk, ← process_accepts_iff]
  cases hprocess : process r with
  | error fault =>
    -- the validator dereferences a null response
    refine iff_of_false ?_ fun h => by cases h.1.choose_spec
    rintro ⟨res, hres⟩
    unfold onRequest at hres
    rw [hprocess, outcome_lift_bind] at hres
    cases hres
  | ok verdict =>
    cases verdict with
    | none =>
      -- it passes the request: the file decides
      rw [onRequest_isOk hprocess hnone]
      exact ⟨fun h => ⟨⟨_, rfl⟩, fun _ => h⟩, fun h => h.2 rfl⟩
    | some res =>
      -- it refuses the request with a response of its own
      refine iff_of_true ⟨res, ?_⟩ ⟨⟨_, rfl⟩, fun h => by cases h⟩
      unfold onRequest
      rw [hprocess, outcome_lift_bind]
      rfl

/-- A request that has come over a connection is answered if and only if both version numbers are
at most 1 and, in case the validator accepts it, its path is not empty and the file that is found
for it stays as it is. -/
theorem answers_iff (boost : Boost) (codec : HTTPCodec) (os : ℕ → OS) (basePath : CString)
    (as : List HTTPCodec.Arrival) (k : HTTPConnection) (msgs : List Message) (msg : Message)
    (r : HTTPRequest)
    (hrun : run (HTTPCodec.receive boost codec) HTTPCodec.start as = .ok (k, msgs))
    (hmsg : msg ∈ msgs) (hreq : msg.callback = some (.request r)) :
    Answers os basePath r ↔ Answerable os basePath r := by
  have hnone := HTTPCodec.parsed_candidates hrun hmsg hreq
  constructor
  · rintro ⟨-, -, res, hres, -⟩
    exact (onRequest_isOk_iff hnone).1 ⟨res, hres⟩
  · intro hanswerable
    rcases (onRequest_isOk_iff hnone).2 hanswerable with ⟨res, hres⟩
    refine ⟨process_isOk.2 hanswerable.1, process_accepts_iff, res, hres, ?_⟩
    intro files conn now hroom
    obtain ⟨conn', hwrite⟩ : ∃ conn', writeResponseAndClose files conn res now = .ok conn' :=
      writeResponseAndClose_isOk hroom
    exact ⟨conn', hwrite, writeResponseAndClose_issued hwrite⟩

/-- A system in which every path leads to the same two bytes. -/
def twoBytes : OS where
  uid := 0
  gid := 0
  stat _ := .ok ⟨0x81A4, 0, 0, 2⟩
  openFile _ := some 3
  pread _ n := some ([104, 105].take n)

/-- A file of two bytes under the document root. -/
theorem answers_iff_run : ∃ r : HTTPRequest, r.originalRequestPath = ascii "/pub/a.txt" ∧
    Answers (fun _ => twoBytes) (cStr (ascii "/srv")) r := by
  obtain ⟨k, msg, r, hrun, hreq, hr⟩ := run_whole .std (ascii "GET /pub/a.txt HTTP/1.0\r\n\r\n")
    (fun r => decide (r.originalRequestPath = ascii "/pub/a.txt" ∧ r.minorVersion ≤ 1 ∧
      r.majorVersion ≤ 1)) (by decide +kernel)
  rcases of_decide_eq_true hr with ⟨hpath, hversion⟩
  refine ⟨r, hpath, (answers_iff .std codec _ _ _ k [msg] msg r hrun (List.mem_singleton_self _)
    hreq).2 ⟨hversion, fun _ => ⟨?_, ?_⟩⟩⟩
  · rw [hpath]
    decide
  · rw [hpath]
    refine ⟨rfl, ?_⟩
    rintro fd bytes - - ⟨rfl⟩
    rfl

/-- The version 1.2 is not accepted, and to say so the validator asks a null pointer for it. -/
theorem version_unanswered : ∃ as k msgs msg r,
    run (HTTPCodec.receive .std codec) HTTPCodec.start as = .ok (k, msgs) ∧ msg ∈ msgs ∧
    msg.callback = some (.request r) ∧ r.majorVersion = 1 ∧ r.minorVersion = 2 ∧
    process r = .error .assertion ∧ ∀ os basePath, ¬ Answers os basePath r := by
  obtain ⟨k, msg, r, hrun, hreq, hr⟩ := run_whole .std (ascii "GET / HTTP/1.2\r\n\r\n")
    (fun r => decide (r.majorVersion = 1 ∧ r.minorVersion = 2 ∧ process r = .error .assertion))
    (by decide +kernel)
  rcases of_decide_eq_true hr with ⟨hmajor, hminor, hprocess⟩
  refine ⟨_, k, [msg], msg, r, hrun, List.mem_singleton_self _, hreq, hmajor, hminor, hprocess,
    fun os basePath hanswers => ?_⟩
  rcases hanswers with ⟨⟨verdict, hverdict⟩, -⟩
  cases hprocess.symm.trans hverdict

end HTTPServer

end FxServer
