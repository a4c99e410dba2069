import FxServer.HTTPCodec.RoundTrip
import FxServer.HTTPServer.Session

/-!
# FxServer.HTTPServer.Download — a file on its way to a client

A client encodes a request for a file, sends it in any pieces and waits. The codec reads the
request back, the validator accepts it, the accessor finds the first candidate that is there, and
the session sends the response, which the client reads up to the blank line and behind it.

Nothing is proved again here. Each of the modules before has said what it does to the one request
or the one response in its hands, and the proof is the chain of these statements.

* `findCandidate_finds` — the candidates before the file are passed over.
* `file_arrives` — what the client has when the connection is closed carries the file.
-/

namespace FxServer.HTTPServer

open HTTPModuleFileAccessor HTTPModuleRequestRewrite HTTPModuleRequestValidator Machine Trace
open HTTPCodec (Sent onNewConnection valueOf verdict)
open Session (Ready)

variable {boost : Boost} {os : ℕ → OS} {basePath : CString} {files : Files} {r : Sent}
  {req : HTTPRequest} {p content : List UInt8} {es : List CString}

/-- What a client sends to get the file at `p`: a `GET` that the validator accepts, for a path of
which `p` is the first candidate that is there. -/
structure Asks (boost : Boost) (os : ℕ → OS) (basePath : CString) (r : Sent) (p : List UInt8) :
    Prop where
  /-- the request can be told from what is around it -/
  clear : r.Clear boost
  /-- the validator accepts it: its type and its version, -/
  get : r.requestType = ascii "GET"
  major_le : r.majorVersion ≤ 1
  minor_le : r.minorVersion ≤ 1
  /-- the header `Host` that the version 1.1 asks for, -/
  host : r.minorVersion = 1 ∧ r.majorVersion = 1 →
    valueOf boost r.allHeaders (ascii "host") ≠ none
  /-- and a path without two dots in a row -/
  dots : ¬ ascii ".." <:+: r.path
  /-- the rewriter does not fail -/
  path_ne : r.path ≠ []
  /-- the candidates before the file are not there -/
  candidate : ∃ before after, candidatesFor r.path = before ++ p :: after ∧
    ∀ q ∈ before, ∀ n, (checkStat (os n) (absPath basePath q)).1 = .kNotFound

/-- The candidates that are not there are passed over. -/
theorem findCandidate_finds (before after : List (List UInt8))
    (hbefore : ∀ q ∈ before, ∀ n, (checkStat (os n) (absPath basePath q)).1 = .kNotFound)
    (hfound : ∀ n, (checkStat (os n) (absPath basePath p)).1 = .kOk) :
    outcome (findCandidate os basePath req (before ++ p :: after)) es =
      .ok ({ req with realRequestPath := p }, none) := by
  induction before generalizing es with
  | nil =>
    simp only [List.nil_append, findCandidate, checkFileCanRead, bind_assoc, pure_bind,
      outcome_note_bind, hfound, outcome_pure]
  | cons q before ih =>
    rw [List.forall_mem_cons] at hbefore
    simp only [List.cons_append, findCandidate, checkFileCanRead, bind_assoc, pure_bind,
      outcome_note_bind, hbefore.1]
    exact ih hbefore.2

/-- The codec makes its callback for the request that has been sent. -/
theorem verdict_encode (hsplit : ∀ src sep, boost.splitString src sep = Search.split sep src)
    (hcast : ∀ n < 2 ^ 32, boost.lexicalCast (formatUnsigned n) = some n)
    (hlower : boost.toLower (ascii "Content-Length") = ascii "content-length")
    (hclear : r.Clear boost) : ∃ req, verdict boost r.encode = some (.request req) ∧
      r.Received boost req := by
  have hread : (Buffer.ofList r.encode).readable = r.encode ++ [] := by
    rw [Buffer.readable_ofList, List.append_nil]
  obtain ⟨s', b', hparse, -, hreceived⟩ :=
    HTTPCodec.parsing_request hsplit hcast hlower hclear hread
  exact ⟨s'.req, HTTPCodec.verdict_ok (HTTPCodec.onMessage_request rfl hparse), hreceived⟩

/-- The request that was sent passes the validator. -/
theorem process_asks (hasks : Asks boost os basePath r p) (hreceived : r.Received boost req) :
    process req = .ok none := by
  refine process_accepts_iff.2 ⟨⟨?_, ?_⟩, ?_, ?_, ?_⟩
  · rw [hreceived.minorVersion]
    exact hasks.minor_le
  · rw [hreceived.majorVersion]
    exact hasks.major_le
  · rw [hreceived.minorVersion, hreceived.majorVersion, hreceived.headers]
    exact hasks.host
  · rw [hreceived.path]
    exact hasks.dots
  · rw [hreceived.requestType]
    exact hasks.get

/-- The response to the request is the file. -/
theorem onRequest_asks (hasks : Asks boost os basePath r p) (hreceived : r.Received boost req)
    (hnone : req.requestPathCandidates = [])
    (hserves : Serves os files (absPath basePath p) content)
    (hsmall : content.length < zeroCopyFileMinSize) :
    outcome (onRequest os basePath req) [] = .ok ((HTTPResponse.new 200).setBody content) := by
  obtain ⟨before, after, hcandidates, hbefore⟩ := hasks.candidate
  have hpath : req.originalRequestPath ≠ [] := by
    rw [hreceived.path]
    exact hasks.path_ne
  have hresolve := resolve_candidatesFor hpath hnone
  -- the search passes over the candidates in front, and settles on `p`
  have hfound : outcome (preProcessing os basePath { req with
      requestPathCandidates := candidatesFor req.originalRequestPath }) [] =
        .ok ({ req with
          requestPathCandidates := candidatesFor req.originalRequestPath
          realRequestPath := p }, none) := by
    have hne := candidatesFor_ne_nil req.originalRequestPath
    simp only [preProcessing, check_true hne, outcome_lift_bind, ok_bind]
    rw [hreceived.path, hcandidates]
    exact findCandidate_finds before after hbefore fun n => by rw [hserves.stat n]
  rcases onRequest_served (process_asks hasks hreceived) hresolve hfound hserves with
    ⟨fd, hresponse⟩
  rwa [if_neg (Nat.not_le.2 hsmall)] at hresponse

/-- A client encodes a request for a file of less than `2^20` bytes, and sends it in any pieces to
a server that has the file. The server does not fail; behind the whole request it sends the
response in order, and when it has closed the connection the client finds the file behind the
header, and its length in it. -/
theorem file_arrives (boost : Boost)
    (hsplit : ∀ src sep, boost.splitString src sep = Search.split sep src)
    (hcast : ∀ n < 2 ^ 32, boost.lexicalCast (formatUnsigned n) = some n)
    (hlower : boost.toLower (ascii "Content-Length") = ascii "content-length") (os : ℕ → OS)
    (basePath : CString) (files : Files) (r : Sent) (p content : List UInt8)
    (hasks : Asks boost os basePath r p)
    (hserves : Serves os files (absPath basePath p) content) (hne : content ≠ [])
    (hsmall : content.length < zeroCopyFileMinSize) (loop fd : ℕ) (events : List Readiness)
    (hready : Guarded (Session.step boost os basePath files) (Ready boost os basePath)
      (.new loop fd) events) :
    ∃ s outs, run (Session.step boost os basePath files) (.new loop fd) events = .ok (s, outs) ∧
      (s.received = r.encode → ∃ now,
        s.conn.sent <+: HTTPCodec.encodeResponse ((HTTPResponse.new 200).setBody content) now ++
          content ∧
        (s.done = true → Carries s.conn.sent content)) := by
  rcases Session.run_inv hready with ⟨s, outs, hrun, hinv⟩
  refine ⟨s, outs, hrun, fun hwhole => ?_⟩
  have hanswered := hinv.answered
  obtain ⟨req, hverdict, hreceived⟩ := verdict_encode hsplit hcast hlower hasks.clear
  -- all of the request has arrived, so its verdict is that of the stream
  rw [← hwhole] at hverdict
  obtain ⟨res, now, hres, hissued⟩ := hanswered.response _ hverdict
  have hfile := onRequest_asks hasks hreceived (HTTPCodec.verdict_candidates hverdict) hserves
    hsmall
  -- the response written is the one that carries the file
  obtain rfl : res = (HTTPResponse.new 200).setBody content := Except.ok.inj (hres.symm.trans hfile)
  have hbody : bodyBytes files ((HTTPResponse.new 200).setBody content) = content := rfl
  rw [hbody] at hissued
  refine ⟨now, hissued ▸ hanswered.order, fun hdone => ?_⟩
  rw [(hanswered.complete hdone).2.2, hissued]
  exact carries_body hne

/-- The index of the document root, with two bytes. -/
theorem file_arrives_index :
    let r : Sent := ⟨ascii "GET", ascii "/", 1, 0, [], []⟩
    let now : Ptime := ⟨4, 24, 3, 2014, 16, 43, 26⟩
    ∃ s outs, run (Session.step .std (fun _ => everywhere (List.replicate 2 104))
        (cStr (ascii "/srv")) fun _ _ => 104) (.new 0 5)
        [⟨none, true, some (.data r.encode), now⟩, ⟨some [.ok 100, .ok 44], true, none, now⟩] =
          .ok (s, outs) ∧ Carries s.conn.sent (List.replicate 2 104) := by
  intro r now
  have hasks : Asks .std (fun _ => everywhere (List.replicate 2 104)) (cStr (ascii "/srv")) r
      (ascii "/index.html") := by
    constructor
    case clear =>
      constructor
      case headers =>
        intro h hmem
        cases hmem
      case no_length =>
        intro h hmem
        cases hmem
      all_goals decide
    case candidate => exact ⟨[], [], rfl, by simp⟩
    case host =>
      rintro ⟨hminor, -⟩
      cases hminor
    all_goals decide
  -- one evaluation of the session: the request arrives, then the kernel takes the answer in two
  -- parts
  have hresult : (run (Session.step .std (fun _ => everywhere (List.replicate 2 104))
      (cStr (ascii "/srv")) fun _ _ => 104) (.new 0 5)
      [⟨none, true, some (.data r.encode), now⟩, ⟨some [.ok 100, .ok 44], true, none, now⟩]).map
        (fun out => decide (out.1.received = r.encode ∧ out.1.done = true)) = .ok true := by
    decide +kernel
  rcases map_ok.1 hresult with ⟨⟨s, outs⟩, hrun, hends⟩
  rcases of_decide_eq_true hends with ⟨hwhole, hdone⟩
  obtain ⟨s', outs', hrun', harrives⟩ := file_arrives .std (fun _ _ => rfl)
    (fun n hn => HTTPCodec.lexicalCast_formatUnsigned hn) (by decide) _ _ _ r
    (ascii "/index.html") (List.replicate 2 104) hasks (everywhere_serves 104 2 _) (by decide)
    (by decide) 0 5
    [⟨none, true, some (.data r.encode), now⟩, ⟨some [.ok 100, .ok 44], true, none, now⟩]
    (by decide +kernel)
  cases hrun.symm.trans hrun'
  obtain ⟨now', -, hcarries⟩ := harrives hwhole
  exact ⟨s, outs, hrun, hcarries hdone⟩

end FxServer.HTTPServer
