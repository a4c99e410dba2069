import FxServer.HTTPCodec.Chunks
import FxServer.HTTPCodec.Parsing
import FxServer.HTTPServer

/-!
# FxServer.HTTPServer.Verdict — what comes behind the verdict on a request

A connection goes on reading until its response has been written, and hands everything to
`OnMessage`. But once a request has been passed on, the connection has no context any more, and
`any_cast` throws; and once an error has been found, the line that has it is still in the
buffer, and the next call finds it again.

Both failures begin with the same event, a chunk behind settled bytes. So the condition can be
read off the bytes, without knowing what the parser has made of them. The induction over the
chunks goes from one unsettled state to the next, up to the chunk that settles the request.

* `settled` — the bytes hold a whole request, or a malformed line.
* `onMessage_start` — then, and only then, `OnMessage` makes a callback.
* `one_verdict_iff` — a connection gets one verdict when nothing follows such bytes, and
  otherwise it does not.
-/

namespace FxServer.HTTPCodec

open Machine Resumable

/-! ## Settled bytes -/

/-- Behind the request line, or behind other header lines, `d` holds the rest of a request with
its body, or a malformed line. -/
def headersSettled (boost : Boost) (req : HTTPRequest) (d : List UInt8) : Bool :=
  match _h : Search.first headerSep d with
  | none => false
  | some 0 =>
    match req.getHeader (ascii "content-length") with
    | none => true
    | some contentLength =>
      match boost.lexicalCast contentLength with
      | none => true
      | some bodyLength => bodyLength ≠ 0 ∧ bodyLength ≤ (d.drop headerSepLen).length
  | some (n + 1) =>
    match headerLine boost req (d.take (n + 1)) with
    | none => true
    | some req => headersSettled boost req (d.drop (n + 1 + headerSepLen))
termination_by d.length
decreasing_by
  have hle := first_add_le _h
  rw [List.length_drop]
  omega

/-- The bytes that a connection has received hold a whole request, or a malformed line. -/
def settled (boost : Boost) (d : List UInt8) : Bool :=
  match Search.first headerSep d with
  | none => false
  | some pos =>
    (requestLine boost .new (d.take pos)).2 = false ∨
      headersSettled boost (requestLine boost .new (d.take pos)).1 (d.drop (pos + headerSepLen))

section Parsing

variable {boost : Boost} {b b' b₂ : Buffer} {s s' : HTTPRequestParsingState}
  {r r' : ParseResult} {d e : List UInt8}

/-- The loop has come to a verdict. -/
def Decides (out : Except Fault (ParseResult × HTTPRequestParsingState × Buffer)) : Prop :=
  ∃ r s b, out = .ok (r, s, b) ∧ r ≠ .kParseNeedMore

theorem decides_ok : Decides (.ok (r, s, b)) ↔ r ≠ .kParseNeedMore := by
  constructor
  · rintro ⟨_, _, _, h, hr⟩
    cases h
    exact hr
  · exact fun hr => ⟨_, _, _, rfl, hr⟩

theorem not_decides_error {fault : Fault} : ¬ Decides (.error fault) := by
  rintro ⟨_, _, _, h, -⟩
  cases h

/-! ## The functions of the states, by what they find -/

/-- In the body the verdict waits for the length. -/
theorem decides_body (hstatus : s.status = .kParsingRequestBody)
    (hfunc : s.func = some .readRequestBody) :
    Decides (parsing boost r s b) ↔ s.req.bodyLength ≠ 0 ∧ s.req.bodyLength ≤ b.bytesToRead := by
  by_cases hbody : s.req.bodyLength = 0
  · rw [parsing_body_faults hstatus hfunc hbody]
    simp only [hbody, ne_eq, not_true_eq_false, false_and, iff_false]
    exact not_decides_error
  · by_cases hmore : b.bytesToRead < s.req.bodyLength
    · rw [parsing_body_waits hstatus hfunc hbody hmore, decides_ok]
      simp [hmore]
    · rcases parsing_body_done (r := r) hstatus hfunc hbody (Nat.not_lt.1 hmore) with ⟨b', hparse⟩
      rw [hparse, decides_ok]
      simp [hbody, Nat.not_lt.1 hmore]

/-- In the headers it is decided by `headersSettled`. -/
theorem decides_headers {req : HTTPRequest} (hstatus : s.status = .kParsingRequestHeader)
    (hfunc : s.func = some .readRequestHeader) (hreq : s.req = req) (hd : b.readable = d) :
    Decides (parsing boost r s b) ↔ headersSettled boost req d = true := by
  fun_induction headersSettled boost req d generalizing s b r with
  | case1 req d hfirst =>
    -- no line
    rw [parsing_header_waits hstatus hfunc (hd ▸ hfirst), decides_ok]
    simp
  | case2 req d hfirst hlength =>
    -- the blank line, and no body
    subst hreq hd
    rcases parsing_header_goes (r := r) hstatus hfunc hfirst (headerNext_done boost _ hlength) with
      ⟨b', -, hparse⟩
    rw [hparse, parsing_done rfl, decides_ok]
    simp
  | case3 req d hfirst contentLength hlength hcast =>
    subst hreq hd
    have hnext := headerNext_length boost (b.readable.take 0) hlength
    rw [hcast] at hnext
    rw [parsing_header_fails hstatus hfunc hfirst hnext, decides_ok]
    simp
  | case4 req d hfirst contentLength hlength bodyLength hcast =>
    -- the blank line, and a body
    subst hreq hd
    have hnext := headerNext_length boost (b.readable.take 0) hlength
    rw [hcast] at hnext
    rcases parsing_header_goes (r := r) hstatus hfunc hfirst hnext with ⟨b', hread, hparse⟩
    rw [hparse, decides_body rfl rfl, ← Buffer.length_readable, hread]
    simp
  | case5 req d n hfirst hline =>
    subst hreq hd
    have hnext := headerNext_line boost s (b.readable.take (n + 1)) (Nat.succ_ne_zero n)
    rw [hline] at hnext
    rw [parsing_header_fails hstatus hfunc hfirst hnext, decides_ok]
    simp
  | case6 req d n hfirst req' hline ih =>
    -- a header line
    subst hreq hd
    have hnext := headerNext_line boost s (b.readable.take (n + 1)) (Nat.succ_ne_zero n)
    rw [hline] at hnext
    rcases parsing_header_goes (r := r) hstatus hfunc hfirst hnext with ⟨b', hread, hparse⟩
    rw [hparse]
    exact ih hstatus hfunc rfl hread

/-- The loop comes to a verdict on settled bytes. -/
theorem decides_start : Decides (parsing boost r onNewConnection b) ↔
    settled boost b.readable = true := by
  by_cases hempty : b.readable = []
  · rw [parsing_start_waits hempty, decides_ok, hempty]
    simp [settled, Search.first, headerSep]
  · rw [parsing_start_goes hempty]
    unfold settled
    cases hfirst : Search.first headerSep b.readable with
    | none =>
      -- no line yet
      rw [parsing_requestLine_waits rfl rfl hfirst, decides_ok]
      simp
    | some pos =>
      have hreq : started.req = .new := rfl
      cases hvalid : (requestLine boost .new (b.readable.take pos)).2 with
      | false =>
        -- an invalid line settles it
        rw [parsing_requestLine_fails rfl rfl hfirst (hreq ▸ hvalid), decides_ok]
        simp [hvalid]
      | true =>
        -- a valid one leaves it to the headers
        rcases parsing_requestLine_goes (r := .kParseOK) rfl rfl hfirst (hreq ▸ hvalid) with
          ⟨b', hread, hparse⟩
        rw [hparse, decides_headers rfl rfl rfl hread]
        simp [hvalid, hreq]

/-! ## A call that finds an error finds it again -/

/-- Whether a request line is valid does not depend on the request so far. -/
theorem requestLine_valid (req req' : HTTPRequest) (line : List UInt8) :
    (requestLine boost req line).2 = (requestLine boost req' line).2 := by
  unfold requestLine
  split
  · simp only
    split
    · rfl
    · split
      · rfl
      · split
        · rfl
        · split
          · rfl
          · split <;> rfl
  · rfl

/-- Nor does a refused header line depend on the response so far. -/
theorem headerNext_res {pos : ℕ} {line : List UInt8} {res : Option HTTPResponse}
    (h : headerNext boost s pos line = none) :
    headerNext boost { s with res } pos line = none := by
  by_cases hpos : pos = 0
  · simp only [headerNext, if_pos hpos, headersEnd] at h ⊢
    cases hlength : s.req.getHeader (ascii "content-length") with
    | none =>
      rw [hlength] at h
      cases h
    | some contentLength =>
      rw [hlength] at h
      exact Option.map_eq_none_iff.2 (Option.map_eq_none_iff.1 h)
  · simp only [headerNext, if_neg hpos] at h ⊢
    exact Option.map_eq_none_iff.2 (Option.map_eq_none_iff.1 h)

/-- The functions that find errors. -/
theorem call_error_func (h : call boost s b = .ok (.kParseError, s', b')) :
    s.status = .kParsingRequestLine ∧ s.func = some .readRequestLine ∨
      s.status = .kParsingRequestHeader ∧ s.func = some .readRequestHeader := by
  cases call_calls h with
  | badRequestLine hstatus hfunc => exact .inl ⟨hstatus, hfunc⟩
  | badHeader hstatus hfunc => exact .inr ⟨hstatus, hfunc⟩

/-- The line with the error is left in the buffer, and the next call comes to it again. -/
theorem call_error_again (h : call boost s b = .ok (.kParseError, s', b'))
    (hview : b₂.readable = b'.readable ++ e) : s'.res ≠ none ∧ s'.status ≠ .kParsingDone ∧
      ∃ s'', call boost s' b₂ = .ok (.kParseError, s'', b₂) ∧ s''.res ≠ none := by
  obtain ⟨req, hs', rfl⟩ : ∃ req, s' = { s with req, res := some (.new 400) } ∧ b = b' := by
    cases call_called h with
    | fails req => exact ⟨req, rfl, rfl⟩
  have htake : ∀ {pos}, Search.first headerSep b.readable = some pos →
      b₂.readable.take pos = b.readable.take pos := fun hfirst => by
    have hle := first_add_le hfirst
    rw [hview, List.take_append_of_le_length (by omega)]
  rcases call_error_func h with ⟨hstatus, hfunc⟩ | ⟨hstatus, hfunc⟩
  · -- the request line
    have hagain := call_requestLine (show s'.status = _ by rw [hs']; exact hstatus)
      (show s'.func = _ by rw [hs']; exact hfunc) boost b₂
    rw [call_requestLine hstatus hfunc] at h
    cases hfirst : Search.first headerSep b.readable with
    | none =>
      rw [hfirst] at h
      cases h
    | some pos =>
      rw [hview, Search.first_append hfirst, ← hview] at hagain
      rw [hfirst] at h
      simp only [htake hfirst] at h hagain
      rw [requestLine_valid s'.req s.req] at hagain
      split at h
      · rcases bind_ok.1 h with ⟨_, -, h⟩
        cases h
      · rename_i hvalid
        rw [if_neg hvalid] at hagain
        refine ⟨by simp [hs'], by simp [hs', hstatus], _, hagain, by simp⟩
  · -- a header line, or the blank line
    have hagain := call_header (show s'.status = _ by rw [hs']; exact hstatus)
      (show s'.func = _ by rw [hs']; exact hfunc) boost b₂
    rw [call_header hstatus hfunc] at h
    cases hfirst : Search.first headerSep b.readable with
    | none =>
      rw [hfirst] at h
      cases h
    | some pos =>
      rw [hview, Search.first_append hfirst, ← hview] at hagain
      rw [hfirst] at h
      simp only [htake hfirst] at h hagain
      split at h
      · rename_i hnext
        cases h
        rw [headerNext_res hnext] at hagain
        exact ⟨by simp, by simp [hstatus], _, hagain, by simp⟩
      · rcases bind_ok.1 h with ⟨_, -, h⟩
        cases h

end Parsing

/-! ## What a call of OnMessage makes of it -/

section Message

variable {boost : Boost} {b : Buffer} {s : HTTPRequestParsingState} {k : HTTPConnection}
  {msg : Message} {a : Arrival} {bytes : List UInt8}

/-- A callback is made. -/
def Answers (out : Except Fault (HTTPConnection × Message)) : Prop :=
  ∃ k msg, out = .ok (k, msg) ∧ msg.callback ≠ none

theorem answers_ok : Answers (.ok (k, msg)) ↔ msg.callback ≠ none := by
  constructor
  · rintro ⟨_, _, h, hcallback⟩
    cases h
    exact hcallback
  · exact fun h => ⟨k, msg, rfl, h⟩

theorem not_answers_error {fault : Fault} : ¬ Answers (.error fault) := by
  rintro ⟨_, _, h, -⟩
  cases h

/-- Whether it does can be read off the view. -/
theorem answers_view {out out' : Except Fault (HTTPConnection × Message)}
    (h : out.map view = out'.map view) : Answers out ↔ Answers out' := by
  cases out with
  | error fault =>
    cases out' with
    | error fault' => exact iff_of_false not_answers_error not_answers_error
    | ok x' => cases h
  | ok x =>
    cases out' with
    | error fault' => cases h
    | ok x' =>
      have hview : view x = view x' := Except.ok.inj h
      have hmsg : x.2 = x'.2 := congrArg (fun v => v.2.2) hview
      rw [answers_ok, answers_ok, hmsg]

/-- Behind its loop `OnMessage` does not fail, and makes a callback of a verdict. -/
theorem onMessage_parsing (hdone : s.status ≠ .kParsingDone) :
    (Answers (onMessage boost HTTPServer.codec (some s) b) ↔
      Decides (parsing boost .kParseError s b)) ∧
    ∀ fault, onMessage boost HTTPServer.codec (some s) b = .error fault →
      parsing boost .kParseError s b = .error fault := by
  rw [onMessage_some]
  cases hparse : parsing boost .kParseError s b with
  | error fault =>
    refine ⟨iff_of_false not_answers_error not_decides_error, fun fault' h => ?_⟩
    cases h
    rfl
  | ok out =>
    rcases out with ⟨r, s', b'⟩
    rw [ok_bind, decides_ok]
    cases r with
    | kParseOK => exact ⟨by simp [conclude, HTTPServer.codec, answers_ok], fun _ h => by cases h⟩
    | kParseNeedMore =>
      exact ⟨by simp [conclude, HTTPServer.codec, answers_ok], fun _ h => by cases h⟩
    | kParseError =>
      -- the error callback gets the response that the failing call has set
      rcases parsing_last hdone hparse (by decide) with ⟨s₀, b₀, -, hcall⟩
      rcases call_error_again hcall (List.append_nil b'.readable).symm with ⟨hres, -⟩
      cases hsome : s'.res with
      | none => exact absurd hsome hres
      | some res =>
        simp only [conclude, HTTPServer.codec, hsome, and_self, if_true]
        exact ⟨by simp [answers_ok], fun _ h => by cases h⟩

/-- A new connection that gets everything at once. -/
theorem onMessage_start : Answers (onMessage boost HTTPServer.codec (some onNewConnection) b) ↔
    settled boost b.readable = true :=
  (onMessage_parsing (by decide)).1.trans decides_start

example : settled .std (ascii "GET / HTTP/1.0\r\n\r\n") = true ∧
    settled .std (ascii "GET / HTTP/1.0\r\nHost: a\r\n") = false := by
  decide +kernel

/-- A chunk calls back exactly when it settles what has arrived. -/
theorem receive_answers (h : Resumes boost HTTPServer.codec bytes s b)
    (harrives : Arrives ⟨some s, b⟩ a) :
    Answers (receive boost HTTPServer.codec ⟨some s, b⟩ a) ↔
      settled boost (bytes ++ a.chunk) = true := by
  have hview := h a.chunk (.ofList (bytes ++ a.chunk)) a.buf (Buffer.readable_ofList _) harrives
  rw [receive, answers_view hview, onMessage_start, Buffer.readable_ofList]

/-- What has made a call fail does so again, whatever follows. -/
theorem receive_error {fault : Fault} (h : Resumes boost HTTPServer.codec bytes s b)
    (harrives : Arrives ⟨some s, b⟩ a)
    (herror : receive boost HTTPServer.codec ⟨some s, b⟩ a = .error fault) (e : List UInt8) :
    settled boost (bytes ++ a.chunk ++ e) = false := by
  have hview := h a.chunk (.ofList (bytes ++ a.chunk)) a.buf (Buffer.readable_ofList _) harrives
  -- the parser fails on all bytes at once as it does on the last chunk
  have hstart : onMessage boost HTTPServer.codec (some onNewConnection)
      (.ofList (bytes ++ a.chunk)) = .error fault := by
    rw [receive] at herror
    rw [herror] at hview
    cases hout : onMessage boost HTTPServer.codec (some onNewConnection)
      (.ofList (bytes ++ a.chunk)) with
    | error fault' =>
      rw [hout] at hview
      cases hview
      rfl
    | ok x =>
      rw [hout] at hview
      cases hview
  have hparse := (onMessage_parsing (by decide)).2 fault hstart
  have hdrives := parsing_drives boost .kParseError onNewConnection (.ofList (bytes ++ a.chunk))
  rw [hparse] at hdrives
  have hmore : (Buffer.ofList (bytes ++ a.chunk ++ e)).readable =
      (Buffer.ofList (bytes ++ a.chunk)).readable ++ e := by
    rw [Buffer.readable_ofList, Buffer.readable_ofList]
  -- and so it does when more bytes follow
  rcases hdrives.append (call_stable boost) trivial hmore with ⟨out, hout, hextends⟩
  rw [hextends.of_error] at hout
  have hnot : ¬ Decides (parsing boost .kParseError onNewConnection
      (.ofList (bytes ++ a.chunk ++ e))) := by
    rw [(parsing_drives ..).unique hout]
    exact not_decides_error
  rw [decides_start, Buffer.readable_ofList] at hnot
  exact Bool.not_eq_true _ ▸ hnot

/-- Behind a callback: the next call throws, or makes the error callback again. -/
theorem receive_behind {k' : HTTPConnection} (hdone : s.status ≠ .kParsingDone)
    (h : onMessage boost HTTPServer.codec (some s) b = .ok (k, msg))
    (hcallback : msg.callback ≠ none) (harrives : Arrives k a) {msg' : Message}
    (hnext : receive boost HTTPServer.codec k a = .ok (k', msg')) : msg'.callback ≠ none := by
  rw [onMessage_some] at h
  rcases bind_ok.1 h with ⟨⟨r, s', b'⟩, hparse, h⟩
  cases r with
  | kParseOK =>
    -- the context has been cleared
    simp only [conclude, HTTPServer.codec] at h
    cases h
    cases hnext
  | kParseNeedMore =>
    simp only [conclude, HTTPServer.codec] at h
    cases h
    exact absurd rfl hcallback
  | kParseError =>
    rcases parsing_last hdone hparse (by decide) with ⟨s₀, b₀, -, hcall⟩
    rcases call_error_again hcall (List.append_nil b'.readable).symm with ⟨hres, -⟩
    cases hsome : s'.res with
    | none => exact absurd hsome hres
    | some res =>
      simp only [conclude, HTTPServer.codec, hsome, and_self, if_true] at h
      cases h
      rcases call_error_again hcall harrives with ⟨-, hdone', s'', hagain, hres'⟩
      have hparse' := parsing_halt (r := .kParseError) hdone' hagain (by decide)
      rw [receive, onMessage_some, hparse', ok_bind] at hnext
      cases hsome' : s''.res with
      | none => exact absurd hsome' hres'
      | some res' =>
        simp only [conclude, HTTPServer.codec, hsome', and_self, if_true] at hnext
        cases hnext
        simp

end Message

/-! ## One verdict -/

/-- Behind a callback no call makes another, and none fails. -/
def OneVerdict (boost : Boost) (k : HTTPConnection) (as : List Arrival) : Prop :=
  ∀ pre a post k' msgs, as = pre ++ a :: post →
    run (receive boost HTTPServer.codec) k pre = .ok (k', msgs) →
    (∃ msg ∈ msgs, msg.callback ≠ none) →
    ∃ k'' msg, receive boost HTTPServer.codec k' a = .ok (k'', msg) ∧ msg.callback = none

section Verdict

variable {boost : Boost} {k k' : HTTPConnection} {msg : Message} {a : Arrival} {as : List Arrival}

theorem oneVerdict_nil (k : HTTPConnection) : OneVerdict boost k [] := by
  intro pre a post k' msgs heq
  simp at heq

theorem oneVerdict_single (k : HTTPConnection) (a : Arrival) : OneVerdict boost k [a] := by
  rintro pre a' post k' msgs heq hrun ⟨msg, hmem, -⟩
  cases pre with
  | nil =>
    cases hrun
    cases hmem
  | cons a₁ pre => simp at heq

/-- Behind a fault no call is made. -/
theorem oneVerdict_cons_error {fault : Fault}
    (h : receive boost HTTPServer.codec k a = .error fault) : OneVerdict boost k (a :: as) := by
  rintro pre a' post k' msgs heq hrun ⟨msg, hmem, -⟩
  cases pre with
  | nil =>
    cases hrun
    cases hmem
  | cons a₁ pre =>
    cases heq
    rcases run_cons_inv hrun with ⟨_, _, _, hmsg, -⟩
    cases h.symm.trans hmsg

/-- Without a callback the verdict is still to come. -/
theorem oneVerdict_cons (h : receive boost HTTPServer.codec k a = .ok (k', msg))
    (hquiet : msg.callback = none) :
    OneVerdict boost k (a :: as) ↔ OneVerdict boost k' as := by
  constructor
  · rintro hone pre a' post k'' msgs rfl hrun ⟨m, hmem, hcallback⟩
    exact hone (a :: pre) a' post k'' (msg :: msgs) rfl (run_cons_ok h hrun)
      ⟨m, List.mem_cons_of_mem _ hmem, hcallback⟩
  · rintro hone pre a' post k'' msgs heq hrun ⟨m, hmem, hcallback⟩
    cases pre with
    | nil =>
      cases hrun
      cases hmem
    | cons a₁ pre =>
      cases heq
      rcases run_cons_inv hrun with ⟨_, _, msgs', hmsg, hrest, rfl⟩
      cases h.symm.trans hmsg
      refine hone pre a' post k'' msgs' rfl hrest ⟨m, ?_, hcallback⟩
      -- the callback was not that of the quiet chunk
      rcases List.mem_cons.1 hmem with rfl | hmem
      · exact absurd hquiet hcallback
      · exact hmem

/-- From `k` on, where the bytes that have come are not settled. -/
theorem oneVerdict_from {s : HTTPRequestParsingState} {b : Buffer} {bytes : List UInt8}
    (h : Resumes boost HTTPServer.codec bytes s b) (hdone : s.status ≠ .kParsingDone)
    (hbytes : settled boost bytes = false)
    (harrives : Guarded (receive boost HTTPServer.codec) Arrives ⟨some s, b⟩ as) :
    OneVerdict boost ⟨some s, b⟩ as ↔ ∀ n < as.length,
      settled boost (bytes ++ ((as.take n).map Arrival.chunk).flatten) = false := by
  induction as generalizing s b bytes with
  | nil =>
    exact iff_of_true (oneVerdict_nil _) fun n hn => absurd hn (Nat.not_lt_zero n)
  | cons a as ih =>
    rw [List.length_cons, Nat.forall_lt_succ_left]
    simp only [List.take_zero, List.map_nil, List.flatten_nil, List.append_nil, hbytes, true_and,
      List.take_succ_cons, List.map_cons, List.flatten_cons, ← List.append_assoc]
    have hanswers := receive_answers h harrives.1
    cases hmsg : receive boost HTTPServer.codec ⟨some s, b⟩ a with
    | error fault =>
      exact iff_of_true (oneVerdict_cons_error hmsg)
        fun n _ => receive_error h harrives.1 hmsg _
    | ok x =>
      rcases x with ⟨k, msg⟩
      rw [hmsg, answers_ok] at hanswers
      by_cases hquiet : msg.callback = none
      · -- the call waits for more
        rcases onMessage_waits rfl hmsg hquiet with ⟨s', hcontext, hwaits⟩
        rcases k with ⟨context, readBuf⟩
        obtain rfl : context = some s' := hcontext
        rw [oneVerdict_cons hmsg hquiet]
        refine ih (h.step harrives.1 hwaits) ?_ ?_ (harrives.2 _ _ hmsg)
        · rcases parsing_last hdone hwaits (by decide) with ⟨s₀, b₀, hdone₀, hcall⟩
          rwa [((call_stable boost).waits _ _ _ _ hcall).1]
        · exact Bool.not_eq_true _ ▸ fun hsettled => hanswers.2 hsettled hquiet
      · cases as with
        | nil =>
          exact iff_of_true (oneVerdict_single _ _) fun n hn => absurd hn (Nat.not_lt_zero n)
        | cons a' as =>
          -- something follows the verdict
          refine iff_of_false (fun hone => ?_) fun hall => ?_
          · obtain ⟨k', msg', hnext, hquiet'⟩ := hone [a] a' as k [msg] rfl
              (run_cons_ok hmsg rfl) ⟨msg, List.mem_singleton_self msg, hquiet⟩
            exact receive_behind hdone hmsg hquiet ((harrives.2 _ _ hmsg).1) hnext hquiet'
          · have hfirst := hall 0 (Nat.succ_pos _)
            rw [List.take_zero, List.map_nil, List.flatten_nil, List.append_nil,
              hanswers.1 hquiet] at hfirst
            cases hfirst

end Verdict

/-- The bytes of a connection come in chunks. The connection gets one verdict if and only if no
chunk follows bytes that hold a whole request or a malformed line. -/
theorem one_verdict_iff (boost : Boost) (as : List Arrival)
    (harrives : Guarded (receive boost HTTPServer.codec) Arrives start as) :
    OneVerdict boost start as ↔
      ∀ n < as.length, settled boost ((as.take n).map Arrival.chunk).flatten = false := by
  have hbytes : settled boost [] = false := rfl
  exact oneVerdict_from (resumes_start boost _) (by decide) hbytes harrives

/-- A request comes in two chunks, and nothing follows. -/
theorem one_verdict_iff_run : OneVerdict .std start
    [⟨ascii "GET / HTTP/1.0\r", .ofList (ascii "GET / HTTP/1.0\r")⟩,
      ⟨ascii "\n\r\n", .ofList (ascii "GET / HTTP/1.0\r\n\r\n")⟩] :=
  (one_verdict_iff .std _ (by decide +kernel)).2 (by decide +kernel)

/-- A request is followed by a byte, for which `any_cast` throws; and a malformed line is followed
by a byte, for which the error callback is made again. -/
theorem verdict_followed :
    (∃ as, as.map Arrival.chunk = [ascii "GET / HTTP/1.0\r\n\r\n", ascii "x"] ∧
      Guarded (receive .std HTTPServer.codec) Arrives start as ∧ ¬ OneVerdict .std start as) ∧
    ∃ as, as.map Arrival.chunk = [ascii "GET /\r\n", ascii "x"] ∧
      Guarded (receive .std HTTPServer.codec) Arrives start as ∧ ¬ OneVerdict .std start as := by
  -- one verdict would mean that nothing was settled before the last chunk
  have hnot : ∀ as, Guarded (receive .std HTTPServer.codec) Arrives start as →
      (¬ ∀ n < as.length, settled .std ((as.take n).map Arrival.chunk).flatten = false) →
      ¬ OneVerdict .std start as := fun as harrives hsettled hone =>
    hsettled ((oneVerdict_from (resumes_start _ _) (by decide) rfl harrives).1 hone)
  constructor
  · have harrives : Guarded (receive .std HTTPServer.codec) Arrives start
        [⟨ascii "GET / HTTP/1.0\r\n\r\n", .ofList (ascii "GET / HTTP/1.0\r\n\r\n")⟩,
          ⟨ascii "x", .ofList (ascii "x")⟩] := by decide +kernel
    exact ⟨_, rfl, harrives, hnot _ harrives (by decide +kernel)⟩
  · have harrives : Guarded (receive .std HTTPServer.codec) Arrives start
        [⟨ascii "GET /\r\n", .ofList (ascii "GET /\r\n")⟩,
          ⟨ascii "x", .ofList (ascii "GET /\r\nx")⟩] := by decide +kernel
    exact ⟨_, rfl, harrives, hnot _ harrives (by decide +kernel)⟩

end FxServer.HTTPCodec
