import FxServer.HTTPCodec.Chunks

/-!
# FxServer.HTTPCodec.Assertions — what trips the assertions of the parser

Every function of the parser asserts what the functions before it have left. The status and the
response of an error are always right. But `ReadRequestHeader` passes a request on to
`ReadRequestBody` for any content length, and `ReadRequestBody` asserts that it is not zero.

As the first callback does not depend on the cuts, it is enough to look at the whole stream at
once. There the loop is followed through its three functions, and the condition is a predicate on
the bytes alone, which takes the head of a request apart as the parser does.

* `faults_start` — the loop fails exactly on the bytes of such a request.
* `assertions_hold_iff` — so does `OnMessage`, however the bytes are cut.
* `zero_length_aborts` — a request with `Content-Length: 0`.
-/

namespace FxServer.HTTPCodec

open Machine Resumable

/-- Behind the request line, or behind other header lines, `d` comes to the blank line with a
content length of zero. -/
def zeroLength (boost : Boost) (req : HTTPRequest) (d : List UInt8) : Bool :=
  match _h : Search.first headerSep d with
  | none => false
  | some 0 => (req.getHeader (ascii "content-length")).bind boost.lexicalCast = some 0
  | some (n + 1) =>
    match headerLine boost req (d.take (n + 1)) with
    | none => false
    | some req => zeroLength boost req (d.drop (n + 1 + headerSepLen))
termination_by d.length
decreasing_by
  have hle := first_add_le _h
  rw [List.length_drop]
  omega

/-- The bytes begin with a valid head, to the blank line, that has a content length of zero. -/
def announcesEmptyBody (boost : Boost) (d : List UInt8) : Bool :=
  match Search.first headerSep d with
  | none => false
  | some pos =>
    (requestLine boost .new (d.take pos)).2 = true ∧
      zeroLength boost (requestLine boost .new (d.take pos)).1 (d.drop (pos + headerSepLen))

variable {boost : Boost} {b : Buffer} {s : HTTPRequestParsingState} {r : ParseResult}
  {d : List UInt8}

/-- The loop fails. -/
def Faults (out : Except Fault (ParseResult × HTTPRequestParsingState × Buffer)) : Prop :=
  ∃ fault, out = .error fault

theorem faults_error (fault : Fault) : Faults (.error fault) := ⟨fault, rfl⟩

theorem not_faults_ok (x : ParseResult × HTTPRequestParsingState × Buffer) :
    ¬ Faults (.ok x) := by
  rintro ⟨fault, h⟩
  cases h

/-- In the body the assertion fails exactly on the length 0. -/
theorem faults_body (hstatus : s.status = .kParsingRequestBody)
    (hfunc : s.func = some .readRequestBody) :
    Faults (parsing boost r s b) ↔ s.req.bodyLength = 0 := by
  by_cases hbody : s.req.bodyLength = 0
  · rw [parsing_body_faults hstatus hfunc hbody]
    exact iff_of_true (faults_error _) hbody
  · refine iff_of_false ?_ hbody
    by_cases hmore : b.bytesToRead < s.req.bodyLength
    · rw [parsing_body_waits hstatus hfunc hbody hmore]
      exact not_faults_ok _
    · rcases parsing_body_done (r := r) hstatus hfunc hbody (Nat.not_lt.1 hmore) with ⟨b', hparse⟩
      rw [hparse]
      exact not_faults_ok _

/-- In the headers a fault is decided by `zeroLength` on the unread bytes. -/
theorem faults_headers {req : HTTPRequest} (hstatus : s.status = .kParsingRequestHeader)
    (hfunc : s.func = some .readRequestHeader) (hreq : s.req = req) (hd : b.readable = d) :
    Faults (parsing boost r s b) ↔ zeroLength boost req d = true := by
  fun_induction zeroLength boost req d generalizing s b r with
  | case1 req d hfirst =>
    -- no line
    rw [parsing_header_waits hstatus hfunc (hd ▸ hfirst)]
    exact iff_of_false (not_faults_ok _) Bool.false_ne_true
  | case2 req d hfirst =>
    -- the blank line
    subst hreq hd
    rw [decide_eq_true_eq]
    cases hlength : s.req.getHeader (ascii "content-length") with
    | none =>
      obtain ⟨b', -, hparse⟩ :=
        parsing_header_goes (r := r) hstatus hfunc hfirst (headerNext_done boost _ hlength)
      rw [hparse, parsing_done rfl, Option.bind_none]
      exact iff_of_false (not_faults_ok _) (by simp)
    | some contentLength =>
      have hnext := headerNext_length boost (b.readable.take 0) hlength
      rw [Option.bind_some]
      cases hcast : boost.lexicalCast contentLength with
      | none =>
        rw [hcast] at hnext
        rw [parsing_header_fails hstatus hfunc hfirst hnext]
        exact iff_of_false (not_faults_ok _) (by simp)
      | some bodyLength =>
        rw [hcast] at hnext
        rcases parsing_header_goes (r := r) hstatus hfunc hfirst hnext with ⟨b', -, hparse⟩
        rw [hparse, faults_body rfl rfl, Option.some_inj]
  | case3 req d n hfirst hline =>
    subst hreq hd
    have hnext := headerNext_line boost s (b.readable.take (n + 1)) (Nat.succ_ne_zero n)
    rw [hline] at hnext
    rw [parsing_header_fails hstatus hfunc hfirst hnext]
    exact iff_of_false (not_faults_ok _) Bool.false_ne_true
  | case4 req d n hfirst req' hline ih =>
    -- a header line
    subst hreq hd
    have hnext := headerNext_line boost s (b.readable.take (n + 1)) (Nat.succ_ne_zero n)
    rw [hline] at hnext
    rcases parsing_header_goes (r := r) hstatus hfunc hfirst hnext with ⟨b', hread, hparse⟩
    rw [hparse]
    exact ih hstatus hfunc rfl hread

/-- From the start it is decided by `announcesEmptyBody`. -/
theorem faults_start : Faults (parsing boost r onNewConnection b) ↔
    announcesEmptyBody boost b.readable = true := by
  by_cases hempty : b.readable = []
  · rw [parsing_start_waits hempty, hempty]
    exact iff_of_false (not_faults_ok _) (by simp [announcesEmptyBody, Search.first, headerSep])
  · rw [parsing_start_goes hempty]
    unfold announcesEmptyBody
    cases hfirst : Search.first headerSep b.readable with
    | none =>
      -- without a line there is nothing to assert yet
      rw [parsing_requestLine_waits rfl rfl hfirst]
      exact iff_of_false (not_faults_ok _) Bool.false_ne_true
    | some pos =>
      have hreq : started.req = .new := rfl
      cases hvalid : (requestLine boost .new (b.readable.take pos)).2 with
      | false =>
        -- an invalid line is refused before the headers
        rw [parsing_requestLine_fails rfl rfl hfirst (hreq ▸ hvalid)]
        exact iff_of_false (not_faults_ok _) (by simp [hvalid])
      | true =>
        rcases parsing_requestLine_goes (r := .kParseOK) rfl rfl hfirst (hreq ▸ hvalid) with
          ⟨b', hread, hparse⟩
        rw [hparse, faults_headers rfl rfl rfl hread]
        simp [hvalid, hreq]

/-- Behind its loop `OnMessage` has the response that it asserts. -/
theorem onMessage_faults (boost : Boost) (codec : HTTPCodec) (b : Buffer)
    (hdone : s.status ≠ .kParsingDone) :
    (∃ fault, onMessage boost codec (some s) b = .error fault) ↔
      Faults (parsing boost .kParseError s b) := by
  rw [onMessage_some]
  cases hparse : parsing boost .kParseError s b with
  | error fault => exact iff_of_true ⟨fault, rfl⟩ (faults_error fault)
  | ok x =>
    rcases x with ⟨r, s', b'⟩
    refine iff_of_false ?_ (not_faults_ok _)
    rintro ⟨fault, h⟩
    simp only [ok_bind, conclude] at h
    split at h
    · rename_i herror
      obtain rfl : r = .kParseError := herror.1
      split at h
      · rename_i hnone
        -- the response of a parse error is set: no null is dereferenced
        exact parsing_error_res hdone hparse hnone
      · cases h
    · split at h <;> cases h

/-- The codec has a request callback, as `HTTPServer` gives it one (`hrcb`): without it, a whole
request would lead to no callback. The bytes of a new connection come in chunks. Up to the first
callback no assertion fails and nothing is thrown, if and only if the bytes do not begin with a
valid head that has a content length of zero. -/
theorem assertions_hold_iff (boost : Boost) (codec : HTTPCodec) (hrcb : codec.rcb = true)
    (as : List Arrival) (harrives : Guarded (receive boost codec) Arrives start as) :
    (∀ fault, firstCallback boost codec start as ≠ some (.error fault)) ↔
      announcesEmptyBody boost (as.map Arrival.chunk).flatten = false := by
  have hfaults := (onMessage_faults boost codec (.ofList (as.map Arrival.chunk).flatten)
    (show onNewConnection.status ≠ .kParsingDone by decide)).trans faults_start
  rw [Buffer.readable_ofList] at hfaults
  -- the chunks call back as the whole stream does
  rw [firstCallback_whole hrcb harrives, ← Bool.not_eq_true, ← hfaults, not_exists]
  refine forall_congr' fun fault => not_congr ?_
  rw [← receive_whole]
  cases hmsg : receive boost codec start (whole (as.map Arrival.chunk).flatten) with
  | error fault' =>
    rw [firstCallback_error hmsg]
    simp
  | ok x =>
    simp only [firstCallback, hmsg]
    split <;> simp

/-- A request whose body is announced and comes in a chunk of its own. -/
theorem assertions_hold_iff_run : ¬ ∃ fault,
    firstCallback .std ⟨true, true⟩ start
      [⟨ascii "POST / HTTP/1.0\r\nContent-Length: 2\r\n\r\n",
        .ofList (ascii "POST / HTTP/1.0\r\nContent-Length: 2\r\n\r\n")⟩,
        ⟨ascii "ab", .ofList (ascii "ab")⟩] = some (.error fault) := by
  rintro ⟨fault, hfault⟩
  exact (assertions_hold_iff .std ⟨true, true⟩ rfl _ (by decide +kernel)).2 (by decide +kernel)
    fault hfault

/-- A request that says that it has no body. -/
theorem zero_length_aborts :
    Guarded (receive .std ⟨true, true⟩) Arrives start
        [whole (ascii "POST / HTTP/1.0\r\nContent-Length: 0\r\n\r\n")] ∧
      firstCallback .std ⟨true, true⟩ start
        [whole (ascii "POST / HTTP/1.0\r\nContent-Length: 0\r\n\r\n")] =
          some (.error .assertion) := by
  constructor
  · decide +kernel
  · decide +kernel

end FxServer.HTTPCodec
