import FxServer.HTTPCodec

/-!
# FxServer.HTTPCodec.Parsing — the loop of `OnMessage`, function by function

What the loop comes to is told by what the function of the state finds in the buffer: it waits,
it finds an error, or it consumes its part and the loop goes on with the rest.

The lemmas are equations between what the loop comes to from one state and from the next one.
With them, a proof about the loop is an induction on what is left in the buffer, and does not
unfold the loop.

* `parsing_start_goes`, `parsing_requestLine_goes`, `parsing_header_goes`, `parsing_body_done` —
  the functions, when they find what they look for.
* `parsing_body_faults` — the one assertion that is about the request.
-/

namespace FxServer.HTTPCodec

open Resumable

variable {boost : Boost} {b b' : Buffer} {s s' : HTTPRequestParsingState} {r r' : ParseResult}
  {pos : ℕ}

/-! ## The loop -/

/-- One turn of the loop. -/
theorem parsing_eq (boost : Boost) (r : ParseResult) (s : HTTPRequestParsingState) (b : Buffer) :
    parsing boost r s b =
      if s.status = .kParsingDone then .ok (r, s, b)
      else
        match call boost s b with
        | .error fault => .error fault
        | .ok (.kParseOK, s', b') => parsing boost .kParseOK s' b'
        | .ok (r', s', b') => .ok (r', s', b') := by
  rw [parsing]
  split_ifs with hdone
  · rfl
  · cases call boost s b with
    | error fault => rfl
    | ok x =>
      rcases x with ⟨r', s', b'⟩
      cases r' <;> rfl

/-- A finished request is parsed no further. -/
theorem parsing_done (hdone : s.status = .kParsingDone) :
    parsing boost r s b = .ok (r, s, b) := by
  rw [parsing_eq, if_pos hdone]

/-- A call that returns `kParseOK` is followed by the next one. -/
theorem parsing_go (hdone : s.status ≠ .kParsingDone)
    (hcall : call boost s b = .ok (.kParseOK, s', b')) :
    parsing boost r s b = parsing boost .kParseOK s' b' := by
  rw [parsing_eq, if_neg hdone, hcall]

/-- Any other result ends the loop and is its result. -/
theorem parsing_halt (hdone : s.status ≠ .kParsingDone)
    (hcall : call boost s b = .ok (r', s', b')) (hr' : r' ≠ .kParseOK) :
    parsing boost r s b = .ok (r', s', b') := by
  rw [parsing_eq, if_neg hdone, hcall]
  cases r' with
  | kParseOK => exact absurd rfl hr'
  | kParseNeedMore => rfl
  | kParseError => rfl

/-- A fault in a call is a fault of the loop. -/
theorem parsing_fault {fault : Fault} (hdone : s.status ≠ .kParsingDone)
    (hcall : call boost s b = .error fault) : parsing boost r s b = .error fault := by
  rw [parsing_eq, if_neg hdone, hcall]

/-- A function that consumes its part of the buffer is followed by the next. -/
theorem parsing_consume {n : ℕ} (hdone : s.status ≠ .kParsingDone) (hn : n ≤ b.bytesToRead)
    (hcall : call boost s b = (do let b ← b.consumeBytes n; .ok (.kParseOK, s', b))) :
    ∃ b', b'.readable = b.readable.drop n ∧
      parsing boost r s b = parsing boost .kParseOK s' b' := by
  rcases Buffer.consumeBytes_of_le hn with ⟨b', hconsume, hread⟩
  rw [hconsume, ok_bind] at hcall
  exact ⟨b', hread, parsing_go hdone hcall⟩

/-- The separator found lies within the bytes to read. -/
theorem separator_le (hfirst : Search.first headerSep b.readable = some pos) :
    pos + headerSepLen ≤ b.bytesToRead := by
  simpa only [Buffer.length_readable] using first_add_le hfirst

/-- The call with which the loop stops before the state is done. -/
theorem parsing_last (hdone : s.status ≠ .kParsingDone)
    (h : parsing boost r s b = .ok (r', s', b')) (hr' : r' ≠ .kParseOK) :
    ∃ s₀ b₀, s₀.status ≠ .kParsingDone ∧ call boost s₀ b₀ = .ok (r', s', b') := by
  have hdrives := (parsing_drives boost r s b).reply hdone .kParseOK
  rw [h] at hdrives
  rcases hdrives.last with ⟨-, hres⟩ | ⟨s₀, b₀, hdone₀, hcall, -⟩
  · exact absurd (hres.elim id id) hr'
  · exact ⟨s₀, b₀, hdone₀, hcall⟩

/-- There is a response for an error. -/
theorem parsing_error_res (hdone : s.status ≠ .kParsingDone)
    (h : parsing boost r s b = .ok (.kParseError, s', b')) : s'.res ≠ none := by
  rcases parsing_last hdone h (by decide) with ⟨s₀, b₀, -, hcall⟩
  cases call_called hcall
  exact Option.some_ne_none _

/-! ## StartParsing -/

/-- The state behind `StartParsing`. -/
def started : HTTPRequestParsingState :=
  { onNewConnection with status := .kParsingRequestLine, func := some .readRequestLine }

/-- Nothing has arrived yet: the start waits. -/
theorem parsing_start_waits (hempty : b.readable = []) :
    parsing boost r onNewConnection b = .ok (.kParseNeedMore, onNewConnection, b) := by
  have hcall : call boost onNewConnection b = .ok (.kParseNeedMore, onNewConnection, b) := by
    simp [call, onNewConnection, startParsing, check, Buffer.bytesToRead_eq_zero.2 hempty]
  exact parsing_halt (by decide) hcall (by decide)

/-- With the first bytes the request line is on. -/
theorem parsing_start_goes (hne : b.readable ≠ []) :
    parsing boost r onNewConnection b = parsing boost .kParseOK started b := by
  have hcall : call boost onNewConnection b = .ok (.kParseOK, started, b) := by
    simp [call, onNewConnection, startParsing, check, Buffer.bytesToRead_eq_zero, hne, started]
  exact parsing_go (by decide) hcall

/-! ## ReadRequestLine -/

/-- A request line sets the type, the path and the version of the request, or some of them. -/
theorem requestLine_frame (boost : Boost) (req : HTTPRequest) (line : List UInt8) :
    ∃ requestType originalRequestPath majorVersion minorVersion,
      (requestLine boost req line).1 =
        { req with requestType, originalRequestPath, majorVersion, minorVersion } := by
  unfold requestLine
  split
  · simp only
    split
    · exact ⟨_, _, _, _, rfl⟩
    · split
      · exact ⟨_, _, _, _, rfl⟩
      · split
        · exact ⟨_, _, _, _, rfl⟩
        · split
          · exact ⟨_, _, _, _, rfl⟩
          · split
            · exact ⟨_, _, _, _, rfl⟩
            · exact ⟨_, _, _, _, rfl⟩
  · exact ⟨req.requestType, req.originalRequestPath, _, _, rfl⟩

section RequestLine

variable (hstatus : s.status = .kParsingRequestLine) (hfunc : s.func = some .readRequestLine)

include hstatus hfunc

/-- What `ReadRequestLine` does when it finds a separator. -/
theorem call_requestLine (boost : Boost) (b : Buffer) :
    call boost s b = match Search.first headerSep b.readable with
      | none => .ok (.kParseNeedMore, s, b)
      | some pos =>
        let line := requestLine boost s.req (b.readable.take pos)
        if line.2 then do
          let b ← b.consumeBytes (pos + headerSepLen)
          .ok (.kParseOK, { s with
            status := .kParsingRequestHeader, func := some .readRequestHeader, req := line.1 }, b)
        else .ok (.kParseError, { s with req := line.1, res := some (.new 400) }, b) := by
  have hcall : call boost s b = readRequestLine boost s b := by rw [call, hfunc]
  rw [hcall, readRequestLine, check_true hstatus, ok_bind]
  unfold withLine
  simp only [find_headerSep]
  rfl

/-- Without a separator the request line is not complete. -/
theorem parsing_requestLine_waits (hfirst : Search.first headerSep b.readable = none) :
    parsing boost r s b = .ok (.kParseNeedMore, s, b) := by
  have hcall := call_requestLine hstatus hfunc boost b
  rw [hfirst] at hcall
  exact parsing_halt (by simp [hstatus]) hcall (by decide)

/-- An invalid request line is refused with 400, and its bytes stay. -/
theorem parsing_requestLine_fails (hfirst : Search.first headerSep b.readable = some pos)
    (hvalid : (requestLine boost s.req (b.readable.take pos)).2 = false) :
    parsing boost r s b = .ok (.kParseError, { s with
      req := (requestLine boost s.req (b.readable.take pos)).1, res := some (.new 400) }, b) := by
  have hcall := call_requestLine hstatus hfunc boost b
  simp only [hfirst, hvalid, Bool.false_eq_true, if_false] at hcall
  exact parsing_halt (by simp [hstatus]) hcall (by decide)

/-- A valid request line is consumed with its separator, and the headers are on. -/
theorem parsing_requestLine_goes (hfirst : Search.first headerSep b.readable = some pos)
    (hvalid : (requestLine boost s.req (b.readable.take pos)).2 = true) :
    ∃ b', b'.readable = b.readable.drop (pos + headerSepLen) ∧
      parsing boost r s b = parsing boost .kParseOK { s with
        status := .kParsingRequestHeader
        func := some .readRequestHeader
        req := (requestLine boost s.req (b.readable.take pos)).1 } b' := by
  have hcall := call_requestLine hstatus hfunc boost b
  simp only [hfirst, hvalid, if_true] at hcall
  exact parsing_consume (by simp [hstatus]) (separator_le hfirst) hcall

end RequestLine

/-! ## ReadRequestHeader -/

/-- What `ReadRequestHeader` makes of the state when it finds a separator. -/
def headerNext (boost : Boost) (s : HTTPRequestParsingState) (pos : ℕ) (line : List UInt8) :
    Option HTTPRequestParsingState :=
  if pos = 0 then headersEnd boost s
  else (headerLine boost s.req line).map fun req => { s with req }

/-- The blank line of a request without a body. -/
theorem headerNext_done (boost : Boost) (line : List UInt8)
    (hlength : s.req.getHeader (ascii "content-length") = none) :
    headerNext boost s 0 line = some { s with status := .kParsingDone, func := none } := by
  simp only [headerNext, if_true, headersEnd, hlength]

/-- The blank line, when there is a content length. -/
theorem headerNext_length (boost : Boost) (line : List UInt8) {contentLength : List UInt8}
    (hlength : s.req.getHeader (ascii "content-length") = some contentLength) :
    headerNext boost s 0 line = (boost.lexicalCast contentLength).map fun bodyLength => { s with
      status := .kParsingRequestBody
      func := some .readRequestBody
      req := { s.req with bodyLength } } := by
  simp only [headerNext, if_true, headersEnd, hlength]

/-- A line that is not empty is read as one header line. -/
theorem headerNext_line (boost : Boost) (s : HTTPRequestParsingState) (line : List UInt8)
    (hpos : pos ≠ 0) :
    headerNext boost s pos line = (headerLine boost s.req line).map fun req => { s with req } :=
  if_neg hpos

section Header

variable (hstatus : s.status = .kParsingRequestHeader) (hfunc : s.func = some .readRequestHeader)

include hstatus hfunc

/-- The call in the headers, as a choice on the first separator. -/
theorem call_header (boost : Boost) (b : Buffer) :
    call boost s b = match Search.first headerSep b.readable with
      | none => .ok (.kParseNeedMore, s, b)
      | some pos =>
        match headerNext boost s pos (b.readable.take pos) with
        | none => .ok (.kParseError, { s with res := some (.new 400) }, b)
        | some s' => (do let b ← b.consumeBytes (pos + headerSepLen); .ok (.kParseOK, s', b)) := by
  have hcall : call boost s b = readRequestHeader boost s b := by rw [call, hfunc]
  rw [hcall, readRequestHeader, check_true hstatus, ok_bind]
  unfold withLine
  simp only [find_headerSep]
  rfl

/-- Without a separator the header line is not complete. -/
theorem parsing_header_waits (hfirst : Search.first headerSep b.readable = none) :
    parsing boost r s b = .ok (.kParseNeedMore, s, b) := by
  have hcall := call_header hstatus hfunc boost b
  rw [hfirst] at hcall
  exact parsing_halt (by simp [hstatus]) hcall (by decide)

/-- A header line that is refused ends the request with 400. -/
theorem parsing_header_fails (hfirst : Search.first headerSep b.readable = some pos)
    (hnext : headerNext boost s pos (b.readable.take pos) = none) :
    parsing boost r s b = .ok (.kParseError, { s with res := some (.new 400) }, b) := by
  have hcall := call_header hstatus hfunc boost b
  simp only [hfirst, hnext] at hcall
  exact parsing_halt (by simp [hstatus]) hcall (by decide)

/-- One that is accepted is consumed with its separator. -/
theorem parsing_header_goes (hfirst : Search.first headerSep b.readable = some pos)
    (hnext : headerNext boost s pos (b.readable.take pos) = some s') :
    ∃ b', b'.readable = b.readable.drop (pos + headerSepLen) ∧
      parsing boost r s b = parsing boost .kParseOK s' b' := by
  have hcall := call_header hstatus hfunc boost b
  simp only [hfirst, hnext] at hcall
  exact parsing_consume (by simp [hstatus]) (separator_le hfirst) hcall

end Header

/-! ## ReadRequestBody -/

section Body

variable (hstatus : s.status = .kParsingRequestBody) (hfunc : s.func = some .readRequestBody)

include hstatus hfunc

/-- The assertion that is about the request. -/
theorem parsing_body_faults (hbody : s.req.bodyLength = 0) :
    parsing boost r s b = .error .assertion := by
  have hcall : call boost s b = .error .assertion := by
    simp only [call, hfunc, readRequestBody, check_true hstatus, ok_bind]
    rw [check_false (not_not.2 hbody)]
    rfl
  exact parsing_fault (by simp [hstatus]) hcall

/-- A body that is not complete is waited for. -/
theorem parsing_body_waits (hbody : s.req.bodyLength ≠ 0)
    (hmore : b.bytesToRead < s.req.bodyLength) :
    parsing boost r s b = .ok (.kParseNeedMore, s, b) := by
  have hcall : call boost s b = .ok (.kParseNeedMore, s, b) := by
    simp [call, hfunc, readRequestBody, check, hstatus, hbody, hmore]
  exact parsing_halt (by simp [hstatus]) hcall (by decide)

/-- A complete body ends the request. -/
theorem parsing_body_done (hbody : s.req.bodyLength ≠ 0)
    (hall : s.req.bodyLength ≤ b.bytesToRead) :
    ∃ b', parsing boost r s b = .ok (.kParseOK, { s with
      status := .kParsingDone
      func := none
      req := { s.req with body := b.readable.take s.req.bodyLength } }, b') := by
  have hcall : call boost s b = (do
      let b' ← b.consumeBytes s.req.bodyLength
      .ok (.kParseOK, { s with
        status := .kParsingDone
        func := none
        req := { s.req with body := b.readable.take s.req.bodyLength } }, b')) := by
    simp [call, hfunc, readRequestBody, check, hstatus, hbody, Nat.not_lt.2 hall]
  rcases parsing_consume (r := r) (by simp [hstatus]) hall hcall with ⟨b', -, hparse⟩
  exact ⟨b', hparse.trans (parsing_done rfl)⟩

end Body

end FxServer.HTTPCodec
