import FxServer.Buffer
import FxServer.HTTP
import FxServer.Resumable
import FxServer.Slice

/-!
# FxServer.HTTPCodec — parsing a request piece by piece

The model of the parsing half of `src/examples/httpserver/src/http_codec.cc`. The context of a
connection is the state of parsing, with the function that is to be called next. `OnMessage`
calls these functions until one of them needs more bytes, finds an error or is the last.

The functions of the states have one property in common: a function that can decide anything
decides the same with more bytes behind, and one that cannot has changed nothing. That is proved
function by function, and is all that the proofs about cut requests use.

* `parsing_drives` — `OnMessage` drives a resumable handler: `call_stable`.
-/

namespace FxServer

open Resumable

namespace HTTPCodec

/-- `\r\n` -/
def headerSep : List UInt8 := [13, 10]

def headerSepLen : ℕ := 2

variable (boost : Boost)

/-! ## The functions of the states -/

/-- `StartParsing`, which waits for the first byte. -/
def startParsing (state : HTTPRequestParsingState) (buf : Buffer) :
    Except Fault (ParseResult × HTTPRequestParsingState × Buffer) := do
  check (state.status = .kInit)
  if buf.bytesToRead ≠ 0 then
    .ok (.kParseOK,
      { state with status := .kParsingRequestLine, func := some .readRequestLine }, buf)
  else .ok (.kParseNeedMore, state, buf)

/-- What `ReadRequestLine` sets of the request for the line, and whether there is no error. -/
def requestLine (req : HTTPRequest) (line : List UInt8) : HTTPRequest × Bool :=
  match boost.splitString line (ascii " ") with
  | [requestType, path, requestVersion] =>
    let req := { req with requestType, originalRequestPath := path }
    match Search.first (ascii "/") requestVersion with
    | none => (req, false)
    | some s =>
      if requestVersion.take s ≠ ascii "HTTP" then (req, false)
      else
        let version := requestVersion.drop (s + 1)
        match Search.first (ascii ".") version with
        | none => (req, false)
        | some e =>
          match boost.lexicalCast (version.take e) with
          | none => (req, false)
          | some majorVersion =>
            let req := { req with majorVersion }
            match boost.lexicalCast (version.drop (e + 1)) with
            | none => (req, false)
            | some minorVersion => ({ req with minorVersion }, true)
  | _ => (req, false)

/-- How two of the functions start: without a separator they need more, and otherwise go on with
its position and the line before it. -/
def withLine (state : HTTPRequestParsingState) (buf : Buffer)
    (found : ℕ → List UInt8 → Buffer →
      Except Fault (ParseResult × HTTPRequestParsingState × Buffer)) :
    Except Fault (ParseResult × HTTPRequestParsingState × Buffer) := do
  let msg := buf.readable
  match ← Slice.find msg headerSep with
  | none => .ok (.kParseNeedMore, state, buf)
  | some pos => found pos (msg.take pos) buf

/-- `ReadRequestLine`; an invalid line is answered with 400, and stays in the buffer. -/
def readRequestLine (state : HTTPRequestParsingState) (buf : Buffer) :
    Except Fault (ParseResult × HTTPRequestParsingState × Buffer) := do
  check (state.status = .kParsingRequestLine)
  withLine state buf fun pos line buf => do
    let (req, valid) := requestLine boost state.req line
    if valid then
      let buf ← buf.consumeBytes (pos + headerSepLen)
      .ok (.kParseOK,
        { state with status := .kParsingRequestHeader, func := some .readRequestHeader, req },
        buf)
    else .ok (.kParseError, { state with req, res := some (.new 400) }, buf)

/-- `ReadRequestHeader` at the blank line: `none` when the value of the content length is no
number. -/
def headersEnd (state : HTTPRequestParsingState) : Option HTTPRequestParsingState :=
  match state.req.getHeader (ascii "content-length") with
  | none => some { state with status := .kParsingDone, func := none }
  | some contentLength =>
    (boost.lexicalCast contentLength).map fun bodyLength => { state with
      status := .kParsingRequestBody
      func := some .readRequestBody
      req := { state.req with bodyLength } }

/-- `ReadRequestHeader` at a header line: `none` when it has not two parts. -/
def headerLine (req : HTTPRequest) (line : List UInt8) : Option HTTPRequest :=
  match boost.splitString line (ascii ": ") with
  | [key, val] =>
    -- header key is case-insensitive
    some ({ req with
      headerLength := (req.headerLength + line.length + headerSepLen) % 2 ^ 32 }.addHeader
        (boost.toLower key) val)
  | _ => none

/-- `ReadRequestHeader`, for one line. -/
def readRequestHeader (state : HTTPRequestParsingState) (buf : Buffer) :
    Except Fault (ParseResult × HTTPRequestParsingState × Buffer) := do
  check (state.status = .kParsingRequestHeader)
  withLine state buf fun pos line buf => do
    let next :=
      if pos = 0 then headersEnd boost state
      else (headerLine boost state.req line).map fun req => { state with req }
    match next with
    | none => .ok (.kParseError, { state with res := some (.new 400) }, buf)
    | some state =>
      let buf ← buf.consumeBytes (pos + headerSepLen)
      .ok (.kParseOK, state, buf)

/-- `ReadRequestBody`, for a body of the length that the headers have given. -/
def readRequestBody (state : HTTPRequestParsingState) (buf : Buffer) :
    Except Fault (ParseResult × HTTPRequestParsingState × Buffer) := do
  check (state.status = .kParsingRequestBody)
  let bodyLength := state.req.bodyLength
  -- if bodyLength is 0, we should never be here
  check (bodyLength ≠ 0)
  if buf.bytesToRead < bodyLength then .ok (.kParseNeedMore, state, buf)
  else
    let req := { state.req with body := buf.readable.take bodyLength }
    let buf ← buf.consumeBytes bodyLength
    .ok (.kParseOK, { state with status := .kParsingDone, func := none, req }, buf)

/-- `state->func( state.get(), buf )` -/
def call (state : HTTPRequestParsingState) (buf : Buffer) :
    Except Fault (ParseResult × HTTPRequestParsingState × Buffer) :=
  match state.func with
  | none => .error .exception
  | some .startParsing => startParsing state buf
  | some .readRequestLine => readRequestLine boost state buf
  | some .readRequestHeader => readRequestHeader boost state buf
  | some .readRequestBody => readRequestBody state buf

/-! ## What one call does -/

section Calls

variable {boost} {b b' b₂ : Buffer} {s s' s₁ : HTTPRequestParsingState} {r : ParseResult} {n : ℕ}
  {e : List UInt8}

/-- The separator is found where it first occurs. -/
theorem find_headerSep (msg : List UInt8) :
    Slice.find msg headerSep = .ok (Search.first headerSep msg) :=
  Slice.find_pair (by decide) msg

/-- A function that consumes something leaves less in the buffer. -/
theorem consumed_lt (hn : 0 < n) (h : b.consumeBytes n = .ok b') :
    b'.bytesToRead < b.bytesToRead := by
  rcases Buffer.consumeBytes_ok h with ⟨hle, hread⟩
  have hlen := congrArg List.length hread
  simp only [Buffer.length_readable, List.length_drop] at hlen
  omega

/-- What is consumed is the same when more follows. -/
theorem consume_extends (hn : n ≤ b.bytesToRead) (hview : b₂.readable = b.readable ++ e) :
    Extends Buffer.readable e
      (do let b ← b.consumeBytes n; @Except.ok Fault _ (r, s, b))
      (do let b ← b₂.consumeBytes n; .ok (r, s, b)) := by
  have hlen := congrArg List.length hview
  rw [List.length_append, Buffer.length_readable, Buffer.length_readable] at hlen
  rcases Buffer.consumeBytes_of_le hn with ⟨b₁, hok, hread⟩
  rcases Buffer.consumeBytes_of_le (show n ≤ b₂.bytesToRead by omega) with ⟨b₃, hok', hread'⟩
  rw [hok, hok']
  refine ⟨rfl, rfl, ?_⟩
  rw [hread', hread, hview, List.drop_append_of_le_length]
  rwa [Buffer.length_readable]

/-- A separator that is found ends within the message. -/
theorem first_add_le {msg : List UInt8} {pos : ℕ} (h : Search.first headerSep msg = some pos) :
    pos + headerSepLen ≤ msg.length :=
  Search.first_add_le h

/-- What is done with a line is the same when more follows. -/
theorem withLine_sees {found : ℕ → List UInt8 → Buffer →
      Except Fault (ParseResult × HTTPRequestParsingState × Buffer)}
    (hview : b₂.readable = b.readable ++ e)
    (he : e = [] ∨ Settles .kParseNeedMore (withLine s b found))
    (hfound : ∀ pos line, pos + headerSepLen ≤ b.bytesToRead →
      Extends Buffer.readable e (found pos line b) (found pos line b₂)) :
    Extends Buffer.readable e (withLine s b found) (withLine s b₂ found) := by
  unfold withLine at he ⊢
  simp only [find_headerSep, ok_bind] at he ⊢
  cases hfirst : Search.first headerSep b.readable with
  | none =>
    rw [hfirst] at he
    rcases he with rfl | hsettles
    · -- nothing has come behind: the same bytes, the same result
      rw [List.append_nil] at hview
      rw [hview, hfirst]
      exact ⟨rfl, rfl, by rw [hview, List.append_nil]⟩
    · exact absurd rfl hsettles
  | some pos =>
    -- the separator and the line in front of it are old bytes
    have hle := first_add_le hfirst
    have htake : (b.readable ++ e).take pos = b.readable.take pos :=
      List.take_append_of_le_length (by omega)
    rw [Buffer.length_readable] at hle
    rw [hview, Search.first_append hfirst]
    simp only [htake]
    exact hfound pos _ hle

/-- `StartParsing` behaves the same with more bytes behind, unless it waits for them. -/
theorem startParsing_sees (hview : b₂.readable = b.readable ++ e)
    (he : e = [] ∨ Settles .kParseNeedMore (startParsing s b)) :
    Extends Buffer.readable e (startParsing s b) (startParsing s b₂) := by
  unfold startParsing at he ⊢
  by_cases hs : s.status = .kInit
  · simp only [check_true hs, ok_bind, ne_eq, Buffer.bytesToRead_eq_zero, hview] at he ⊢
    by_cases hempty : b.readable = []
    · rw [if_neg (not_not.2 hempty)] at he
      rw [if_neg (not_not.2 hempty)]
      rcases he with rfl | hsettles
      · rw [if_neg (by simpa using hempty)]
        exact ⟨rfl, rfl, hview⟩
      · exact absurd rfl hsettles
    · rw [if_pos hempty, if_pos fun h => hempty (List.append_eq_nil_iff.1 h).1]
      exact ⟨rfl, rfl, hview⟩
  · rw [check_false hs]
    exact rfl

/-- So does `ReadRequestLine`, which reads nothing behind the first separator. -/
theorem readRequestLine_sees (hview : b₂.readable = b.readable ++ e)
    (he : e = [] ∨ Settles .kParseNeedMore (readRequestLine boost s b)) :
    Extends Buffer.readable e (readRequestLine boost s b) (readRequestLine boost s b₂) := by
  unfold readRequestLine at he ⊢
  by_cases hs : s.status = .kParsingRequestLine
  · simp only [check_true hs, ok_bind] at he ⊢
    refine withLine_sees hview he fun pos line hle => ?_
    split
    · exact consume_extends hle hview
    · exact ⟨rfl, rfl, hview⟩
  · rw [check_false hs]
    exact rfl

/-- `ReadRequestHeader` behaves the same as well: it reads nothing behind the next
separator. -/
theorem readRequestHeader_sees (hview : b₂.readable = b.readable ++ e)
    (he : e = [] ∨ Settles .kParseNeedMore (readRequestHeader boost s b)) :
    Extends Buffer.readable e (readRequestHeader boost s b) (readRequestHeader boost s b₂) := by
  unfold readRequestHeader at he ⊢
  by_cases hs : s.status = .kParsingRequestHeader
  · simp only [check_true hs, ok_bind] at he ⊢
    refine withLine_sees hview he fun pos line hle => ?_
    split
    · exact ⟨rfl, rfl, hview⟩
    · exact consume_extends hle hview
  · rw [check_false hs]
    exact rfl

/-- `ReadRequestBody` too, once the bytes that the length counts are there. -/
theorem readRequestBody_sees (hview : b₂.readable = b.readable ++ e)
    (he : e = [] ∨ Settles .kParseNeedMore (readRequestBody s b)) :
    Extends Buffer.readable e (readRequestBody s b) (readRequestBody s b₂) := by
  unfold readRequestBody at he ⊢
  by_cases hs : s.status = .kParsingRequestBody
  · by_cases hbody : s.req.bodyLength ≠ 0
    · have hlen := congrArg List.length hview
      rw [List.length_append, Buffer.length_readable, Buffer.length_readable] at hlen
      simp only [check_true hs, check_true hbody, ok_bind] at he ⊢
      by_cases hmore : b.bytesToRead < s.req.bodyLength
      · rw [if_pos hmore] at he ⊢
        rcases he with rfl | hsettles
        · -- it waits, and nothing has come behind
          rw [if_pos (by simpa [hlen] using hmore)]
          exact ⟨rfl, rfl, hview⟩
        · exact absurd rfl hsettles
      · rw [if_neg hmore, if_neg (by omega)]
        -- the body consists of old bytes
        have htake : b₂.readable.take s.req.bodyLength = b.readable.take s.req.bodyLength := by
          rw [hview]
          exact List.take_append_of_le_length (by rw [Buffer.length_readable]; omega)
        rw [htake]
        exact consume_extends (by omega) hview
    · simp only [check_true hs, ok_bind, check_false hbody]
      exact rfl
  · rw [check_false hs]
    exact rfl

/-- What comes of a call that does not fail. -/
inductive Called (s : HTTPRequestParsingState) (b : Buffer) :
    ParseResult → HTTPRequestParsingState → Buffer → Prop
  | waits : Called s b .kParseNeedMore s b
  | fails (req : HTTPRequest) :
    Called s b .kParseError { s with req, res := some (.new 400) } b
  | starts {s' : HTTPRequestParsingState} (hs : s.status = .kInit) (hs' : s'.status ≠ .kInit) :
    Called s b .kParseOK s' b
  | consumes {s' : HTTPRequestParsingState} {b' : Buffer} (hs' : s'.status ≠ .kInit)
    (hb' : b'.bytesToRead < b.bytesToRead) : Called s b .kParseOK s' b'

/-- The ways a call can go that does not fail. -/
inductive Calls (boost : Boost) (s : HTTPRequestParsingState) (b : Buffer) :
    ParseResult → HTTPRequestParsingState → Buffer → Prop
  | waits : Calls boost s b .kParseNeedMore s b
  | starts (hstatus : s.status = .kInit) : Calls boost s b .kParseOK
      { s with status := .kParsingRequestLine, func := some .readRequestLine } b
  | requestLine {pos : ℕ} {b' : Buffer} (hfirst : Search.first headerSep b.readable = some pos)
      (hconsume : b.consumeBytes (pos + headerSepLen) = .ok b') :
    Calls boost s b .kParseOK { s with
      status := .kParsingRequestHeader
      func := some .readRequestHeader
      req := (requestLine boost s.req (b.readable.take pos)).1 } b'
  | badRequestLine {pos : ℕ} (hstatus : s.status = .kParsingRequestLine)
      (hfunc : s.func = some .readRequestLine)
      (hfirst : Search.first headerSep b.readable = some pos) :
    Calls boost s b .kParseError { s with
      req := (requestLine boost s.req (b.readable.take pos)).1
      res := some (.new 400) } b
  | headersEnd {s' : HTTPRequestParsingState} {b' : Buffer} (hend : headersEnd boost s = some s')
      (hconsume : b.consumeBytes headerSepLen = .ok b') : Calls boost s b .kParseOK s' b'
  | headerLine {pos : ℕ} {req : HTTPRequest} {b' : Buffer}
      (hstatus : s.status = .kParsingRequestHeader)
      (hfirst : Search.first headerSep b.readable = some pos)
      (hline : headerLine boost s.req (b.readable.take pos) = some req)
      (hconsume : b.consumeBytes (pos + headerSepLen) = .ok b') :
    Calls boost s b .kParseOK { s with req } b'
  | badHeader (hstatus : s.status = .kParsingRequestHeader)
      (hfunc : s.func = some .readRequestHeader) :
    Calls boost s b .kParseError { s with res := some (.new 400) } b
  | body {b' : Buffer} (hbody : s.req.bodyLength ≠ 0)
      (hconsume : b.consumeBytes s.req.bodyLength = .ok b') :
    Calls boost s b .kParseOK { s with
      status := .kParsingDone
      func := none
      req := { s.req with body := b.readable.take s.req.bodyLength } } b'

/-- What one call of the current parsing function can return, function by function. -/
theorem call_calls (h : call boost s b = .ok (r, s', b')) : Calls boost s b r s' b' := by
  unfold call at h
  split at h
  · cases h
  · rcases bind_ok.1 h with ⟨_, hstatus, h⟩
    rw [check_ok] at hstatus
    split at h <;> cases h
    · exact .starts hstatus
    · exact .waits
  · -- the request line
    rename_i hfunc
    rcases bind_ok.1 h with ⟨_, hstatus, h⟩
    rw [check_ok] at hstatus
    unfold withLine at h
    simp only [find_headerSep, ok_bind] at h
    split at h
    · cases h
      exact .waits
    · rename_i pos hfirst
      split at h
      · rcases bind_ok.1 h with ⟨b₁, hconsume, h⟩
        cases h
        exact .requestLine hfirst hconsume
      · cases h
        exact .badRequestLine hstatus hfunc hfirst
  · -- a header line, or the blank line
    rename_i hfunc
    rcases bind_ok.1 h with ⟨_, hstatus, h⟩
    rw [check_ok] at hstatus
    unfold withLine at h
    simp only [find_headerSep, ok_bind] at h
    split at h
    · cases h
      exact .waits
    · rename_i pos hfirst
      split at h
      · cases h
        exact .badHeader hstatus hfunc
      · rename_i s₁ hnext
        rcases bind_ok.1 h with ⟨b₁, hconsume, h⟩
        cases h
        split at hnext
        · rename_i hpos
          rw [hpos, Nat.zero_add] at hconsume
          exact .headersEnd hnext hconsume
        · rcases Option.map_eq_some_iff.1 hnext with ⟨req, hline, rfl⟩
          exact .headerLine hstatus hfirst hline hconsume
  · -- the body
    rcases bind_ok.1 h with ⟨_, -, h⟩
    rcases bind_ok.1 h with ⟨_, hbody, h⟩
    rw [check_ok] at hbody
    split at h
    · cases h
      exact .waits
    · rcases bind_ok.1 h with ⟨b₁, hconsume, h⟩
      cases h
      exact .body hbody hconsume

/-- Behind the blank line comes the body, or nothing. -/
theorem headersEnd_frame (h : headersEnd boost s = some s') :
    ∃ status func bodyLength, status ≠ .kInit ∧
      s' = { s with status, func, req := { s.req with bodyLength } } := by
  unfold headersEnd at h
  split at h
  · cases h
    exact ⟨.kParsingDone, none, s.req.bodyLength, by simp, rfl⟩
  · rcases Option.map_eq_some_iff.1 h with ⟨bodyLength, -, rfl⟩
    exact ⟨.kParsingRequestBody, some .readRequestBody, bodyLength, by simp, rfl⟩

/-- A call that returns `kParseOK` moved the parsing on; one that does not left the bytes
alone. -/
theorem call_called (h : call boost s b = .ok (r, s', b')) : Called s b r s' b' := by
  cases call_calls h with
  | waits => exact .waits
  | starts hstatus => exact .starts hstatus (by simp)
  | requestLine _ hconsume => exact .consumes (by simp) (consumed_lt (Nat.succ_pos _) hconsume)
  | badRequestLine | badHeader => exact .fails _
  | headersEnd hend hconsume =>
    rcases headersEnd_frame hend with ⟨status, func, bodyLength, hstatus, rfl⟩
    exact .consumes hstatus (consumed_lt Nat.two_pos hconsume)
  | headerLine hstatus _ _ hconsume =>
    exact .consumes (by simp [hstatus]) (consumed_lt (Nat.succ_pos _) hconsume)
  | body hbody hconsume =>
    exact .consumes (by simp) (consumed_lt (Nat.pos_of_ne_zero hbody) hconsume)

/-- The functions can be called again when more bytes have come. -/
theorem call_stable (boost : Boost) :
    Stable (call boost) Buffer.readable .kParseOK .kParseNeedMore where
  go_ne := by decide
  waits s b s' b' h := by
    cases call_called h
    exact ⟨rfl, rfl⟩
  sees s b b₂ e hview he := by
    unfold call at he ⊢
    split
    · exact rfl
    · rename_i hfunc
      rw [hfunc] at he
      exact startParsing_sees hview he
    · rename_i hfunc
      rw [hfunc] at he
      exact readRequestLine_sees hview he
    · rename_i hfunc
      rw [hfunc] at he
      exact readRequestHeader_sees hview he
    · rename_i hfunc
      rw [hfunc] at he
      exact readRequestBody_sees hview he

end Calls

/-! ## OnMessage -/

/-- How much there is to do: every call that goes on consumes something, or is the first. -/
def work (state : HTTPRequestParsingState) (buf : Buffer) : ℕ :=
  buf.bytesToRead + if state.status = .kInit then 1 else 0

/-- Every call that returns `kParseOK` leaves less to do, so `Parsing` ends. -/
theorem work_lt {boost : Boost} {s s' : HTTPRequestParsingState} {b b' : Buffer}
    (h : call boost s b = .ok (.kParseOK, s', b')) : work s' b' < work s b := by
  cases call_called h with
  | starts hs hs' =>
    rw [work, work, if_pos hs, if_neg hs']
    exact Nat.lt_succ_self _
  | consumes hs' hb' =>
    rw [work, work, if_neg hs', Nat.add_zero]
    exact hb'.trans_le (Nat.le_add_right _ _)

/-- The loop of `OnMessage`; `res` is the last result. -/
def parsing (res : ParseResult) (state : HTTPRequestParsingState) (buf : Buffer) :
    Except Fault (ParseResult × HTTPRequestParsingState × Buffer) :=
  if state.status = .kParsingDone then .ok (res, state, buf)
  else
    match _h : call boost state buf with
    | .error fault => .error fault
    | .ok (.kParseOK, state', buf') => parsing .kParseOK state' buf'
    | .ok (res', state', buf') => .ok (res', state', buf')
termination_by work state buf
decreasing_by exact work_lt _h

/-- The callback that `OnMessage` makes. -/
inductive Callback where
  /-- `rcb_` -/
  | request (req : HTTPRequest)
  /-- `ecb_` -/
  | error (res : HTTPResponse)
deriving DecidableEq

end HTTPCodec

/-- Which callbacks have been set. -/
structure HTTPCodec where
  rcb : Bool
  ecb : Bool
deriving DecidableEq

/-- What the codec knows of a connection: its context, and the bytes that have not been
consumed. -/
structure HTTPConnection where
  context : Option HTTPRequestParsingState
  readBuf : Buffer

/-- What comes of a call of `OnMessage`: the state of parsing at its end, and the callback. -/
structure Message where
  state : HTTPRequestParsingState
  callback : Option HTTPCodec.Callback
deriving DecidableEq

namespace HTTPCodec

/-- `OnNewConnection`: the context of a new connection. -/
def onNewConnection : HTTPRequestParsingState where
  status := .kInit
  func := some .startParsing
  req := .new
  res := none

/-- `OnMessage` behind its loop. -/
def conclude (codec : HTTPCodec) (res : ParseResult) (state : HTTPRequestParsingState)
    (buf : Buffer) : Except Fault (HTTPConnection × Message) :=
  if res = .kParseError ∧ codec.ecb = true then
    match state.res with
    | none => .error .assertion
    | some response => .ok (⟨some state, buf⟩, ⟨state, some (.error response)⟩)
  else if res = .kParseNeedMore then .ok (⟨some state, buf⟩, ⟨state, none⟩)
  else .ok (⟨none, buf⟩, ⟨state, if codec.rcb then some (.request state.req) else none⟩)

/-- `OnMessage`; `any_cast` throws when there is no context. -/
def onMessage (boost : Boost) (codec : HTTPCodec) (context : Option HTTPRequestParsingState)
    (buf : Buffer) : Except Fault (HTTPConnection × Message) :=
  match context with
  | none => .error .exception
  | some state => do
    let (res, state, buf) ← parsing boost .kParseError state buf
    conclude codec res state buf

/-- The loop drives the functions of the states. -/
theorem parsing_drives (boost : Boost) (res : ParseResult) (state : HTTPRequestParsingState)
    (buf : Buffer) : Drives (call boost) (fun s => s.status = .kParsingDone) .kParseOK res state buf
      (parsing boost res state buf) := by
  fun_induction parsing boost res state buf with
  | case1 res state buf hdone => exact .done hdone
  | case2 res state buf hdone fault h => exact .fault hdone h
  | case3 res state buf hdone state' buf' h ih => exact .go hdone h ih
  | case4 res state buf hdone res' state' buf' hok h => exact .halt hdone h (by simpa using hok)

end HTTPCodec

end FxServer
