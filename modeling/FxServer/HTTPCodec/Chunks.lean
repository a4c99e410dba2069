import FxServer.HTTPCodec.Parsing
import FxServer.Machine
import FxServer.TcpConnection.Input

/-!
# FxServer.HTTPCodec.Chunks — it does not matter how a request is cut

The bytes of a connection come in chunks, and `OnMessage` is called behind each. A chunk is an
`Arrival`: the bytes, and the buffer as it is when they have been put behind those that were
left. Between the calls the codec keeps only the context and the bytes that it has not consumed.

The proof of the last two does not look at what is parsed. It uses that the handler is resumable:
a call that waits leaves its bytes, so the next call sees them together with the new ones, and
goes on as it would have from the start.

* `arrives_append`, `arrives_readFromPeer` — how bytes arrive.
* `Resumes` — from here on everything is as if the codec started with all the bytes.
* `chunks_independent` — when no callback is made before the last chunk, what comes of it is
  what comes of the whole stream at once.
* `firstCallback_whole` — the first callback, or the fault before it, is that of the whole stream.
-/

namespace FxServer.HTTPCodec

open Machine Resumable

/-- Bytes that have come, and the buffer that is handed to `OnMessage`. -/
structure Arrival where
  chunk : List UInt8
  buf : Buffer

/-- The bytes are behind those that were left. -/
def Arrives (k : HTTPConnection) (a : Arrival) : Prop :=
  a.buf.readable = k.readBuf.readable ++ a.chunk

instance (k : HTTPConnection) (a : Arrival) : Decidable (Arrives k a) :=
  inferInstanceAs (Decidable (_ = _))

/-- The connection calls `OnMessage`. -/
def receive (boost : Boost) (codec : HTTPCodec) (k : HTTPConnection) (a : Arrival) :
    Except Fault (HTTPConnection × Message) :=
  onMessage boost codec k.context a.buf

/-- A new connection, to which nothing has come. -/
def start : HTTPConnection := ⟨some onNewConnection, .new Buffer.kDefaultReservedSize⟩

/-- What can be seen behind a call: the context, the unread bytes, the state of parsing and the
callback. -/
def view (x : HTTPConnection × Message) :
    Option HTTPRequestParsingState × List UInt8 × Message :=
  (x.1.context, x.1.readBuf.readable, x.2)

/-- What `Append` stores arrives behind the unread bytes. -/
theorem arrives_append {k : HTTPConnection} {chunk : List UInt8} {buf : Buffer}
    (h : k.readBuf.append chunk chunk.length = .ok buf) : Arrives k ⟨chunk, buf⟩ := by
  have hread := (Buffer.append_ok h).2
  rwa [List.take_length] at hread

/-- What a connection reads from its peer arrives behind the unread bytes. -/
theorem arrives_readFromPeer {t t' : TcpConnection} {bytes : List UInt8}
    (h : t.readFromPeer (.data bytes) = .ok t') (context : Option HTTPRequestParsingState) :
    Arrives ⟨context, t.readBuf⟩ ⟨bytes, t'.readBuf⟩ :=
  TcpConnection.readFromPeer_data h

section Resume

variable {boost : Boost} {codec : HTTPCodec} {s s' : HTTPRequestParsingState}
  {b b' b₂ : Buffer} {k : HTTPConnection} {msg : Message} {bytes e : List UInt8}

/-- `OnMessage` on a stored context is `Parsing` and then the conclusion. -/
theorem onMessage_some (s : HTTPRequestParsingState) (b : Buffer) :
    onMessage boost codec (some s) b = (do
      let (res, state, buf) ← parsing boost .kParseError s b
      conclude codec res state buf) := rfl

/-- The conclusion reads of the buffer its unread bytes only. -/
theorem view_conclude {res : ParseResult} (hview : b₂.readable = b.readable) :
    (conclude codec res s b₂).map view = (conclude codec res s b).map view := by
  unfold conclude
  split
  · split
    · rfl
    · simp [Except.map, view, hview]
  · split <;> simp [Except.map, view, hview]

/-- What `OnMessage` makes of the loop shows only in the bytes of the buffer. -/
theorem view_onMessage
    (h : Extends Buffer.readable [] (parsing boost .kParseError s b)
      (parsing boost .kParseError s' b₂)) :
    (onMessage boost codec (some s') b₂).map view =
      (onMessage boost codec (some s) b).map view := by
  rw [onMessage_some, onMessage_some]
  cases hparse : parsing boost .kParseError s b with
  | error fault =>
    rw [hparse] at h
    rw [h.of_error]
  | ok x =>
    rw [hparse] at h
    rcases h.of_ok with ⟨buf', hparse', hview⟩
    rw [hparse']
    exact view_conclude (hview.trans (List.append_nil _))

/-- A call without a callback has waited for more. -/
theorem onMessage_waits (hrcb : codec.rcb = true)
    (h : onMessage boost codec (some s) b = .ok (k, msg)) (hquiet : msg.callback = none) :
    ∃ s', k.context = some s' ∧
      parsing boost .kParseError s b = .ok (.kParseNeedMore, s', k.readBuf) := by
  rw [onMessage_some] at h
  rcases bind_ok.1 h with ⟨⟨res, state, buf⟩, hparse, h⟩
  simp only [conclude, hrcb, if_true] at h
  split at h
  · split at h
    · cases h
    · cases h
      -- an error calls the error callback
      cases hquiet
  · split at h
    · rename_i hmore
      cases h
      exact ⟨state, rfl, hmore ▸ hparse⟩
    · cases h
      -- and a finished request the request callback, which is set
      cases hquiet

/-- From the state `s` with the bytes of `b` left it goes on as from the start with `bytes`. -/
def Resumes (boost : Boost) (codec : HTTPCodec) (bytes : List UInt8)
    (s : HTTPRequestParsingState) (b : Buffer) : Prop :=
  ∀ e b₁ b₂, b₁.readable = bytes ++ e → b₂.readable = b.readable ++ e →
    (onMessage boost codec (some s) b₂).map view =
      (onMessage boost codec (some onNewConnection) b₁).map view

theorem resumes_start (boost : Boost) (codec : HTTPCodec) :
    Resumes boost codec [] onNewConnection start.readBuf := by
  intro e b₁ b₂ h₁ h₂
  obtain ⟨out, hdrives, hout⟩ := (parsing_drives boost .kParseError onNewConnection b₁).same
    (call_stable boost) (h₂.trans h₁.symm)
  rw [hdrives.unique (parsing_drives ..)] at hout
  exact view_onMessage hout

/-- A call that waits for more. -/
theorem Resumes.step (h : Resumes boost codec bytes s b) (hview : b'.readable = b.readable ++ e)
    (hwaits : parsing boost .kParseError s b' = .ok (.kParseNeedMore, s', b₂)) :
    Resumes boost codec (bytes ++ e) s' b₂ := by
  intro e' b₁ b₃ h₁ h₃
  rw [List.append_assoc] at h₁
  -- the same state, called once with the chunk and with what follows
  have hall : (Buffer.ofList (b.readable ++ (e ++ e'))).readable = b'.readable ++ e' := by
    rw [Buffer.readable_ofList, hview, List.append_assoc]
  rw [← h (e ++ e') b₁ (.ofList (b.readable ++ (e ++ e'))) h₁ (Buffer.readable_ofList _)]
  have hdrives := parsing_drives boost .kParseError s b'
  rw [hwaits] at hdrives
  obtain ⟨out, hout, hextends⟩ := hdrives.resume (call_stable boost) (by decide) hall h₃
    (parsing_drives boost .kParseError s' b₃)
  rw [hout.unique (parsing_drives ..)] at hextends
  exact (view_onMessage hextends).symm

/-- Calls without a callback. -/
theorem Resumes.run (hrcb : codec.rcb = true) {as : List Arrival} {msgs : List Message}
    (h : Resumes boost codec bytes s b)
    (harrives : Guarded (receive boost codec) Arrives ⟨some s, b⟩ as)
    (hrun : run (receive boost codec) ⟨some s, b⟩ as = .ok (k, msgs))
    (hquiet : ∀ msg ∈ msgs, msg.callback = none) :
    ∃ s', k.context = some s' ∧
      Resumes boost codec (bytes ++ (as.map Arrival.chunk).flatten) s' k.readBuf := by
  induction as generalizing bytes s b msgs with
  | nil =>
    cases hrun
    exact ⟨s, rfl, by simpa using h⟩
  | cons a as ih =>
    rcases run_cons_inv hrun with ⟨k₁, msg, msgs', hmsg, hrest, rfl⟩
    rw [List.forall_mem_cons] at hquiet
    rcases onMessage_waits hrcb hmsg hquiet.1 with ⟨s₁, hcontext, hwaits⟩
    rcases k₁ with ⟨context, readBuf⟩
    obtain rfl : context = some s₁ := hcontext
    have hnext := ih (h.step harrives.1 hwaits) (harrives.2 _ _ hmsg) hrest hquiet.2
    simpa [List.append_assoc] using hnext

end Resume

/-- The codec has a request callback, as `HTTPServer` gives it one (`hrcb`). Bytes come in chunks
to a new connection, and no callback is made before the last. Then the context, the unread bytes,
the state of parsing with the request in it, and the callback are the same as when all the bytes
come at once. -/
theorem chunks_independent (boost : Boost) (codec : HTTPCodec) (hrcb : codec.rcb = true)
    (as : List Arrival) (last whole : Arrival) (k : HTTPConnection) (msgs : List Message)
    (harrives : Guarded (receive boost codec) Arrives start (as ++ [last]))
    (hrun : run (receive boost codec) start as = .ok (k, msgs))
    (hquiet : ∀ msg ∈ msgs, msg.callback = none) (hwhole : Arrives start whole)
    (hstream : whole.chunk = ((as ++ [last]).map Arrival.chunk).flatten) :
    (receive boost codec k last).map view = (receive boost codec start whole).map view := by
  rcases (resumes_start boost codec).run hrcb harrives.take hrun hquiet with ⟨s, hcontext, hresumes⟩
  have hlast : Arrives k last := (harrives.drop hrun).1
  have hbytes : whole.buf.readable = whole.chunk := hwhole
  unfold receive
  rw [hcontext]
  refine hresumes last.chunk whole.buf last.buf ?_ hlast
  rw [hbytes, hstream]
  simp

/-- A request is cut within a separator, and followed by another byte. -/
theorem chunks_independent_run :
    let whole : Arrival := ⟨ascii "GET / HTTP/1.0\r\nHost: a\r\n\r\nx",
      .ofList (ascii "GET / HTTP/1.0\r\nHost: a\r\n\r\nx")⟩
    ∃ k last, (receive .std ⟨true, true⟩ k last).map view =
        (receive .std ⟨true, true⟩ start whole).map view ∧
      (receive .std ⟨true, true⟩ start whole).map (fun x => (x.1.readBuf.readable,
        x.2.state.status, x.2.callback.isSome)) = .ok (ascii "x", .kParsingDone, true) := by
  -- cut within separators, twice
  let first : Arrival := ⟨ascii "GET / HTTP/1.0\r", .ofList (ascii "GET / HTTP/1.0\r")⟩
  let second : Arrival := ⟨ascii "\nHost: a\r\n", .ofList (ascii "GET / HTTP/1.0\r\nHost: a\r\n")⟩
  let last : Arrival := ⟨ascii "\r\nx", .ofList (ascii "\r\nx")⟩
  have harrives :
      Guarded (receive .std ⟨true, true⟩) Arrives start ([first, second] ++ [last]) := by
    decide +kernel
  have hresult : (run (receive .std ⟨true, true⟩) start [first, second]).map (fun r =>
      decide (∀ msg ∈ r.2, msg.callback = none)) = .ok true := by
    decide +kernel
  rcases map_ok.1 hresult with ⟨⟨k, msgs⟩, hrun, hquiet⟩
  refine ⟨k, last, chunks_independent .std ⟨true, true⟩ rfl [first, second] last _ k msgs harrives
    hrun (of_decide_eq_true hquiet) ?_ ?_, ?_⟩
  · decide +kernel
  · decide +kernel
  · decide +kernel

/-! ## The first callback -/

/-- What comes of the calls of `OnMessage` up to the first that makes a callback: what that one
leaves, or the fault of one before it; `none` while there has been neither. -/
def firstCallback (boost : Boost) (codec : HTTPCodec) :
    HTTPConnection → List Arrival → Option (Except Fault Message)
  | _, [] => none
  | k, a :: as =>
    match receive boost codec k a with
    | .error fault => some (.error fault)
    | .ok (k', msg) =>
      if msg.callback = none then firstCallback boost codec k' as else some (.ok msg)

section First

variable {boost : Boost} {codec : HTTPCodec} {s : HTTPRequestParsingState} {b b₂ : Buffer}
  {k k' : HTTPConnection} {a : Arrival} {as : List Arrival} {msg : Message} {bytes e : List UInt8}

/-- All bytes at once. -/
def whole (bytes : List UInt8) : Arrival := ⟨bytes, .ofList bytes⟩

theorem receive_whole (bytes : List UInt8) :
    receive boost codec start (whole bytes) =
      onMessage boost codec (some onNewConnection) (.ofList bytes) := rfl

/-- The first callback is that of the first chunk, or else that of the rest. -/
theorem firstCallback_cons (boost : Boost) (codec : HTTPCodec) (k : HTTPConnection) (a : Arrival)
    (as : List Arrival) :
    firstCallback boost codec k (a :: as) =
      match receive boost codec k a with
      | .error fault => some (.error fault)
      | .ok (k', msg) =>
        if msg.callback = none then firstCallback boost codec k' as else some (.ok msg) := rfl

theorem firstCallback_error {fault : Fault} (h : receive boost codec k a = .error fault) :
    firstCallback boost codec k (a :: as) = some (.error fault) := by
  rw [firstCallback_cons, h]

/-- A chunk that calls back decides. -/
theorem firstCallback_callback (h : receive boost codec k a = .ok (k', msg))
    (hcallback : msg.callback ≠ none) :
    firstCallback boost codec k (a :: as) = some (.ok msg) := by
  rw [firstCallback_cons, h]
  exact if_neg hcallback

/-- A chunk that calls nothing back hands on to the next ones. -/
theorem firstCallback_quiet (h : receive boost codec k a = .ok (k', msg))
    (hquiet : msg.callback = none) :
    firstCallback boost codec k (a :: as) = firstCallback boost codec k' as := by
  rw [firstCallback_cons, h]
  exact if_pos hquiet

/-- Of a single call only the message matters. -/
theorem firstCallback_single (k : HTTPConnection) (a : Arrival) :
    firstCallback boost codec k [a] = match (receive boost codec k a).map Prod.snd with
      | .error fault => some (.error fault)
      | .ok msg => if msg.callback = none then none else some (.ok msg) := by
  rw [firstCallback_cons]
  cases receive boost codec k a <;> rfl

theorem message_view (out : Except Fault (HTTPConnection × Message)) :
    (out.map view).map (fun v => v.2.2) = out.map Prod.snd := by
  cases out <;> rfl

/-- Behind its loop `OnMessage` only passes the buffer on. -/
theorem message_conclude (res : ParseResult) (s : HTTPRequestParsingState) (b b₂ : Buffer) :
    (conclude codec res s b₂).map Prod.snd = (conclude codec res s b).map Prod.snd := by
  unfold conclude
  split
  · split <;> rfl
  · split <;> rfl

/-- A call that has not waited for more comes to the same when more has come. -/
theorem message_append (hview : b₂.readable = b.readable ++ e)
    (hcallback : ∀ k msg, onMessage boost codec (some s) b = .ok (k, msg) → msg.callback ≠ none) :
    (onMessage boost codec (some s) b₂).map Prod.snd =
      (onMessage boost codec (some s) b).map Prod.snd := by
  have hsettles : Settles .kParseNeedMore (parsing boost .kParseError s b) := by
    cases hparse : parsing boost .kParseError s b with
    | error fault => trivial
    | ok x =>
      -- if it waited, `OnMessage` would call nothing back
      rintro hmore
      refine hcallback ⟨some x.2.1, x.2.2⟩ ⟨x.2.1, none⟩ ?_ rfl
      rw [onMessage_some, hparse, ok_bind]
      rcases x with ⟨r, s', b'⟩
      obtain rfl : r = .kParseNeedMore := hmore
      rfl
  rcases (parsing_drives boost .kParseError s b).append (call_stable boost) hsettles hview with
    ⟨out, hdrives, hextends⟩
  -- the loop with more bytes behind is driven to the same result
  rw [hdrives.unique (parsing_drives ..)] at hextends
  rw [onMessage_some, onMessage_some]
  cases hparse : parsing boost .kParseError s b with
  | error fault =>
    rw [hparse] at hextends
    rw [hextends.of_error]
  | ok x =>
    rw [hparse] at hextends
    rcases hextends.of_ok with ⟨b', hparse', -⟩
    rw [hparse']
    exact message_conclude ..

/-- What the calls have come to so far shows only in what comes of the next. -/
theorem firstCallback_from (hrcb : codec.rcb = true) (h : Resumes boost codec bytes s b)
    (hbytes : firstCallback boost codec start [whole bytes] = none)
    (harrives : Guarded (receive boost codec) Arrives ⟨some s, b⟩ as) :
    firstCallback boost codec ⟨some s, b⟩ as =
      firstCallback boost codec start [whole (bytes ++ (as.map Arrival.chunk).flatten)] := by
  induction as generalizing s b bytes with
  | nil =>
    rw [List.map_nil, List.flatten_nil, List.append_nil, hbytes]
    rfl
  | cons a as ih =>
    have hview := h a.chunk (.ofList (bytes ++ a.chunk)) a.buf (Buffer.readable_ofList _)
      harrives.1
    have hmessage : (receive boost codec start (whole (bytes ++ a.chunk))).map Prod.snd =
        (receive boost codec ⟨some s, b⟩ a).map Prod.snd := by
      rw [← message_view, ← message_view]
      exact congrArg (Except.map fun v => v.2.2) hview.symm
    rw [List.map_cons, List.flatten_cons, ← List.append_assoc]
    -- a call that has not waited comes to the same with the rest of the stream
    have hrest : (∀ k' msg, receive boost codec ⟨some s, b⟩ a = .ok (k', msg) →
          msg.callback ≠ none) →
        (receive boost codec start
          (whole (bytes ++ a.chunk ++ (as.map Arrival.chunk).flatten))).map Prod.snd =
          (receive boost codec ⟨some s, b⟩ a).map Prod.snd := by
      intro hcallback
      rw [← hmessage]
      have hmore : (whole (bytes ++ a.chunk ++ (as.map Arrival.chunk).flatten)).buf.readable =
          (whole (bytes ++ a.chunk)).buf.readable ++ (as.map Arrival.chunk).flatten := by
        rw [whole, whole, Buffer.readable_ofList, Buffer.readable_ofList]
      refine message_append hmore fun k' msg hmsg => ?_
      have hwhole : receive boost codec start (whole (bytes ++ a.chunk)) = .ok (k', msg) := hmsg
      rw [hwhole] at hmessage
      rcases map_ok.1 hmessage.symm with ⟨⟨k₁, _⟩, hmsg', rfl⟩
      exact hcallback k₁ _ hmsg'
    rw [firstCallback_single]
    cases hmsg : receive boost codec ⟨some s, b⟩ a with
    | error fault =>
      rw [hmsg] at hrest
      rw [firstCallback_error hmsg, hrest fun _ _ hok => by cases hok]
      rfl
    | ok x =>
      rcases x with ⟨k', msg⟩
      by_cases hquiet : msg.callback = none
      · rcases onMessage_waits hrcb hmsg hquiet with ⟨s', hcontext, hwaits⟩
        rcases k' with ⟨context, readBuf⟩
        obtain rfl : context = some s' := hcontext
        rw [firstCallback_quiet hmsg hquiet, ← firstCallback_single]
        refine ih (h.step harrives.1 hwaits) ?_ (harrives.2 _ _ hmsg)
        rw [firstCallback_single, hmessage, hmsg]
        exact if_pos hquiet
      · rw [hmsg] at hrest
        rw [firstCallback_callback hmsg hquiet, hrest fun k₁ msg₁ hok => by cases hok; exact hquiet]
        exact (if_neg hquiet).symm

/-- Bytes come in chunks to a new connection. The first callback, or the fault before it, is the
one that there is when all the bytes come at once. -/
theorem firstCallback_whole (hrcb : codec.rcb = true)
    (harrives : Guarded (receive boost codec) Arrives start as) :
    firstCallback boost codec start as =
      firstCallback boost codec start [whole (as.map Arrival.chunk).flatten] := by
  have hbytes : firstCallback boost codec start [whole []] = none := by
    have hmsg : receive boost codec start (whole []) =
        .ok (⟨some onNewConnection, .ofList []⟩, ⟨onNewConnection, none⟩) := by
      rw [receive_whole, onMessage_some, parsing_start_waits (Buffer.readable_ofList [])]
      rfl
    exact firstCallback_quiet hmsg rfl
  exact firstCallback_from hrcb (resumes_start boost codec) hbytes harrives

end First

end FxServer.HTTPCodec
