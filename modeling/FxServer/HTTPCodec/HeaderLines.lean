import FxServer.HTTPCodec.Chunks

/-!
# FxServer.HTTPCodec.HeaderLines — header lines read back as they were sent

`ReadRequestHeader` splits a line at every `": "` and accepts it when there are two parts. So a
value must not have the separator in it, though nothing else about it matters.

The induction is over the lines, with any request before them: a line that is accepted adds its
header and leaves the others, and a line that is refused stops everything. The blank line at the
end makes the callback.

* `headerLine_line` — what becomes of one line.
* `parsing_lines`, `parsing_lines_fails` — what becomes of all of them, by induction.
* `headers_read_back_iff` — the lines are read back if and only if no value has a `": "`.
* `separator_in_value_refused` — a value that has one.
-/

namespace FxServer.HTTPCodec

open Machine Resumable

/-- The name of a header and its value. -/
structure Header where
  name : List UInt8
  val : List UInt8
deriving DecidableEq

/-- `": "` -/
def nameSep : List UInt8 := [58, 32]

/-- The line without its end. -/
def Header.line (h : Header) : List UInt8 := h.name ++ (nameSep ++ h.val)

/-- The lines, each with its end. -/
def headerLines : List Header → List UInt8
  | [] => []
  | h :: headers => h.line ++ (headerSep ++ headerLines headers)

/-- A request without a body. -/
def encodeRequest (line : List UInt8) (headers : List Header) : List UInt8 :=
  line ++ (headerSep ++ (headerLines headers ++ headerSep))

/-- The request behind an accepted line. -/
def withHeader (boost : Boost) (req : HTTPRequest) (h : Header) : HTTPRequest :=
  { req with headerLength := (req.headerLength + h.line.length + headerSepLen) % 2 ^ 32 }.addHeader
    (boost.toLower h.name) h.val

/-- Header lines that can be sent: the ends of the lines and of the names can be seen, every name
is there once, and there is no content length. -/
structure Sendable (boost : Boost) (headers : List Header) : Prop where
  name_ne : ∀ h ∈ headers, h.name ≠ []
  /-- the name ends where its separator is -/
  name_sep : ∀ h ∈ headers, ¬ nameSep <:+: h.name
  /-- and neither it nor the value ends the line -/
  name_end : ∀ h ∈ headers, ¬ headerSep <:+: h.name
  val_end : ∀ h ∈ headers, ¬ headerSep <:+: h.val
  /-- no two names are the same to the server -/
  distinct : (headers.map fun h => boost.toLower h.name).Nodup
  /-- the request has no body -/
  no_length : ascii "content-length" ∉ headers.map fun h => boost.toLower h.name

/-- The first callback is made for a whole request, in which every header has its value. -/
def ReadBack (boost : Boost) (headers : List Header) (first : Option (Except Fault Message)) :
    Prop :=
  ∃ msg, first = some (.ok msg) ∧ msg.state.status = .kParsingDone ∧
    ∀ h ∈ headers, msg.state.req.getHeader (boost.toLower h.name) = some h.val

/-! ## One line -/

section Line

variable {boost : Boost} {req req' : HTTPRequest} {h : Header} {line d : List UInt8}

/-- A line ends where its separator is. -/
theorem first_line (hline : ¬ headerSep <:+: line) (d : List UInt8) :
    Search.first headerSep (line ++ (headerSep ++ d)) = some line.length :=
  Search.first_pair (by decide) hline d

theorem line_end (hname : ¬ headerSep <:+: h.name) (hval : ¬ headerSep <:+: h.val) :
    ¬ headerSep <:+: h.line := by
  have hrest : ¬ headerSep <:+: nameSep ++ h.val := by
    simpa [headerSep, nameSep, List.infix_cons_iff, List.cons_prefix_cons] using hval
  exact Search.pair_append hname hrest (by simp [nameSep])

/-- A line is split at the end of its name, and its value is split further. -/
theorem headerLine_line (hsplit : ∀ src sep, boost.splitString src sep = Search.split sep src)
    (req : HTTPRequest) (hname : ¬ nameSep <:+: h.name) :
    headerLine boost req h.line =
      if nameSep <:+: h.val then none else some (withHeader boost req h) := by
  have hfirst : Search.first nameSep h.line = some h.name.length :=
    Search.first_pair (by decide) hname h.val
  have hparts : boost.splitString h.line (ascii ": ") = h.name :: Search.split nameSep h.val := by
    have hdrop : h.line.drop (h.name.length + nameSep.length) = h.val := by
      rw [Header.line, ← List.append_assoc, ← List.length_append, List.drop_left]
    have htake : h.line.take h.name.length = h.name := List.take_left ..
    have hone := Search.split_some hfirst (by decide)
    rw [htake, hdrop] at hone
    rw [hsplit]
    exact hone
  unfold headerLine
  rw [hparts]
  by_cases hin : nameSep <:+: h.val
  · obtain ⟨n, hn⟩ : ∃ n, Search.first nameSep h.val = some n := by
      cases hval : Search.first nameSep h.val with
      | none => exact absurd hin (Search.first_eq_none.1 hval)
      | some n => exact ⟨n, rfl⟩
    -- at least three parts
    rw [if_pos hin, Search.split_some hn (by decide)]
    split
    · rename_i heq
      rw [List.cons.injEq, List.cons.injEq] at heq
      exact absurd heq.2.2 (Search.split_ne_nil _ _)
    · rfl
  · rw [if_neg hin, Search.split_none (Search.first_eq_none.2 hin)]
    rfl

/-! ## The map of the headers -/

/-- A header whose name is new is found under its name. -/
theorem getHeader_withHeader (hnew : req.getHeader (boost.toLower h.name) = none) :
    (withHeader boost req h).getHeader (boost.toLower h.name) = some h.val := by
  unfold withHeader HTTPRequest.addHeader
  rw [if_neg (AList.lookup_eq_none.1 hnew)]
  exact AList.lookup_insert _

/-- Names other than its own are looked up as before. -/
theorem getHeader_withHeader_ne {name : List UInt8} (hne : name ≠ boost.toLower h.name) :
    (withHeader boost req h).getHeader name = req.getHeader name := by
  unfold withHeader HTTPRequest.addHeader
  split
  · rfl
  · exact AList.lookup_insert_ne hne

end Line

/-! ## All the lines -/

section Lines

variable {boost : Boost} {h : Header} {headers : List Header} {s : HTTPRequestParsingState}
  {b : Buffer} {r : ParseResult}

theorem Sendable.tail (hsend : Sendable boost (h :: headers)) : Sendable boost headers where
  name_ne h' hmem := hsend.name_ne h' (List.mem_cons_of_mem _ hmem)
  name_sep h' hmem := hsend.name_sep h' (List.mem_cons_of_mem _ hmem)
  name_end h' hmem := hsend.name_end h' (List.mem_cons_of_mem _ hmem)
  val_end h' hmem := hsend.val_end h' (List.mem_cons_of_mem _ hmem)
  distinct := (List.nodup_cons.1 hsend.distinct).2
  no_length hmem := hsend.no_length (List.mem_cons_of_mem _ hmem)

/-- What `ReadRequestHeader` does with the first line. -/
theorem headerNext_first (hsplit : ∀ src sep, boost.splitString src sep = Search.split sep src)
    (hsend : Sendable boost (h :: headers))
    (hd : b.readable = headerLines (h :: headers) ++ headerSep) :
    Search.first headerSep b.readable = some h.line.length ∧
      b.readable.drop (h.line.length + headerSepLen) = headerLines headers ++ headerSep ∧
      headerNext boost s h.line.length (b.readable.take h.line.length) =
        if nameSep <:+: h.val then none
        else some { s with req := withHeader boost s.req h } := by
  have hmem : h ∈ h :: headers := List.mem_cons_self
  have hline := line_end (hsend.name_end h hmem) (hsend.val_end h hmem)
  have hread : b.readable = h.line ++ (headerSep ++ (headerLines headers ++ headerSep)) := by
    rw [hd, headerLines, List.append_assoc, List.append_assoc]
  refine ⟨hread ▸ first_line hline _, ?_, ?_⟩
  · rw [hread, ← List.append_assoc]
    exact List.drop_left' (List.length_append ..)
  · have hpos : h.line.length ≠ 0 := by simp [Header.line, nameSep]
    rw [headerNext_line _ _ _ hpos, hread, List.take_left,
      headerLine_line hsplit _ (hsend.name_sep h hmem)]
    split <;> rfl

/-- Lines without a separator in a value: every header has its value behind them. -/
theorem parsing_lines (hsplit : ∀ src sep, boost.splitString src sep = Search.split sep src)
    (hsend : Sendable boost headers) (hvals : ∀ h ∈ headers, ¬ nameSep <:+: h.val)
    (hstatus : s.status = .kParsingRequestHeader) (hfunc : s.func = some .readRequestHeader)
    (hd : b.readable = headerLines headers ++ headerSep)
    (hlength : s.req.getHeader (ascii "content-length") = none)
    (hnew : ∀ h ∈ headers, s.req.getHeader (boost.toLower h.name) = none) :
    ∃ s' b', parsing boost r s b = .ok (.kParseOK, s', b') ∧ s'.status = .kParsingDone ∧
      (∀ name val, s.req.getHeader name = some val → s'.req.getHeader name = some val) ∧
      ∀ h ∈ headers, s'.req.getHeader (boost.toLower h.name) = some h.val := by
  induction headers generalizing s b r with
  | nil =>
    have hfirst : Search.first headerSep b.readable = some 0 := by
      rw [hd]
      rfl
    rcases parsing_header_goes (r := r) hstatus hfunc hfirst (headerNext_done boost _ hlength) with
      ⟨b', -, hparse⟩
    refine ⟨_, b', hparse.trans (parsing_done rfl), rfl, fun _ _ hval => hval, ?_⟩
    simp
  | cons h headers ih =>
    rw [List.forall_mem_cons] at hvals hnew
    rcases headerNext_first (s := s) hsplit hsend hd with ⟨hfirst, hrest, hnext⟩
    rw [if_neg hvals.1] at hnext
    rcases parsing_header_goes (r := r) hstatus hfunc hfirst hnext with ⟨b', hread, hparse⟩
    rcases List.nodup_cons.1 hsend.distinct with ⟨hfresh, -⟩
    have hno := hsend.no_length
    rw [List.map_cons, List.mem_cons, not_or] at hno
    have hlength' : (withHeader boost s.req h).getHeader (ascii "content-length") = none :=
      (getHeader_withHeader_ne hno.1).trans hlength
    have hnew' : ∀ h' ∈ headers,
        (withHeader boost s.req h).getHeader (boost.toLower h'.name) = none := by
      intro h' hmem
      refine (getHeader_withHeader_ne fun heq => hfresh ?_).trans (hnew.2 h' hmem)
      exact List.mem_map.2 ⟨h', hmem, heq⟩
    obtain ⟨s', b'', hparse', hdone, hkept, hheaders⟩ :=
      ih (s := { s with req := withHeader boost s.req h }) (r := .kParseOK) hsend.tail hvals.2
        hstatus hfunc (hread.trans hrest) hlength' hnew'
    refine ⟨s', b'', hparse.trans hparse', hdone, fun name val hval => hkept name val ?_, ?_⟩
    · -- no value is replaced
      rw [← hval]
      refine getHeader_withHeader_ne ?_
      rintro rfl
      cases hnew.1.symm.trans hval
    · rw [List.forall_mem_cons]
      exact ⟨hkept _ _ (getHeader_withHeader hnew.1), hheaders⟩

/-- A value with a separator: the line is refused, with the lines before it accepted. -/
theorem parsing_lines_fails
    (hsplit : ∀ src sep, boost.splitString src sep = Search.split sep src)
    (hsend : Sendable boost headers) (hval : ∃ h ∈ headers, nameSep <:+: h.val)
    (hstatus : s.status = .kParsingRequestHeader) (hfunc : s.func = some .readRequestHeader)
    (hd : b.readable = headerLines headers ++ headerSep) :
    ∃ s' b', parsing boost r s b = .ok (.kParseError, s', b') ∧
      s'.status = .kParsingRequestHeader := by
  induction headers generalizing s b r with
  | nil =>
    rcases hval with ⟨h, hmem, -⟩
    cases hmem
  | cons h headers ih =>
    rcases headerNext_first (s := s) hsplit hsend hd with ⟨hfirst, hrest, hnext⟩
    -- the first value with the separator in it is refused
    by_cases hin : nameSep <:+: h.val
    · rw [if_pos hin] at hnext
      exact ⟨_, b, parsing_header_fails hstatus hfunc hfirst hnext, hstatus⟩
    · rw [if_neg hin] at hnext
      rcases parsing_header_goes (r := r) hstatus hfunc hfirst hnext with ⟨b', hread, hparse⟩
      have hlater : ∃ h ∈ headers, nameSep <:+: h.val := by
        rcases hval with ⟨h', hmem, hin'⟩
        rcases List.mem_cons.1 hmem with rfl | hmem
        · exact absurd hin' hin
        · exact ⟨h', hmem, hin'⟩
      obtain ⟨s', b'', hparse', hheader⟩ :=
        ih (s := { s with req := withHeader boost s.req h }) (r := .kParseOK) hsend.tail hlater
          hstatus hfunc (hread.trans hrest)
      exact ⟨s', b'', hparse.trans hparse', hheader⟩

end Lines

/-! ## Requests -/

section Request

variable {boost : Boost} {headers : List Header} {line : List UInt8} {s : HTTPRequestParsingState}
  {b b' : Buffer} {r : ParseResult}

/-- The request line sets no header. -/
theorem requestLine_getHeader (boost : Boost) (line name : List UInt8) :
    (requestLine boost .new line).1.getHeader name = none := by
  rcases requestLine_frame boost .new line with ⟨requestType, path, major, minor, hreq⟩
  rw [hreq]
  rfl

/-- The request line. -/
theorem parsing_encodeRequest (hline : ¬ headerSep <:+: line)
    (hvalid : (requestLine boost .new line).2 = true)
    (hd : b.readable = encodeRequest line headers) :
    ∃ s b', s.status = .kParsingRequestHeader ∧ s.func = some .readRequestHeader ∧
      (∀ name, s.req.getHeader name = none) ∧
      b'.readable = headerLines headers ++ headerSep ∧
      parsing boost r onNewConnection b = parsing boost .kParseOK s b' := by
  have hfirst : Search.first headerSep b.readable = some line.length := hd ▸ first_line hline _
  have hne : b.readable ≠ [] := by
    rw [hd]
    simp [encodeRequest, headerSep]
  have htake : b.readable.take line.length = line := by
    rw [hd]
    exact List.take_left ..
  have hvalid' : (requestLine boost started.req (b.readable.take line.length)).2 = true := by
    rw [htake]
    exact hvalid
  -- the line is valid and goes away with its separator
  rcases parsing_requestLine_goes (r := .kParseOK) rfl rfl hfirst hvalid' with ⟨b', hread, hparse⟩
  refine ⟨_, b', rfl, rfl, fun name => requestLine_getHeader .., ?_,
    (parsing_start_goes hne).trans hparse⟩
  rw [hread, hd, encodeRequest, ← List.append_assoc]
  exact List.drop_left' (List.length_append ..)

/-- `OnMessage` leaves the state of the loop in its message. -/
theorem onMessage_state {codec : HTTPCodec} {k : HTTPConnection} {msg : Message}
    {s' : HTTPRequestParsingState}
    (hparse : parsing boost .kParseError s b = .ok (r, s', b'))
    (h : onMessage boost codec (some s) b = .ok (k, msg)) : msg.state = s' := by
  rw [onMessage_some, hparse] at h
  simp only [ok_bind, conclude] at h
  split at h
  · split at h
    · cases h
    · cases h
      rfl
  · split at h
    · cases h
      rfl
    · cases h
      rfl

/-- `rcb_` is called for a whole request. -/
theorem onMessage_request {codec : HTTPCodec} {s' : HTTPRequestParsingState}
    (hrcb : codec.rcb = true) (hparse : parsing boost .kParseError s b = .ok (.kParseOK, s', b')) :
    onMessage boost codec (some s) b = .ok (⟨none, b'⟩, ⟨s', some (.request s'.req)⟩) := by
  rw [onMessage_some, hparse]
  simp [conclude, hrcb]

end Request

/-- The codec has a request callback, as `HTTPServer` gives it one (`hrcb`). Header lines are sent
behind a valid request line, in any chunks. The first callback is made for a request in which every
header has its value, if and only if no value has the separator of the names in it. -/
theorem headers_read_back_iff (boost : Boost)
    (hsplit : ∀ src sep, boost.splitString src sep = Search.split sep src) (codec : HTTPCodec)
    (hrcb : codec.rcb = true) (line : List UInt8) (hline : ¬ headerSep <:+: line)
    (hvalid : (requestLine boost .new line).2 = true) (headers : List Header)
    (hsend : Sendable boost headers) (as : List Arrival)
    (harrives : Guarded (receive boost codec) Arrives start as)
    (hstream : (as.map Arrival.chunk).flatten = encodeRequest line headers) :
    ReadBack boost headers (firstCallback boost codec start as) ↔
      ∀ h ∈ headers, ¬ nameSep <:+: h.val := by
  obtain ⟨s, b, hstatus, hfunc, hnone, hd, hparse⟩ := parsing_encodeRequest (r := .kParseError)
    hline hvalid (Buffer.readable_ofList (encodeRequest line headers))
  rw [firstCallback_whole hrcb harrives, hstream]
  constructor
  · rintro ⟨msg, hfirst, hdone, -⟩ h hmem hin
    obtain ⟨s', b', hparse', hheader⟩ := parsing_lines_fails (r := .kParseOK) hsplit hsend
      ⟨h, hmem, hin⟩ hstatus hfunc hd
    -- the callback is made for a state that is not done
    have hmsg : ∃ k, receive boost codec start (whole (encodeRequest line headers)) =
        .ok (k, msg) := by
      cases hmsg : receive boost codec start (whole (encodeRequest line headers)) with
      | error fault =>
        rw [firstCallback_error hmsg] at hfirst
        cases hfirst
      | ok x =>
        simp only [firstCallback, hmsg] at hfirst
        split at hfirst
        · cases hfirst
        · cases hfirst
          exact ⟨x.1, rfl⟩
    rcases hmsg with ⟨k, hmsg⟩
    rw [onMessage_state (hparse.trans hparse') hmsg, hheader] at hdone
    cases hdone
  · intro hvals
    obtain ⟨s', b', hparse', hdone, -, hheaders⟩ := parsing_lines (r := .kParseOK) hsplit hsend
      hvals hstatus hfunc hd (hnone _) fun h _ => hnone _
    have hmsg := onMessage_request hrcb (hparse.trans hparse')
    exact ⟨_, firstCallback_callback hmsg (Option.some_ne_none _), hdone, hheaders⟩

/-- Two lines, one without a value, in two chunks. -/
theorem headers_read_back_iff_run :
    ReadBack .std [⟨ascii "Host", ascii "a:80"⟩, ⟨ascii "X", []⟩]
      (firstCallback .std ⟨true, true⟩ start
        [⟨ascii "GET / HTTP/1.0\r\nHost", .ofList (ascii "GET / HTTP/1.0\r\nHost")⟩,
          ⟨ascii ": a:80\r\nX: \r\n\r\n", .ofList (ascii "Host: a:80\r\nX: \r\n\r\n")⟩]) := by
  refine (headers_read_back_iff .std (fun _ _ => rfl) ⟨true, true⟩ rfl (ascii "GET / HTTP/1.0")
    (by decide +kernel) (by decide +kernel) _ ?_ _ (by decide +kernel) (by decide +kernel)).2
    (by decide +kernel)
  constructor
  all_goals decide +kernel

/-- A value with a separator in it is answered with 400. -/
theorem separator_in_value_refused :
    Sendable .std [⟨ascii "User-Agent", ascii "fx (rv: 1)"⟩] ∧
      (firstCallback .std ⟨true, true⟩ start
        [whole (encodeRequest (ascii "GET / HTTP/1.0")
          [⟨ascii "User-Agent", ascii "fx (rv: 1)"⟩])]).map
        (fun first => first.map fun msg => (msg.state.status, msg.callback)) =
          some (.ok (.kParsingRequestHeader, some (.error (.new 400)))) ∧
      ¬ ReadBack .std [⟨ascii "User-Agent", ascii "fx (rv: 1)"⟩]
        (firstCallback .std ⟨true, true⟩ start
          [whole (encodeRequest (ascii "GET / HTTP/1.0")
            [⟨ascii "User-Agent", ascii "fx (rv: 1)"⟩])]) := by
  have hfirst : (firstCallback .std ⟨true, true⟩ start
        [whole (encodeRequest (ascii "GET / HTTP/1.0")
          [⟨ascii "User-Agent", ascii "fx (rv: 1)"⟩])]).map
        (fun first => first.map fun msg => (msg.state.status, msg.callback)) =
          some (.ok (.kParsingRequestHeader, some (.error (.new 400)))) := by
    decide +kernel
  refine ⟨?_, hfirst, ?_⟩
  · constructor
    all_goals decide +kernel
  · rintro ⟨msg, hmsg, hdone, -⟩
    rw [hmsg, Option.map_some, Except.map, hdone] at hfirst
    cases hfirst

end FxServer.HTTPCodec
