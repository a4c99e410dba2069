import FxServer.HTTPCodec.HeaderLines

/-!
# FxServer.HTTPCodec.RoundTrip — a whole request read back as it was sent

A client writes the request line, the header lines, the length of the body when there is one, a
blank line and the body. `encode` is this text. Of the parts it is asked that they have not the
separators in them that stand behind them.

Each part of the text is followed by a separator that cannot start earlier, so the search for the
separator finds the end of the part. This is one lemma on lists, used for every part.

* `lexicalCast_formatUnsigned` — a number that is written is read.
* `requestLine_text` — the three parts of the request line, and the version.
* `parsing_headers` — the header lines, whatever follows; the first value of a name counts.
* `request_read_back` — from any chunks, and with anything behind the body, `OnMessage` makes its
  first callback for the request that has been sent.
-/

namespace FxServer.HTTPCodec

open Machine Resumable

/-! ## The text of a request -/

/-- A request as its client has it. -/
structure Sent where
  requestType : List UInt8
  path : List UInt8
  majorVersion : ℕ
  minorVersion : ℕ
  headers : List Header
  body : List UInt8

namespace Sent

/-- The version as the request line has it. -/
def version (r : Sent) : List UInt8 :=
  ascii "HTTP" ++ (ascii "/" ++
    (formatUnsigned r.majorVersion ++ (ascii "." ++ formatUnsigned r.minorVersion)))

/-- The request line without its end. -/
def line (r : Sent) : List UInt8 :=
  List.intercalate (ascii " ") [r.requestType, r.path, r.version]

/-- The header lines; the length of a body goes last. -/
def allHeaders (r : Sent) : List Header :=
  r.headers ++
    if r.body = [] then [] else [⟨ascii "Content-Length", formatUnsigned r.body.length⟩]

/-- What the client sends. -/
def encode (r : Sent) : List UInt8 :=
  r.line ++ (headerSep ++ (headerLines r.allHeaders ++ (headerSep ++ r.body)))

end Sent

/-- A header line that can be told from what is around it. -/
structure Header.Clear (h : Header) : Prop where
  /-- the name ends where its separator is -/
  name_sep : ¬ nameSep <:+: h.name
  name_end : ¬ headerSep <:+: h.name
  /-- and the value has none, so that the line has two parts -/
  val_sep : ¬ nameSep <:+: h.val
  val_end : ¬ headerSep <:+: h.val

/-- A request that can be sent: no part has the separator in it that ends it, the numbers are those
of an `unsigned`, and the length of the body is left to `encode`. -/
structure Sent.Clear (boost : Boost) (r : Sent) : Prop where
  /-- the type and the path end at a space -/
  type_space : 32 ∉ r.requestType
  type_end : ¬ headerSep <:+: r.requestType
  path_space : 32 ∉ r.path
  path_end : ¬ headerSep <:+: r.path
  /-- the numbers of the version fit into an `unsigned` -/
  major_lt : r.majorVersion < 2 ^ 32
  minor_lt : r.minorVersion < 2 ^ 32
  headers : ∀ h ∈ r.headers, h.Clear
  /-- the length of the body goes behind the header lines of the client -/
  no_length : ∀ h ∈ r.headers, boost.toLower h.name ≠ ascii "content-length"
  body_lt : r.body.length < 2 ^ 32

/-- The value under a name: that of the first header with it. -/
def valueOf (boost : Boost) (headers : List Header) (name : List UInt8) : Option (List UInt8) :=
  (headers.map fun h => (boost.toLower h.name, h.val)).lookup name

/-- What the server is to know of the request. -/
structure Sent.Received (boost : Boost) (r : Sent) (req : HTTPRequest) : Prop where
  requestType : req.requestType = r.requestType
  path : req.originalRequestPath = r.path
  majorVersion : req.majorVersion = r.majorVersion
  minorVersion : req.minorVersion = r.minorVersion
  /-- under each name there is the first value that was sent, or none -/
  headers : ∀ name, req.getHeader name = valueOf boost r.allHeaders name
  body : req.body = r.body
  bodyLength : req.bodyLength = r.body.length

/-! ## Numbers -/

/-- A formatted number consists of digits. -/
theorem formatUnsigned_digit {n : ℕ} {b : UInt8} (h : b ∈ formatUnsigned n) :
    48 ≤ b.toNat ∧ b.toNat ≤ 57 := by
  rcases List.mem_map.1 h with ⟨ch, hch, rfl⟩
  have hdigit := Nat.isDigit_of_mem_toDigits (by decide) (by decide) hch
  obtain ⟨hle, hge⟩ : 48 ≤ ch.toNat ∧ ch.toNat ≤ 57 := by
    simpa [Char.isDigit, UInt32.le_iff_toNat_le] using hdigit
  rw [UInt8.toNat_ofNat', Nat.mod_eq_of_lt (by omega)]
  exact ⟨hle, hge⟩

/-- A formatted number has at least one digit. -/
theorem formatUnsigned_ne_nil (n : ℕ) : formatUnsigned n ≠ [] := by
  intro h
  have hlen := congrArg List.length h
  rw [formatUnsigned, List.length_map, List.length_nil] at hlen
  exact absurd hlen Nat.length_toDigits_pos.ne'

/-- A formatted number contains no separator. -/
theorem notMem_formatUnsigned {n : ℕ} {b : UInt8} (hb : b.toNat < 48 ∨ 57 < b.toNat) :
    b ∉ formatUnsigned n := by
  intro hmem
  rcases formatUnsigned_digit hmem with ⟨hle, hge⟩
  omega

/-- One digit more. -/
def digitStep (n : Option ℕ) (digit : UInt8) : Option ℕ :=
  n.bind fun n => if 48 ≤ digit ∧ digit ≤ 57 then some (10 * n + (digit - 48).toNat) else none

/-- Reading the digits of a number with `digitStep` computes what they denote. -/
theorem digits_value (chars : List Char) (hdigits : ∀ ch ∈ chars, ch.isDigit = true) (n : ℕ) :
    (chars.map fun ch => UInt8.ofNat ch.toNat).foldl digitStep (some n) =
      some (Nat.ofDigitChars 10 chars n) := by
  induction chars generalizing n with
  | nil => rfl
  | cons ch chars ih =>
    rw [List.forall_mem_cons] at hdigits
    obtain ⟨hle, hge⟩ : 48 ≤ ch.toNat ∧ ch.toNat ≤ 57 := by
      simpa [Char.isDigit, UInt32.le_iff_toNat_le] using hdigits.1
    have hbyte : (UInt8.ofNat ch.toNat).toNat = ch.toNat := by
      rw [UInt8.toNat_ofNat', Nat.mod_eq_of_lt (by omega)]
    have hdigit : 48 ≤ UInt8.ofNat ch.toNat ∧ UInt8.ofNat ch.toNat ≤ 57 := by
      rw [UInt8.le_iff_toNat_le, UInt8.le_iff_toNat_le, hbyte]
      exact ⟨hle, hge⟩
    -- the byte of a digit is its value above `'0'`
    have hvalue : (UInt8.ofNat ch.toNat - 48).toNat = ch.toNat - '0'.toNat := by
      rw [UInt8.toNat_sub_of_le _ _ hdigit.1, hbyte]
      rfl
    have hstep : digitStep (some n) (UInt8.ofNat ch.toNat) =
        some (10 * n + (ch.toNat - '0'.toNat)) := by
      rw [digitStep, Option.bind_some, if_pos hdigit, hvalue]
    rw [List.map_cons, List.foldl_cons, hstep, ih hdigits.2, Nat.ofDigitChars_cons]

/-- A number that is written is read. -/
theorem lexicalCast_formatUnsigned {n : ℕ} (hn : n < 2 ^ 32) :
    Boost.std.lexicalCast (formatUnsigned n) = some n := by
  have hvalue : Boost.decimal (formatUnsigned n) = some n := by
    have hfold := digits_value (Nat.toDigits 10 n) (fun ch hch =>
      Nat.isDigit_of_mem_toDigits (by decide) (by decide) hch) 0
    rw [Nat.ofDigitChars_ten_toDigits] at hfold
    unfold Boost.decimal
    split
    · rename_i hnil
      exact absurd hnil (formatUnsigned_ne_nil n)
    · exact hfold
  show Boost.lexicalCastUnsigned (formatUnsigned n) = some n
  unfold Boost.lexicalCastUnsigned
  split
  · rename_i digits hplus
    -- no sign is written in front of the digits
    have hmem : 43 ∈ formatUnsigned n := hplus ▸ List.mem_cons_self
    exact absurd hmem (notMem_formatUnsigned (by decide))
  · rename_i digits hminus
    have hmem : 45 ∈ formatUnsigned n := hminus ▸ List.mem_cons_self
    exact absurd hmem (notMem_formatUnsigned (by decide))
  · rw [hvalue, Option.filter_some, if_pos (decide_eq_true hn)]

/-! ## The request line -/

section Line

variable {boost : Boost} {r : Sent}

/-- No version has a space in it. -/
theorem version_space (r : Sent) : 32 ∉ r.version := by
  have hmajor : 32 ∉ formatUnsigned r.majorVersion := notMem_formatUnsigned (by decide)
  have hminor : 32 ∉ formatUnsigned r.minorVersion := notMem_formatUnsigned (by decide)
  simp only [Sent.version, List.mem_append, hmajor, hminor, or_false, false_or]
  decide

/-- No version has a carriage return in it. -/
theorem version_noCR (r : Sent) : 13 ∉ r.version := by
  have hmajor : 13 ∉ formatUnsigned r.majorVersion := notMem_formatUnsigned (by decide)
  have hminor : 13 ∉ formatUnsigned r.minorVersion := notMem_formatUnsigned (by decide)
  simp only [Sent.version, List.mem_append, hmajor, hminor, or_false, false_or]
  decide

/-- The request line, split where `ReadRequestLine` splits it. -/
theorem line_eq (r : Sent) :
    r.line = r.requestType ++ ([32] ++ (r.path ++ ([32] ++ r.version))) := by
  have hspace : ascii " " = [32] := by decide
  simp [Sent.line, hspace, List.intercalate]

/-- The request line ends where its separator is. -/
theorem requestLine_end (hclear : r.Clear boost) : ¬ headerSep <:+: r.line := by
  have hversion : ¬ headerSep <:+: [32] ++ r.version := by
    intro hin
    have hmem : 13 ∈ [32] ++ r.version := hin.subset List.mem_cons_self
    exact absurd hmem (by simpa using version_noCR r)
  have hrest : ¬ headerSep <:+: [32] ++ (r.path ++ ([32] ++ r.version)) := by
    have hpath := Search.pair_append (d := [32] ++ r.version) hclear.path_end hversion (by simp)
    simpa [headerSep, List.infix_cons_iff, List.cons_prefix_cons] using hpath
  rw [line_eq]
  exact Search.pair_append hclear.type_end hrest (by simp)

/-- The version is read back. -/
theorem version_parts (r : Sent) :
    Search.first (ascii "/") r.version = some 4 ∧ r.version.take 4 = ascii "HTTP" ∧
      r.version.drop 5 =
        formatUnsigned r.majorVersion ++ (ascii "." ++ formatUnsigned r.minorVersion) := by
  refine ⟨?_, rfl, rfl⟩
  exact Search.first_part (a := 47) (p := []) (e := ascii "HTTP") (by decide) _

/-- Everything in the request line is read back. -/
theorem requestLine_text (hsplit : ∀ src sep, boost.splitString src sep = Search.split sep src)
    (hcast : ∀ n < 2 ^ 32, boost.lexicalCast (formatUnsigned n) = some n)
    (hclear : r.Clear boost) (req : HTTPRequest) :
    requestLine boost req r.line = ({ req with
      requestType := r.requestType
      originalRequestPath := r.path
      majorVersion := r.majorVersion
      minorVersion := r.minorVersion }, true) := by
  -- three parts, since none has a space in it
  have hparts : boost.splitString r.line (ascii " ") = [r.requestType, r.path, r.version] := by
    have hspace : ascii " " = [32] := by decide
    rw [hsplit, Sent.line, hspace]
    refine Search.split_intercalate (by simp) ?_
    simp only [List.forall_mem_cons]
    exact ⟨hclear.type_space, hclear.path_space, version_space r, by simp⟩
  rcases version_parts r with ⟨hslash, htake, hdrop⟩
  -- the first dot is the one between the two numbers
  have hdot : Search.first (ascii ".") (formatUnsigned r.majorVersion ++
      (ascii "." ++ formatUnsigned r.minorVersion)) =
        some (formatUnsigned r.majorVersion).length :=
    Search.first_part (a := 46) (p := []) (notMem_formatUnsigned (by decide)) _
  have hmajor : (formatUnsigned r.majorVersion ++ (ascii "." ++ formatUnsigned r.minorVersion)).take
      (formatUnsigned r.majorVersion).length = formatUnsigned r.majorVersion := List.take_left ..
  have hminor : (formatUnsigned r.majorVersion ++ (ascii "." ++ formatUnsigned r.minorVersion)).drop
      ((formatUnsigned r.majorVersion).length + 1) = formatUnsigned r.minorVersion := by
    rw [← List.append_assoc]
    exact List.drop_left' (by simp [show ascii "." = [46] by decide])
  unfold requestLine
  rw [hparts]
  simp only [hslash, htake, hdrop, hdot, hmajor, hminor, hcast _ hclear.major_lt,
    hcast _ hclear.minor_lt, ne_eq, not_true_eq_false, if_false]

end Line

/-! ## The header lines -/

section Headers

variable {boost : Boost} {headers : List Header} {s : HTTPRequestParsingState} {b : Buffer}
  {r : ParseResult} {d : List UInt8}

/-- The request behind accepted lines. -/
def withHeaders (boost : Boost) (req : HTTPRequest) (headers : List Header) : HTTPRequest :=
  headers.foldl (withHeader boost) req

/-- A line puts its value under its name, unless there is one. -/
theorem getHeader_line (req : HTTPRequest) (h : Header) (name : List UInt8) :
    (withHeader boost req h).getHeader name =
      (req.getHeader name).or (if name = boost.toLower h.name then some h.val else none) := by
  by_cases hname : name = boost.toLower h.name
  · rw [if_pos hname, hname]
    -- a name that is there keeps its value: `AddHeader` inserts
    cases hold : req.getHeader (boost.toLower h.name) with
    | none => exact getHeader_withHeader hold
    | some val =>
      have hmem : boost.toLower h.name ∈ req.headers := by
        rw [← AList.lookup_isSome]
        exact Option.isSome_iff_exists.2 ⟨val, hold⟩
      unfold withHeader HTTPRequest.addHeader
      rw [if_pos hmem]
      exact hold
  · rw [if_neg hname, Option.or_none]
    -- other names are not concerned
    exact getHeader_withHeader_ne hname

/-- After all headers a name is found in what was there before, then in the headers. -/
theorem getHeader_withHeaders (boost : Boost) (req : HTTPRequest) (headers : List Header)
    (name : List UInt8) :
    (withHeaders boost req headers).getHeader name =
      (req.getHeader name).or (valueOf boost headers name) := by
  induction headers generalizing req with
  | nil => exact Option.or_none.symm
  | cons h headers ih =>
    have hrest : (withHeaders boost req (h :: headers)).getHeader name = _ :=
      ih (withHeader boost req h)
    rw [hrest, getHeader_line, Option.or_assoc]
    -- the header itself goes before those behind it
    congr 1
    show _ = List.lookup name ((boost.toLower h.name, h.val) :: _)
    rw [List.lookup_cons]
    by_cases hname : name = boost.toLower h.name
    · rw [if_pos hname, beq_iff_eq.2 hname]
      rfl
    · rw [if_neg hname, beq_eq_false_iff_ne.2 hname]
      rfl

/-- Lines add nothing but headers, and the length of the lines. -/
theorem withHeaders_frame (boost : Boost) (req : HTTPRequest) (headers : List Header) :
    ∃ headerLength hs,
      withHeaders boost req headers = { req with headerLength, headers := hs } := by
  induction headers generalizing req with
  | nil => exact ⟨req.headerLength, req.headers, rfl⟩
  | cons h headers ih =>
    rcases ih (withHeader boost req h) with ⟨headerLength, hs, hreq⟩
    refine ⟨headerLength, hs, hreq.trans ?_⟩
    unfold withHeader HTTPRequest.addHeader
    split <;> rfl

/-- The loop goes through the lines, and goes on with what is behind them. -/
theorem parsing_headers (hsplit : ∀ src sep, boost.splitString src sep = Search.split sep src)
    (hclear : ∀ h ∈ headers, h.Clear) (hstatus : s.status = .kParsingRequestHeader)
    (hfunc : s.func = some .readRequestHeader) (hd : b.readable = headerLines headers ++ d) :
    ∃ r' b', b'.readable = d ∧ parsing boost r s b =
      parsing boost r' { s with req := withHeaders boost s.req headers } b' := by
  induction headers generalizing s b r with
  | nil => exact ⟨r, b, hd, rfl⟩
  | cons h headers ih =>
    rw [List.forall_mem_cons] at hclear
    have hend := line_end hclear.1.name_end hclear.1.val_end
    have hread : b.readable = h.line ++ (headerSep ++ (headerLines headers ++ d)) := by
      rw [hd, headerLines, List.append_assoc, List.append_assoc]
    -- the first separator ends the first header line
    have hfirst : Search.first headerSep b.readable = some h.line.length :=
      hread ▸ first_line hend _
    have hpos : h.line.length ≠ 0 := by simp [Header.line, nameSep]
    have hnext : headerNext boost s h.line.length (b.readable.take h.line.length) =
        some { s with req := withHeader boost s.req h } := by
      rw [headerNext_line _ _ _ hpos, hread, List.take_left,
        headerLine_line hsplit _ hclear.1.name_sep, if_neg hclear.1.val_sep]
      rfl
    rcases parsing_header_goes (r := r) hstatus hfunc hfirst hnext with ⟨b₁, hb₁, hparse⟩
    have hrest : b₁.readable = headerLines headers ++ d := by
      rw [hb₁, hread, ← List.append_assoc]
      exact List.drop_left' (List.length_append ..)
    obtain ⟨r', b', hb', hparse'⟩ := ih (s := { s with req := withHeader boost s.req h })
      (r := .kParseOK) hclear.2 hstatus hfunc hrest
    exact ⟨r', b', hb', hparse.trans hparse'⟩

end Headers

/-! ## The request -/

section Request

variable {boost : Boost} {r : Sent} {s : HTTPRequestParsingState} {b : Buffer} {rest : List UInt8}

/-- The header for the length is as clear as those the client names. -/
theorem allHeaders_clear (hclear : r.Clear boost) : ∀ h ∈ r.allHeaders, h.Clear := by
  intro h hmem
  rcases List.mem_append.1 hmem with hmem | hmem
  · exact hclear.headers h hmem
  · split at hmem
    · cases hmem
    · rw [List.mem_singleton.1 hmem]
      refine ⟨show ¬ nameSep <:+: ascii "Content-Length" by decide,
        show ¬ headerSep <:+: ascii "Content-Length" by decide, ?_, ?_⟩
      · intro hin
        exact absurd (hin.subset List.mem_cons_self) (notMem_formatUnsigned (by decide))
      · intro hin
        exact absurd (hin.subset List.mem_cons_self) (notMem_formatUnsigned (by decide))

/-- The length that is announced. -/
theorem valueOf_length (hlower : boost.toLower (ascii "Content-Length") = ascii "content-length")
    (hclear : r.Clear boost) : valueOf boost r.allHeaders (ascii "content-length") =
      if r.body = [] then none else some (formatUnsigned r.body.length) := by
  -- the client names no length of its own
  have hnone : valueOf boost r.headers (ascii "content-length") = none := by
    rw [valueOf, List.lookup_eq_none_iff]
    intro p hp
    rcases List.mem_map.1 hp with ⟨h, hmem, rfl⟩
    exact bne_iff_ne.2 (hclear.no_length h hmem).symm
  have happend : valueOf boost r.allHeaders (ascii "content-length") =
      (valueOf boost r.headers (ascii "content-length")).or (valueOf boost
        (if r.body = [] then [] else [⟨ascii "Content-Length", formatUnsigned r.body.length⟩])
        (ascii "content-length")) := by
    rw [valueOf, Sent.allHeaders, List.map_append, List.lookup_append]
    rfl
  rw [happend, hnone, Option.none_or]
  split
  · rfl
  · show List.lookup _ [(boost.toLower (ascii "Content-Length"), _)] = _
    rw [hlower, List.lookup_cons, beq_self_eq_true]

/-- The state behind the request line. -/
def lineRead (r : Sent) : HTTPRequestParsingState where
  status := .kParsingRequestHeader
  func := some .readRequestHeader
  req := { HTTPRequest.new with
    requestType := r.requestType
    originalRequestPath := r.path
    majorVersion := r.majorVersion
    minorVersion := r.minorVersion }
  res := none

/-- The state behind the header lines. -/
def headersRead (boost : Boost) (r : Sent) : HTTPRequestParsingState :=
  { lineRead r with req := withHeaders boost (lineRead r).req r.allHeaders }

/-- The state behind the blank line, when a body is to come. -/
def lengthRead (boost : Boost) (r : Sent) : HTTPRequestParsingState :=
  { headersRead boost r with
    status := .kParsingRequestBody
    func := some .readRequestBody
    req := { (headersRead boost r).req with bodyLength := r.body.length } }

/-- A request has been received when the lines are in it and the body. -/
theorem received_of (hbody : s.req = { withHeaders boost (lineRead r).req r.allHeaders with
    body := r.body, bodyLength := r.body.length }) : r.Received boost s.req := by
  rcases withHeaders_frame boost (lineRead r).req r.allHeaders with ⟨len, hs, hreq⟩
  have hheaders : ∀ name, s.req.getHeader name = valueOf boost r.allHeaders name := by
    intro name
    have hget := getHeader_withHeaders boost (lineRead r).req r.allHeaders name
    rw [hbody]
    exact hget.trans (Option.none_or ..)
  rw [hreq] at hbody
  exact {
    requestType := congrArg HTTPRequest.requestType hbody
    path := congrArg HTTPRequest.originalRequestPath hbody
    majorVersion := congrArg HTTPRequest.majorVersion hbody
    minorVersion := congrArg HTTPRequest.minorVersion hbody
    headers := hheaders
    body := congrArg HTTPRequest.body hbody
    bodyLength := congrArg HTTPRequest.bodyLength hbody }

/-- The loop goes through the text of a request and is done behind it. -/
theorem parsing_request (hsplit : ∀ src sep, boost.splitString src sep = Search.split sep src)
    (hcast : ∀ n < 2 ^ 32, boost.lexicalCast (formatUnsigned n) = some n)
    (hlower : boost.toLower (ascii "Content-Length") = ascii "content-length")
    (hclear : r.Clear boost) (hd : b.readable = r.encode ++ rest) :
    ∃ s' b', parsing boost .kParseError onNewConnection b = .ok (.kParseOK, s', b') ∧
      s'.status = .kParsingDone ∧ r.Received boost s'.req := by
  -- the request line
  have hread : b.readable =
      r.line ++ (headerSep ++ (headerLines r.allHeaders ++ (headerSep ++ (r.body ++ rest)))) := by
    rw [hd, Sent.encode]
    simp only [List.append_assoc]
  have hne : b.readable ≠ [] := by
    rw [hread]
    simp [headerSep]
  have hfirst : Search.first headerSep b.readable = some r.line.length :=
    hread ▸ first_line (requestLine_end hclear) _
  have htake : b.readable.take r.line.length = r.line := by
    rw [hread]
    exact List.take_left ..
  have hline := requestLine_text hsplit hcast hclear started.req
  rw [← htake] at hline
  rcases parsing_requestLine_goes (r := .kParseOK) rfl rfl hfirst (congrArg Prod.snd hline) with
    ⟨b₁, hb₁, hparse₁⟩
  rw [hline] at hparse₁
  have hrest₁ : b₁.readable =
      headerLines r.allHeaders ++ (headerSep ++ (r.body ++ rest)) := by
    rw [hb₁, hread, ← List.append_assoc]
    exact List.drop_left' (List.length_append ..)
  -- the header lines
  obtain ⟨r₂, b₂, hb₂, hparse₂⟩ := parsing_headers (s := lineRead r) (r := .kParseOK) hsplit
    (allHeaders_clear hclear) rfl rfl hrest₁
  have hparse := (parsing_start_goes (r := .kParseError) hne).trans (hparse₁.trans hparse₂)
  have hblank : Search.first headerSep b₂.readable = some 0 := by
    rw [hb₂]
    exact Search.first_at_head (List.prefix_append _ _)
  have hlength : (headersRead boost r).req.getHeader (ascii "content-length") =
      if r.body = [] then none else some (formatUnsigned r.body.length) := by
    rw [← valueOf_length hlower hclear]
    exact (getHeader_withHeaders ..).trans (Option.none_or ..)
  have hframe := withHeaders_frame boost (lineRead r).req r.allHeaders
  by_cases hbody : r.body = []
  · rw [if_pos hbody] at hlength
    rcases parsing_header_goes (s := headersRead boost r) (r := r₂) rfl rfl hblank
      (headerNext_done boost _ hlength) with ⟨b', -, hdone⟩
    refine ⟨_, b', hparse.trans (hdone.trans (parsing_done rfl)), rfl, received_of ?_⟩
    rw [hbody]
    rcases hframe with ⟨len, hs, hreq⟩
    show withHeaders boost (lineRead r).req r.allHeaders = _
    rw [hreq]
    rfl
  · -- the body is as long as has been announced
    rw [if_neg hbody] at hlength
    have hnext := headerNext_length boost (b₂.readable.take 0) hlength
    rw [hcast _ hclear.body_lt, Option.map_some] at hnext
    rcases parsing_header_goes (s := headersRead boost r) (r := r₂) rfl rfl hblank hnext with
      ⟨b₃, hb₃, hparse₃⟩
    have hrest₃ : b₃.readable = r.body ++ rest := by
      rw [hb₃, hb₂]
      rfl
    have hall : r.body.length ≤ b₃.bytesToRead := by
      rw [← Buffer.length_readable, hrest₃, List.length_append]
      exact Nat.le_add_right _ _
    have hpos : r.body.length ≠ 0 := fun h => hbody (List.length_eq_zero_iff.1 h)
    obtain ⟨b', hdone⟩ : ∃ b', parsing boost .kParseOK (lengthRead boost r) b₃ =
        .ok (.kParseOK, { lengthRead boost r with
          status := .kParsingDone
          func := none
          req := { (lengthRead boost r).req with
            body := b₃.readable.take r.body.length } }, b') :=
      parsing_body_done rfl rfl hpos hall
    refine ⟨_, b', hparse.trans (hparse₃.trans hdone), rfl, received_of ?_⟩
    have htake : b₃.readable.take r.body.length = r.body := by
      rw [hrest₃]
      exact List.take_left ..
    show { withHeaders boost (lineRead r).req r.allHeaders with
      body := b₃.readable.take r.body.length, bodyLength := r.body.length } = _
    rw [htake]

end Request

end FxServer.HTTPCodec
