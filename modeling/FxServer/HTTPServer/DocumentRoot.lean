import FxServer.HTTPCodec.Chunks
import FxServer.HTTPServer

/-!
# FxServer.HTTPServer.DocumentRoot — which files a request can reach

The validator refuses a path with two dots in a row, wherever they are. The rewriter takes what
is left, or puts a suffix behind it, and the accessor puts the result behind the document root,
with nothing between them. So it is left to the client that there is a slash.

What the system is asked is a trace, and `Gives` says what all its entries have in common. The
rules for it follow the structure of the program, so that the candidates are the only thing to be
looked at.

* `Contained` — a path lies below the document root.
* `parsed_candidates` — a request comes without candidates.
* `contained_iff` — all files of an accepted request lie below the document root if and only if
  its path begins or ends with a slash, or is empty.
-/

namespace FxServer

open Machine Resumable Trace

/-! ## Requests of the codec -/

namespace HTTPCodec

variable {boost : Boost} {codec : HTTPCodec} {b b' : Buffer} {s s' : HTTPRequestParsingState}
  {r : ParseResult} {k k' : HTTPConnection} {msg : Message}

/-- The request line leaves the candidates alone. -/
theorem requestLine_candidates (req : HTTPRequest) (line : List UInt8) :
    (requestLine boost req line).1.requestPathCandidates = req.requestPathCandidates := by
  rcases requestLine_frame boost req line with ⟨requestType, path, major, minor, hreq⟩
  rw [hreq]

/-- Header lines leave the candidates alone. -/
theorem headerLine_candidates {req req' : HTTPRequest} {line : List UInt8}
    (h : headerLine boost req line = some req') :
    req'.requestPathCandidates = req.requestPathCandidates := by
  unfold headerLine at h
  split at h
  · cases h
    unfold HTTPRequest.addHeader
    split <;> rfl
  · cases h

/-- Parsing leaves the candidates alone. -/
theorem call_candidates (h : call boost s b = .ok (r, s', b')) :
    s'.req.requestPathCandidates = s.req.requestPathCandidates := by
  cases call_calls h with
  | waits | starts | badHeader | body => rfl
  | requestLine | badRequestLine => exact requestLine_candidates _ _
  | headersEnd hend =>
    rcases headersEnd_frame hend with ⟨status, func, bodyLength, -, rfl⟩
    rfl
  | headerLine _ _ hline => exact headerLine_candidates hline

def NoCandidates (s : HTTPRequestParsingState) : Prop := s.req.requestPathCandidates = []

/-- The context, if there is one, holds a request without candidates. -/
def Fresh (k : HTTPConnection) : Prop := ∀ s, k.context = some s → NoCandidates s

/-- A request that the codec hands out has no candidates yet. -/
theorem receive_candidates {a : Arrival} (hk : Fresh k)
    (h : receive boost codec k a = .ok (k', msg)) :
    Fresh k' ∧ ∀ req, msg.callback = some (.request req) → req.requestPathCandidates = [] := by
  unfold receive onMessage at h
  split at h
  · cases h
  · rename_i s hcontext
    rcases bind_ok.1 h with ⟨⟨r, s', b'⟩, hparse, h⟩
    -- no call of the parser changes the candidates
    have hdrives := parsing_drives boost .kParseError s a.buf
    rw [hparse] at hdrives
    have hs' : NoCandidates s' :=
      hdrives.inv (fun s b r s' b' hs hcall => (call_candidates hcall).trans hs) (hk s hcontext)
    simp only [conclude] at h
    split at h
    · split at h
      · cases h
      · cases h
        -- the error callback
        refine ⟨fun t ht => ?_, fun req hreq => by cases hreq⟩
        cases ht
        exact hs'
    · split at h
      · cases h
        -- the parser waits for more
        refine ⟨fun t ht => ?_, fun req hreq => by cases hreq⟩
        cases ht
        exact hs'
      · cases h
        -- the context is cleared, and the request handed over
        refine ⟨fun t ht => (by cases ht), fun req hreq => ?_⟩
        simp only at hreq
        split at hreq
        · cases hreq
          exact hs'
        · cases hreq

/-- A request comes without candidates. -/
theorem parsed_candidates {as : List Arrival} {msgs : List Message} {req : HTTPRequest}
    (hrun : run (receive boost codec) start as = .ok (k, msgs)) (hmsg : msg ∈ msgs)
    (hreq : msg.callback = some (.request req)) : req.requestPathCandidates = [] := by
  have hstart : Fresh start := fun s hs => by
    cases hs
    rfl
  -- by induction on the chunks, from any connection that is fresh
  generalize start = k₀ at hrun hstart
  induction as generalizing k₀ msgs with
  | nil =>
    cases hrun
    cases hmsg
  | cons a as ih =>
    rcases run_cons_inv hrun with ⟨k₁, m, msgs', hm, hrest, rfl⟩
    rcases receive_candidates hstart hm with ⟨hfresh, hnone⟩
    rcases List.mem_cons.1 hmsg with rfl | hmsg
    · exact hnone req hreq
    · exact ih hmsg k₁ hrest hfresh

end HTTPCodec

/-! ## Below the document root -/

/-- The path is the document root, a slash, and a path without a component `..`. -/
def Contained (basePath path : CString) : Prop :=
  ∃ rest, path.bytes = basePath.bytes ++ 47 :: rest ∧ ascii ".." ∉ Search.split (ascii "/") rest

namespace HTTPModuleFileAccessor

variable {os : ℕ → OS} {basePath : CString} {req : HTTPRequest} {p q : List UInt8}
  {P : CString → Prop}

/-- The path that `open` sees ends at the first null byte. -/
theorem absPath_bytes (basePath : CString) (p : List UInt8) :
    (absPath basePath p).bytes = basePath.bytes ++ p.takeWhile (· ≠ 0) := by
  have hbase : ∀ ch ∈ basePath.bytes, decide (ch ≠ 0) = true := fun ch hmem =>
    decide_eq_true fun h => basePath.noNull (h ▸ hmem)
  exact List.takeWhile_append_of_pos hbase

/-- It is below the root exactly when it starts with a slash and no part of it goes up. -/
theorem contained_absPath : Contained basePath (absPath basePath p) ↔
    ∃ rest, p.takeWhile (· ≠ 0) = 47 :: rest ∧ ascii ".." ∉ Search.split (ascii "/") rest := by
  unfold Contained
  rw [absPath_bytes]
  simp only [List.append_cancel_left_eq]

/-- A path that does not begin with a slash leads out of the document root. -/
theorem not_contained (h : p.head? ≠ some 47) : ¬ Contained basePath (absPath basePath p) := by
  rw [contained_absPath]
  rintro ⟨rest, heq, -⟩
  cases p with
  | nil => cases heq
  | cons ch p =>
    rw [List.takeWhile_cons] at heq
    split at heq
    · rw [List.cons_eq_cons] at heq
      exact h (by rw [heq.1, List.head?_cons])
    · cases heq

/-- A path that begins with a slash, with a suffix that does not end in a dot. -/
theorem contained (hp : ¬ ascii ".." <:+: p) (hslash : 47 ∉ q) (hnull : 0 ∉ q)
    (hlast : q.getLast? ≠ some 46) : Contained basePath (absPath basePath (47 :: p ++ q)) := by
  rw [contained_absPath]
  refine ⟨(p ++ q).takeWhile (· ≠ 0), by simp, fun hmem => ?_⟩
  rcases Search.mem_split hmem with ⟨x, y, heq, hy⟩
  have hstop := List.head?_dropWhile_not (· ≠ 0) (p ++ q)
  have hall : p ++ q = (x ++ ascii "..") ++ (y ++ (p ++ q).dropWhile (· ≠ 0)) := by
    rw [← List.append_assoc, List.append_assoc x, ← heq, List.takeWhile_append_dropWhile]
  generalize (p ++ q).dropWhile (· ≠ 0) = z at hstop hall
  rcases List.append_eq_append_iff.1 hall with ⟨l, hdots, hq⟩ | ⟨l, hp', -⟩
  · -- the dots end in the suffix
    have hy' : y = [] := by
      refine hy.resolve_right fun hstarts => hslash ?_
      have hmem : 47 ∈ y := hstarts.subset (by decide)
      rw [hq]
      simp [hmem]
    have hz : z = [] := by
      cases z with
      | nil => rfl
      | cons ch z =>
        have hch : ch = 0 := by simpa using hstop
        refine absurd ?_ hnull
        rw [hq, hch]
        simp
    rw [hy', hz, List.append_nil, List.append_nil] at hq
    subst hq
    have hends : (p ++ q).getLast? = some 46 := by
      rw [← hdots, List.getLast?_append]
      rfl
    cases hlastq : q.getLast? with
    | none =>
      rw [List.getLast?_eq_none_iff.1 hlastq, List.append_nil] at hdots
      exact hp ⟨x, [], by rw [List.append_nil, hdots]⟩
    | some ch =>
      rw [List.getLast?_append, hlastq] at hends
      exact hlast (hlastq.trans hends)
  · exact hp ⟨x, l, hp'.symm⟩

/-! ## What the accessor gives to the system -/

/-- `CheckFileCanRead` opens the path it is given, and no other. -/
theorem checkFileCanRead_gives (h : P (absPath basePath p)) :
    Gives P (checkFileCanRead os basePath p) fun _ => True :=
  (gives_note h).bind fun _ _ => gives_pure trivial

/-- The candidates are tried, and the one that is found is one of them. -/
theorem findCandidate_gives {candidates : List (List UInt8)}
    (h : ∀ p ∈ candidates, P (absPath basePath p)) :
    Gives P (findCandidate os basePath req candidates) fun out =>
      out.2 = none → out.1.realRequestPath ∈ candidates := by
  induction candidates with
  | nil => exact gives_pure fun hnone => by cases hnone
  | cons path candidates ih =>
    rw [List.forall_mem_cons] at h
    refine (checkFileCanRead_gives h.1).bind fun ret _ => ?_
    simp only
    split
    · -- found: this is the path that `ReadFile` will open
      refine gives_pure ?_
      intro _
      exact List.mem_cons_self
    · -- not found: the search goes on
      intro es
      rcases ih h.2 es with ⟨htrace, hout⟩
      exact ⟨htrace, fun out ho hnone => List.mem_cons_of_mem _ (hout out ho hnone)⟩
    · exact gives_pure fun hnone => by cases hnone
    · exact gives_pure fun hnone => by cases hnone
    · exact gives_pure fun hnone => by cases hnone

/-- `ReadFile` opens the path that was resolved, and no other. -/
theorem readFile_gives {res : HTTPResponse} (h : P (absPath basePath req.realRequestPath)) :
    Gives P (readFile os basePath req res) fun _ => True := by
  refine (checkFileCanRead_gives h).bind fun ret _ => ?_
  refine (gives_lift fun _ _ => trivial).bind fun _ _ => ?_
  refine (gives_note h).bind fun now _ => ?_
  split
  · exact gives_pure trivial
  · exact gives_lift fun _ _ => trivial

/-- `PreProcessing` touches candidates only, and settles on one of them. -/
theorem preProcessing_gives (h : ∀ p ∈ req.requestPathCandidates, P (absPath basePath p)) :
    Gives P (preProcessing os basePath req) fun out =>
      out.2 = none → out.1.realRequestPath ∈ req.requestPathCandidates :=
  (gives_lift fun _ _ => trivial).bind fun _ _ => findCandidate_gives h

/-- The first candidate is always tried. -/
theorem preProcessing_starts {path : List UInt8} {candidates : List (List UInt8)}
    (h : req.requestPathCandidates = path :: candidates) :
    Starts (absPath basePath path) (preProcessing os basePath req) := by
  refine starts_lift_bind (check_true (by simp [h])) ?_
  rw [h]
  have hcheck : Starts (absPath basePath path) (checkFileCanRead os basePath path) :=
    starts_note.bind fun _ => grows_pure _
  refine hcheck.bind fun ret => ?_
  simp only
  split
  · exact grows_pure _
  · exact (findCandidate_gives (P := fun _ => True) fun _ _ => trivial).grows
  · exact grows_pure _
  · exact grows_pure _
  · exact grows_pure _

end HTTPModuleFileAccessor

/-! ## Requests that are accepted -/

namespace HTTPServer

open HTTPModuleFileAccessor HTTPModuleRequestRewrite HTTPModuleRequestValidator

variable {os : ℕ → OS} {basePath : CString} {r req : HTTPRequest}

/-- A request that passes the validator has no `..` in its path. -/
theorem process_accepts (h : process r = .ok none) : ¬ ascii ".." <:+: r.originalRequestPath := by
  unfold process at h
  simp only at h
  split at h
  · cases h
  · split at h
    · cases h
    · split at h
      · cases h
      · rename_i hdots
        rw [not_or, not_not, Search.first_eq_none] at hdots
        exact hdots.1

theorem resolve_empty (hpath : r.originalRequestPath = []) :
    resolveRequestPathCandidates r = .error .assertion := by
  simp only [resolveRequestPathCandidates, hpath, check_false (not_not.2 rfl)]
  rfl

/-- A path with a final slash is not in the candidates. -/
theorem resolve_directory (hpath : r.originalRequestPath ≠ [])
    (hlast : r.originalRequestPath.getLast? = some 47) (hnone : r.requestPathCandidates = []) :
    resolveRequestPathCandidates r =
      .ok { r with requestPathCandidates := dirAccessSuffixes } := by
  simp only [resolveRequestPathCandidates, check_true hpath, ok_bind, if_pos hlast, hnone,
    List.nil_append]

/-- A path without a slash at its end is tried with each extension and without. -/
theorem resolve_file (hpath : r.originalRequestPath ≠ [])
    (hlast : r.originalRequestPath.getLast? ≠ some 47) (hnone : r.requestPathCandidates = []) :
    resolveRequestPathCandidates r = .ok { r with
      requestPathCandidates := compressedFileExtensions.map (r.originalRequestPath ++ ·) ++
        [r.originalRequestPath] } := by
  simp only [resolveRequestPathCandidates, check_true hpath, ok_bind, if_neg hlast, hnone,
    List.nil_append]

/-- The request goes on to the rewriter. -/
theorem onRequest_accepted (h : process r = .ok none) : onRequest os basePath r = (do
    let req ← resolveRequestPathCandidates r
    match ← preProcessing os basePath req with
    | (_, some res) => return res
    | (req, none) => readFile os basePath req (.new 200)) := by
  unfold onRequest
  rw [h]
  rfl

/-- Whatever all candidates satisfy, every path that is accessed satisfies. -/
theorem onRequest_gives (os : ℕ → OS) {P : CString → Prop} (haccept : process r = .ok none)
    (h : ∀ req, resolveRequestPathCandidates r = .ok req →
      ∀ p ∈ req.requestPathCandidates, P (absPath basePath p)) :
    Gives P (onRequest os basePath r) fun _ => True := by
  rw [onRequest_accepted haccept]
  refine (gives_lift h).bind fun req hreq => ?_
  refine (preProcessing_gives hreq).bind fun out hout => ?_
  split
  · exact gives_pure trivial
  · exact readFile_gives (hreq _ (hout rfl))

/-- The first access is to the first candidate. -/
theorem onRequest_starts (os : ℕ → OS) (basePath : CString) {path : List UInt8}
    {candidates : List (List UInt8)} (haccept : process r = .ok none)
    (hresolve : resolveRequestPathCandidates r = .ok req)
    (h : req.requestPathCandidates = path :: candidates) :
    Starts (absPath basePath path) (onRequest os basePath r) := by
  rw [onRequest_accepted haccept]
  refine starts_lift_bind hresolve ((preProcessing_starts h).bind fun out => ?_)
  split
  · exact grows_pure _
  · exact (readFile_gives (P := fun _ => True) trivial).grows

/-- The candidates for a path that begins or ends with a slash lie below the document root. -/
theorem candidates_contained (haccept : process r = .ok none)
    (hnone : r.requestPathCandidates = []) (hresolve : resolveRequestPathCandidates r = .ok req)
    (hslash : r.originalRequestPath.head? = some 47 ∨ r.originalRequestPath.getLast? = some 47) :
    ∀ p ∈ req.requestPathCandidates, Contained basePath (absPath basePath p) := by
  have hpath : r.originalRequestPath ≠ [] := by
    intro hpath
    cases (resolve_empty hpath).symm.trans hresolve
  by_cases hlast : r.originalRequestPath.getLast? = some 47
  · cases (resolve_directory hpath hlast hnone).symm.trans hresolve
    intro p hp
    obtain rfl := List.mem_singleton.1 hp
    exact contained (p := ascii "index.html") (q := []) (by decide) (by decide) (by decide)
      (by decide)
  · cases (resolve_file hpath hlast hnone).symm.trans hresolve
    have hhead := hslash.resolve_right hlast
    cases hpath : r.originalRequestPath with
    | nil =>
      rw [hpath] at hhead
      cases hhead
    | cons ch path =>
      rw [hpath] at hhead
      cases hhead
      -- the validator has found no dots
      have hdots : ¬ ascii ".." <:+: path := fun h =>
        process_accepts haccept (hpath ▸ h.trans (List.suffix_cons 47 path).isInfix)
      intro p hp
      rcases List.mem_append.1 hp with hp | hp
      · rw [compressedFileExtensions, List.map_singleton, List.mem_singleton] at hp
        rw [hp]
        exact contained hdots (by decide) (by decide) (by decide)
      · rw [List.mem_singleton] at hp
        rw [hp, ← List.append_nil (47 :: path)]
        exact contained hdots (by simp) (by simp) (by simp)

/-- A request that has come over a connection is accepted by the validator. All paths that are
given to the system for it lie below the document root if and only if its path begins or ends
with a slash, or is empty. -/
theorem contained_iff (boost : Boost) (codec : HTTPCodec) (os : ℕ → OS) (basePath : CString)
    (as : List HTTPCodec.Arrival) (k : HTTPConnection) (msgs : List Message) (msg : Message)
    (r : HTTPRequest)
    (hrun : run (HTTPCodec.receive boost codec) HTTPCodec.start as = .ok (k, msgs))
    (hmsg : msg ∈ msgs) (hreq : msg.callback = some (.request r))
    (haccept : process r = .ok none) :
    (∀ path ∈ trace (onRequest os basePath r) [], Contained basePath path) ↔
      r.originalRequestPath.head? = some 47 ∨ r.originalRequestPath.getLast? = some 47 ∨
        r.originalRequestPath = [] := by
  have hnone := HTTPCodec.parsed_candidates hrun hmsg hreq
  constructor
  · intro hall
    by_contra hnot
    rw [not_or, not_or] at hnot
    rcases hnot with ⟨hhead, hlast, hne⟩
    -- the first candidate is tried, and it has no slash behind the document root
    have hresolve := resolve_file hne hlast hnone
    rcases onRequest_starts os basePath haccept hresolve rfl [] with ⟨new, htrace⟩
    have hmem : absPath basePath (r.originalRequestPath ++ ascii ".gz") ∈
        trace (onRequest os basePath r) [] := by
      rw [htrace]
      simp
    refine not_contained ?_ (hall _ hmem)
    rwa [List.head?_append_of_ne_nil _ hne]
  · intro hslash
    by_cases hempty : r.originalRequestPath = []
    · -- the rewriter aborts
      have htrace : trace (onRequest os basePath r) [] = [] := by
        rw [onRequest_accepted haccept, resolve_empty hempty]
        rfl
      rw [htrace]
      simp
    · have hends : r.originalRequestPath.head? = some 47 ∨
          r.originalRequestPath.getLast? = some 47 :=
        hslash.imp_right fun h => h.resolve_right hempty
      obtain ⟨⟨new, htrace, hnew⟩, -⟩ := onRequest_gives os haccept
        (fun req hresolve => candidates_contained haccept hnone hresolve hends) []
      rw [htrace, List.nil_append]
      exact hnew

/-- All bytes come at once, and they are a request that meets `p`. -/
theorem run_whole (boost : Boost) (bytes : List UInt8) (p : HTTPRequest → Bool)
    (h : (run (HTTPCodec.receive boost codec) HTTPCodec.start [⟨bytes, .ofList bytes⟩]).map
      (fun out => out.2.map fun msg =>
        match msg.callback with
        | some (.request r) => p r
        | _ => false) = .ok [true]) :
    ∃ k msg r, run (HTTPCodec.receive boost codec) HTTPCodec.start [⟨bytes, .ofList bytes⟩] =
      .ok (k, [msg]) ∧ msg.callback = some (.request r) ∧ p r = true := by
  rcases map_ok.1 h with ⟨⟨k, msgs⟩, hrun, hcalls⟩
  rcases List.map_eq_singleton_iff.1 hcalls with ⟨msg, rfl, hcall⟩
  split at hcall
  · rename_i r hreq
    exact ⟨k, msg, r, hrun, hreq, hcall⟩
  · cases hcall

/-- A request for a directory. -/
theorem contained_iff_run : ∃ r : HTTPRequest, r.originalRequestPath = ascii "/pub/" ∧
    ∀ path ∈ trace (onRequest (fun _ => ⟨0, 0, fun _ => .error .ENOENT, fun _ => none,
      fun _ _ => none⟩) (cStr (ascii "/srv")) r) [], Contained (cStr (ascii "/srv")) path := by
  obtain ⟨k, msg, r, hrun, hreq, hr⟩ := run_whole .std (ascii "GET /pub/ HTTP/1.0\r\n\r\n")
    (fun r => decide (r.originalRequestPath = ascii "/pub/" ∧ process r = .ok none))
    (by decide +kernel)
  rcases of_decide_eq_true hr with ⟨hpath, haccept⟩
  refine ⟨r, hpath, (contained_iff .std codec _ _ _ k [msg] msg r hrun (List.mem_singleton_self _)
    hreq haccept).2 (.inl ?_)⟩
  rw [hpath]
  decide

/-- A request for `-old/key` reaches out of the document root. -/
theorem sibling_accessed : ∃ as k msgs msg r,
    run (HTTPCodec.receive .std codec) HTTPCodec.start as = .ok (k, msgs) ∧ msg ∈ msgs ∧
    msg.callback = some (.request r) ∧ process r = .ok none ∧
    cStr (ascii "/srv-old/key") ∈ trace (onRequest (fun _ => ⟨0, 0, fun _ => .error .ENOENT,
      fun _ => none, fun _ _ => none⟩) (cStr (ascii "/srv")) r) [] ∧
    ¬ Contained (cStr (ascii "/srv")) (cStr (ascii "/srv-old/key")) := by
  obtain ⟨k, msg, r, hrun, hreq, hr⟩ := run_whole .std (ascii "GET -old/key HTTP/1.0\r\n\r\n")
    (fun r => decide (process r = .ok none ∧ cStr (ascii "/srv-old/key") ∈
      trace (onRequest (fun _ => ⟨0, 0, fun _ => .error .ENOENT, fun _ => none, fun _ _ => none⟩)
        (cStr (ascii "/srv")) r) []))
    (by decide +kernel)
  rcases of_decide_eq_true hr with ⟨haccept, haccessed⟩
  refine ⟨_, k, [msg], msg, r, hrun, List.mem_singleton_self _, hreq, haccept, haccessed, ?_⟩
  have hpath : cStr (ascii "/srv-old/key") = absPath (cStr (ascii "/srv")) (ascii "-old/key") := by
    decide +kernel
  rw [hpath]
  exact not_contained (by decide)

end HTTPServer

end FxServer
