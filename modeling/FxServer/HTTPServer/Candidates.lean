import FxServer.HTTPServer.DocumentRoot

/-!
# FxServer.HTTPServer.Candidates — the candidates for a path

For a path that ends with a slash the rewriter takes the suffix alone, and forgets the directory.
For any other path it puts the extensions behind the path. An empty path, which a request line
with two spaces in a row has, fails its assertion.

The candidates can be read off the path in every case. The only one of a directory is the suffix,
which starts with the path exactly when the path, up to its final slash, is a start of the suffix.

* `Usable` — there are candidates, and all of them start with the path.
* `usable_iff` — the requests for which that is so.
* `unusable_accepted` — requests that the validator accepts, and for which it is not.
-/

namespace FxServer.HTTPServer

open Machine HTTPModuleRequestRewrite HTTPModuleRequestValidator

/-- A path without its final slash. -/
def stem (path : List UInt8) : List UInt8 :=
  if path.getLast? = some 47 then path.dropLast else path

/-- The rewriter does not fail, and leaves candidates that start with the path of the request, up
to a final slash. -/
def Usable (r : HTTPRequest) : Prop :=
  ∃ req, resolveRequestPathCandidates r = .ok req ∧ req.requestPathCandidates ≠ [] ∧
    ∀ p ∈ req.requestPathCandidates, stem r.originalRequestPath <+: p

/-- A request comes over a connection, in any chunks. The rewriter leaves usable candidates for it
if and only if its path is not empty, and a final slash is not behind anything but a part of
`/index.html`. Whether the validator accepts the request does not matter. -/
theorem usable_iff (boost : Boost) (codec : HTTPCodec) (as : List HTTPCodec.Arrival)
    (k : HTTPConnection) (msgs : List Message) (msg : Message) (r : HTTPRequest)
    (hrun : run (HTTPCodec.receive boost codec) HTTPCodec.start as = .ok (k, msgs))
    (hmsg : msg ∈ msgs) (hreq : msg.callback = some (.request r)) :
    Usable r ↔ r.originalRequestPath ≠ [] ∧ (r.originalRequestPath.getLast? = some 47 →
      r.originalRequestPath.dropLast <+: ascii "/index.html") := by
  have hnone := HTTPCodec.parsed_candidates hrun hmsg hreq
  by_cases hpath : r.originalRequestPath = []
  · refine iff_of_false ?_ fun h => h.1 hpath
    rintro ⟨req, hresolve, -⟩
    cases (resolve_empty hpath).symm.trans hresolve
  · by_cases hlast : r.originalRequestPath.getLast? = some 47
    · have hresolve := resolve_directory hpath hlast hnone
      have hstem : stem r.originalRequestPath = r.originalRequestPath.dropLast := if_pos hlast
      constructor
      · rintro ⟨req, hresolve', -, hall⟩
        cases hresolve.symm.trans hresolve'
        refine ⟨hpath, fun _ => ?_⟩
        rw [← hstem]
        exact hall _ (List.mem_singleton_self _)
      · rintro ⟨-, hindex⟩
        refine ⟨_, hresolve, List.cons_ne_nil _ _, fun p hp => ?_⟩
        obtain rfl := List.mem_singleton.1 hp
        rw [hstem]
        exact hindex hlast
    · have hstem : stem r.originalRequestPath = r.originalRequestPath := if_neg hlast
      refine iff_of_true ⟨_, resolve_file hpath hlast hnone, ?_, fun p hp => ?_⟩
        ⟨hpath, fun h => absurd h hlast⟩
      · exact List.append_ne_nil_of_right_ne_nil _ (List.cons_ne_nil _ _)
      · -- an extension, or the path itself
        rw [hstem]
        rcases List.mem_append.1 hp with hp | hp
        · rcases List.mem_map.1 hp with ⟨extension, -, rfl⟩
          exact List.prefix_append _ _
        · rw [List.mem_singleton.1 hp]

/-- A request for a file. -/
theorem usable_iff_run : ∃ r : HTTPRequest, r.originalRequestPath = ascii "/pub/a.txt" ∧
    Usable r := by
  obtain ⟨k, msg, r, hrun, hreq, hr⟩ := run_whole .std (ascii "GET /pub/a.txt HTTP/1.0\r\n\r\n")
    (fun r => decide (r.originalRequestPath = ascii "/pub/a.txt")) (by decide +kernel)
  have hpath : r.originalRequestPath = ascii "/pub/a.txt" := of_decide_eq_true hr
  refine ⟨r, hpath, (usable_iff .std codec _ k [msg] msg r hrun (List.mem_singleton_self _)
    hreq).2 ?_⟩
  rw [hpath]
  decide

/-- Requests that the validator accepts: one for a directory, for which the index of the document
root is taken, and one with two spaces in a row, for which the rewriter aborts. -/
theorem unusable_accepted :
    (∃ as k msgs msg r, run (HTTPCodec.receive .std codec) HTTPCodec.start as = .ok (k, msgs) ∧
      msg ∈ msgs ∧ msg.callback = some (.request r) ∧ process r = .ok none ∧
      r.originalRequestPath = ascii "/pub/" ∧
      (resolveRequestPathCandidates r).map HTTPRequest.requestPathCandidates =
        .ok [ascii "/index.html"] ∧ ¬ Usable r) ∧
    ∃ as k msgs msg r, run (HTTPCodec.receive .std codec) HTTPCodec.start as = .ok (k, msgs) ∧
      msg ∈ msgs ∧ msg.callback = some (.request r) ∧ process r = .ok none ∧
      resolveRequestPathCandidates r = .error .assertion := by
  constructor
  · obtain ⟨k, msg, r, hrun, hreq, hr⟩ := run_whole .std (ascii "GET /pub/ HTTP/1.0\r\n\r\n")
      (fun r => decide (process r = .ok none ∧ r.originalRequestPath = ascii "/pub/" ∧
        (resolveRequestPathCandidates r).map HTTPRequest.requestPathCandidates =
          .ok [ascii "/index.html"]))
      (by decide +kernel)
    rcases of_decide_eq_true hr with ⟨haccept, hpath, hcandidates⟩
    refine ⟨_, k, [msg], msg, r, hrun, List.mem_singleton_self _, hreq, haccept, hpath,
      hcandidates, ?_⟩
    -- the only candidate is not below the path that was asked for
    rintro ⟨req, hresolve, -, hall⟩
    rw [hresolve, Except.map, Except.ok.injEq] at hcandidates
    have hstarts := hall (ascii "/index.html") (by simp [hcandidates])
    rw [hpath] at hstarts
    exact absurd hstarts (by decide)
  · obtain ⟨k, msg, r, hrun, hreq, hr⟩ := run_whole .std (ascii "GET  HTTP/1.0\r\n\r\n")
      (fun r => decide (process r = .ok none ∧ r.originalRequestPath = [])) (by decide +kernel)
    rcases of_decide_eq_true hr with ⟨haccept, hpath⟩
    exact ⟨_, k, [msg], msg, r, hrun, List.mem_singleton_self _, hreq, haccept,
      resolve_empty hpath⟩

end FxServer.HTTPServer
