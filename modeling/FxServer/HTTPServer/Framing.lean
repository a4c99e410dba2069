import FxServer.HTTPServer

/-!
# FxServer.HTTPServer.Framing — how a client tells the header from the body

A client takes what comes before the first blank line for the header, and the rest for the body.
`EncodeResponse` writes the blank line, like `Content-Length`, only when there is a body. Without
one the header does not end, and the client waits for the connection to be closed.

The header is made of lines without a carriage return, and the search for the blank line is the
search of `FxServer.Search`. So the client finds the first blank line exactly behind the last
header line, provided one has been written.

* `splitHead` — what the client does.
* `encodeResponse_lines` — the lines that are written.
* `framed_iff` — the client gets the lines and the body if and only if there is a body.
-/

namespace FxServer

/-! ## Text without a separator -/

section Text

/-- A literal is looked at character by character, not as the bytes of its encoding. -/
theorem not_mem_ascii {b : UInt8} {l : List Char}
    (h : b ∉ l.map fun ch => UInt8.ofNat ch.toNat) : b ∉ ascii (String.ofList l) := by
  rwa [ascii, String.toList_ofList]

/-- Digits are no carriage returns. -/
theorem formatUnsigned_noCR (n : ℕ) : 13 ∉ formatUnsigned n := by
  intro hmem
  rcases List.mem_map.1 hmem with ⟨ch, hch, heq⟩
  have hdigit := Nat.isDigit_of_mem_toDigits (by decide) (by decide) hch
  obtain ⟨hle, hge⟩ : 48 ≤ ch.toNat ∧ ch.toNat ≤ 57 := by
    simpa [Char.isDigit, UInt32.le_iff_toNat_le] using hdigit
  have hnat : ch.toNat % 256 = 13 := by simpa using congrArg UInt8.toNat heq
  omega

theorem formatPadded_noCR (n : ℕ) : 13 ∉ formatPadded n := by
  unfold formatPadded
  split
  · rw [List.mem_append, not_or]
    exact ⟨by decide, formatUnsigned_noCR n⟩
  · exact formatUnsigned_noCR n

/-- A date has no carriage return in it. -/
theorem rfc1123Time_noCR (now : Ptime) : 13 ∉ rfc1123Time now := by
  have hweekday : ∀ i, 13 ∉ weekdayNames.get i := by decide
  have hmonth : ∀ i, 13 ∉ monthNames.get i := by decide
  unfold rfc1123Time
  simp only [List.mem_append, not_or, formatUnsigned_noCR, formatPadded_noCR, hweekday, hmonth,
    not_false_eq_true, and_true, true_and]
  decide

example : rfc1123Time ⟨0, 6, 10, 1994, 8, 49, 37⟩ = ascii "Sun, 06 Nov 1994 08:49:37 GMT" := by
  decide +kernel

/-- No reason phrase has one in it. -/
theorem statusToReason_noCR (status : ℕ) : 13 ∉ HTTPCodec.statusToReason status := by
  unfold HTTPCodec.statusToReason
  split
  any_goals
    refine not_mem_ascii ?_
    decide
  exact List.not_mem_nil

end Text

namespace HTTPServer

/-- The status line and the header lines of a response. -/
def responseLines (res : HTTPResponse) (now : Ptime) : List (List UInt8) :=
  [res.httpVersion ++ ascii " " ++ formatUnsigned res.status ++ ascii " " ++
      HTTPCodec.statusToReason res.status,
    ascii "Date: " ++ rfc1123Time now,
    ascii "Server: FX Server/0.0.1",
    ascii "Content-Type: text/html",
    ascii "Connection: close"] ++
  if res.bodyLength ≠ 0 then [ascii "Content-Length: " ++ formatUnsigned res.bodyLength] else []

/-- The bytes of the body, from memory or from a file. -/
def bodyBytes (files : Files) (res : HTTPResponse) : List UInt8 :=
  if res.isZeroCopyBody then Cyclic.get (files res.zeroCopyFd) 0 res.bodyLength else res.body

def headerBodySep : List UInt8 := [13, 10, 13, 10]

/-- A client reads lines up to the blank line, and the body behind it. -/
def splitHead (d : List UInt8) : Option (List (List UInt8) × List UInt8) :=
  (Search.first headerBodySep d).map fun n =>
    (Search.split HTTPCodec.headerSep (d.take n), d.drop (n + headerBodySep.length))

/-- The client gets the lines that were written, and a body of the right length. -/
def Framed (files : Files) (res : HTTPResponse) (now : Ptime) (out : List UInt8) : Prop :=
  (bodyBytes files res).length = res.bodyLength ∧
    splitHead out = some (responseLines res now, bodyBytes files res)

variable {files : Files} {res : HTTPResponse} {now : Ptime} {conn conn' : TcpConnection}

/-- The body has the length that the response says. -/
theorem length_bodyBytes (files : Files) (res : HTTPResponse) :
    (bodyBytes files res).length = res.bodyLength := by
  unfold bodyBytes
  split
  · exact Cyclic.length_get _ _ _
  · exact res.length_body

/-- Every line of the head is one line, and not empty. -/
theorem responseLines_noCR (res : HTTPResponse) (now : Ptime) :
    ∀ line ∈ responseLines res now, 13 ∉ line ∧ line ≠ [] := by
  have hversion : 13 ∉ res.httpVersion := by
    unfold HTTPResponse.httpVersion
    simp only [List.mem_append, not_or, formatUnsigned_noCR, not_false_eq_true, and_true]
    decide
  -- the line for the length, which a response without a body does not have
  have hlength : ∀ line ∈ if res.bodyLength ≠ 0 then
      [ascii "Content-Length: " ++ formatUnsigned res.bodyLength] else [],
      13 ∉ line ∧ line ≠ [] := by
    split
    · rw [List.forall_mem_singleton, List.mem_append, not_or]
      exact ⟨⟨by decide, formatUnsigned_noCR _⟩, List.append_ne_nil_of_left_ne_nil (by decide) _⟩
    · simp
  refine List.forall_mem_append.2 ⟨?_, hlength⟩
  simp only [List.forall_mem_cons, List.mem_append, not_or, hversion, formatUnsigned_noCR,
    statusToReason_noCR, rfc1123Time_noCR, not_false_eq_true, and_true, true_and]
  refine ⟨⟨by decide, ?_⟩, ⟨by decide, ?_⟩, by decide, by decide, by decide, by simp⟩
  · simp [ascii]
  · exact List.append_ne_nil_of_left_ne_nil (by decide) _

/-- Every line is ended by a separator, and a blank line follows if there is a body. -/
theorem encodeResponse_lines (res : HTTPResponse) (now : Ptime) :
    HTTPCodec.encodeResponse res now =
      ((responseLines res now).map (· ++ HTTPCodec.headerSep)).flatten ++
        if res.bodyLength ≠ 0 then HTTPCodec.headerSep else [] := by
  unfold HTTPCodec.encodeResponse responseLines
  by_cases hbody : res.bodyLength ≠ 0
  · simp only [if_pos hbody]
    simp
  · simp only [if_neg hbody]
    simp

/-- What is written. -/
theorem writeResponseAndClose_issued
    (h : writeResponseAndClose files conn res now = .ok conn') :
    conn'.issued = conn.issued ++ (HTTPCodec.encodeResponse res now ++ bodyBytes files res) := by
  rcases bind_ok.1 h with ⟨conn₁, hwrite, h⟩
  -- first the head
  rcases TcpConnection.write_frame hwrite with ⟨writeBuf, rfl⟩
  unfold bodyBytes
  split at h
  · rename_i hbody
    split at h
    · rename_i hzero
      cases h
      rw [if_pos hzero]
      -- then the body, from a file
      simp [TcpConnection.zeroCopyWrite]
    · rename_i hzero
      -- or from memory
      rcases TcpConnection.write_frame h with ⟨writeBuf', rfl⟩
      rw [if_neg hzero]
      simp
  · rename_i hbody
    cases h
    -- and nothing where the length is 0
    have hlen := length_bodyBytes files res
    rw [not_not.1 hbody, List.length_eq_zero_iff] at hlen
    rw [bodyBytes] at hlen
    rw [hlen, List.append_nil]

/-- The blank line is the first, and the lines come back. -/
theorem splitHead_body (hbody : res.bodyLength ≠ 0) (body : List UInt8) :
    splitHead (HTTPCodec.encodeResponse res now ++ body) =
      some (responseLines res now, body) := by
  have hne : responseLines res now ≠ [] := by simp [responseLines]
  have hlines := responseLines_noCR res now
  -- the head is its lines, and an empty line in front of the body
  have hhead : HTTPCodec.encodeResponse res now ++ body =
      List.intercalate HTTPCodec.headerSep (responseLines res now) ++ (headerBodySep ++ body) := by
    rw [encodeResponse_lines, if_pos hbody, Search.flatten_lines hne]
    simp [headerBodySep, HTTPCodec.headerSep]
  -- no line is empty or holds a separator, so the first empty line is that one
  have hfirst := Search.first_intercalate (a := 13) (p := [10]) (by decide) hne hlines body
  have hsplit := Search.split_intercalate (a := 13) (p := [10]) hne fun l hl => (hlines l hl).1
  unfold splitHead
  rw [hhead]
  refine (congrArg (Option.map _) hfirst).trans ?_
  rw [Option.map_some]
  refine congrArg some (Prod.ext ?_ ?_)
  · exact (congrArg _ (List.take_left ..)).trans hsplit
  · simp only [← List.append_assoc]
    exact List.drop_left' (List.length_append ..)

/-- Without a body there is no blank line. -/
theorem splitHead_nobody (hbody : res.bodyLength = 0) :
    splitHead (HTTPCodec.encodeResponse res now) = none := by
  have hlines := responseLines_noCR res now
  have hfirst := Search.first_lines (a := 13) (p := [10]) (by decide) hlines
  unfold splitHead
  rw [encodeResponse_lines, if_neg (not_not.2 hbody), List.append_nil, Option.map_eq_none_iff]
  exact hfirst

/-- What `WriteResponseAndClose` writes behind what was written before can be read by a client
if and only if the response has a body. -/
theorem framed_iff (files : Files) (conn conn' : TcpConnection) (res : HTTPResponse) (now : Ptime)
    (h : writeResponseAndClose files conn res now = .ok conn') :
    ∃ out, conn'.issued = conn.issued ++ out ∧
      (Framed files res now out ↔ res.bodyLength ≠ 0) := by
  refine ⟨_, writeResponseAndClose_issued h, ?_⟩
  by_cases hbody : res.bodyLength = 0
  · have hlen := length_bodyBytes files res
    rw [hbody, List.length_eq_zero_iff] at hlen
    unfold Framed
    rw [hlen, List.append_nil, splitHead_nobody hbody]
    simp [hbody]
  · exact iff_of_true ⟨length_bodyBytes files res, splitHead_body hbody _⟩ hbody

/-- A response with a body, on a new connection. -/
theorem framed_iff_run : ∃ conn' out,
    writeResponseAndClose (fun _ _ => 0) (.new 0 5 .kConnected)
      ((HTTPResponse.new 200).setBody (ascii "hi")) ⟨4, 24, 3, 2014, 16, 43, 26⟩ = .ok conn' ∧
    conn'.issued = out ∧ Framed (fun _ _ => 0) ((HTTPResponse.new 200).setBody (ascii "hi"))
      ⟨4, 24, 3, 2014, 16, 43, 26⟩ out := by
  have hresult : (writeResponseAndClose (fun _ _ => 0) (.new 0 5 .kConnected)
      ((HTTPResponse.new 200).setBody (ascii "hi")) ⟨4, 24, 3, 2014, 16, 43, 26⟩).map
        (fun _ => ()) = .ok () := by
    decide +kernel
  rcases map_ok.1 hresult with ⟨conn', hrun, -⟩
  rcases framed_iff _ _ _ _ _ hrun with ⟨out, hissued, hframed⟩
  exact ⟨conn', out, hrun, hissued, hframed.2 (by decide)⟩

/-- The response to a request for a file that is not there. -/
theorem notFound_unframed : ∃ conn',
    writeResponseAndClose (fun _ _ => 0) (.new 0 5 .kConnected) (makeResponse 404)
      ⟨4, 24, 3, 2014, 16, 43, 26⟩ = .ok conn' ∧
    conn'.issued = ascii "HTTP/1.0 404 Not Found\r\nDate: Thu, 24 Apr 2014 16:43:26 GMT\r\n" ++
      ascii "Server: FX Server/0.0.1\r\nContent-Type: text/html\r\nConnection: close\r\n" ∧
    ¬ Framed (fun _ _ => 0) (makeResponse 404) ⟨4, 24, 3, 2014, 16, 43, 26⟩ conn'.issued := by
  have hresult : (writeResponseAndClose (fun _ _ => 0) (.new 0 5 .kConnected) (makeResponse 404)
      ⟨4, 24, 3, 2014, 16, 43, 26⟩).map TcpConnection.issued =
        .ok (ascii "HTTP/1.0 404 Not Found\r\nDate: Thu, 24 Apr 2014 16:43:26 GMT\r\n" ++
          ascii "Server: FX Server/0.0.1\r\nContent-Type: text/html\r\nConnection: close\r\n") := by
    decide +kernel
  rcases map_ok.1 hresult with ⟨conn', hrun, hissued⟩
  refine ⟨conn', hrun, hissued, fun hframed => ?_⟩
  have hnone : splitHead conn'.issued = none := by
    rw [hissued]
    decide +kernel
  cases hnone.symm.trans hframed.2

end HTTPServer

end FxServer
