import FxServer.Loop
import FxServer.TcpConnection.Output

/-!
# FxServer.TcpConnection.Ends — does `WriteToPeer` come to an end?

`WriteToPeer` leaves its loops when everything has been written or a call returns `-1`. A
`write` that returns something takes at least a byte; `sendfile` takes nothing at the end of the
file, and the loop over the file does not look for that.

The results of the kernel are not a list here but answers that may depend on everything before.
The loop over the buffer has the number of buffered bytes for a measure. The loop over the file
has one as long as the file goes on; behind its end the kernel may answer 0, and then nothing has
changed.

* `writes_finish` — the loop over the write buffer is always left.
* `writeToPeer_ends_iff` — both loops are left, whatever the kernel does, exactly when the unsent
  part of the range lies in the file.
* `short_file_spins` — four bytes are to be sent of a file that has three.
-/

namespace FxServer

/-- The error other than `EAGAIN` that the result stands for. -/
def IoResult.failure : IoResult → Option Bool
  | .error shutdown => some shutdown
  | .ok _ | .again => none

namespace TcpConnection

open Machine Loop

/-! ## Rounds -/

/-- A round of the loop over the write buffer: the connection in the next one. -/
def writeRound (k : TcpConnection) (r : IoResult) : Except Fault (Option TcpConnection) :=
  if k.writeBuf.bytesToRead = 0 then .ok none
  else
    match r with
    | .again | .error _ => .ok none
    | .ok n => do
      let k ← k.accept n
      .ok (some k)

/-- A round of the loop over the file. -/
def sendfileRound (files : Files) (k : TcpConnection) (r : IoResult) :
    Except Fault (Option TcpConnection) :=
  if k.zeroCopyWriteFd = -1 ∨ k.zeroCopyWritedLen = k.zeroCopyLen then .ok none
  else
    match r with
    | .again | .error _ => .ok none
    | .ok n => do
      let k ← k.acceptFile files n
      .ok (some k)

/-- The loop over the write buffer is these rounds, one for each result. -/
theorem writeLoop_cons (k : TcpConnection) (r : IoResult) (rs : List IoResult) :
    writeLoop (r :: rs) k = (do
      match ← writeRound k r with
      | some k' => writeLoop rs k'
      | none =>
        if k.writeBuf.bytesToRead = 0 then .ok (k, none, r :: rs)
        else .ok (k, r.failure, rs)) := by
  conv_lhs => unfold writeLoop
  unfold writeRound
  by_cases hempty : k.writeBuf.bytesToRead = 0
  · simp only [hempty, if_true, ok_bind]
  · simp only [hempty, if_false]
    cases r with
    | again => rfl
    | error shutdown => rfl
    | ok n =>
      cases haccept : k.accept n with
      | error fault =>
        simp only [haccept]
        rfl
      | ok k' => simp only [haccept, ok_bind]

/-- The loop over the file is made of its rounds in the same way. -/
theorem sendfileLoop_cons (files : Files) (k : TcpConnection) (r : IoResult)
    (rs : List IoResult) :
    sendfileLoop files (r :: rs) k = (do
      match ← sendfileRound files k r with
      | some k' => sendfileLoop files rs k'
      | none =>
        if k.zeroCopyWriteFd = -1 ∨ k.zeroCopyWritedLen = k.zeroCopyLen then .ok (k, none)
        else .ok (k, r.failure)) := by
  conv_lhs => unfold sendfileLoop
  unfold sendfileRound
  by_cases hdone : k.zeroCopyWriteFd = -1 ∨ k.zeroCopyWritedLen = k.zeroCopyLen
  · simp only [hdone, if_true, ok_bind]
  · simp only [hdone, if_false]
    cases r with
    | again => rfl
    | error shutdown => rfl
    | ok n =>
      cases haccept : k.acceptFile files n with
      | error fault =>
        simp only [haccept]
        rfl
      | ok k' => simp only [haccept, ok_bind]

/-! ## What the kernel may answer -/

/-- `write` fails, or takes at least one of the bytes. -/
def WriteAllows (k : TcpConnection) : IoResult → Prop
  | .ok n => 1 ≤ n ∧ n ≤ k.writeBuf.bytesToRead
  | .again | .error _ => True

/-- `sendfile` fails, or takes at least one byte of what is asked for and there, or is at the
end of the file, which has `length` bytes. -/
def SendfileAllows (length : ℕ) (k : TcpConnection) : IoResult → Prop
  | .ok n =>
    n ≤ k.zeroCopyLen - k.zeroCopyWritedLen ∧
      if k.zeroCopyWriteOffset < length then 1 ≤ n ∧ k.zeroCopyWriteOffset + n ≤ length
      else n = 0
  | .again | .error _ => True

/-- Both loops of `WriteToPeer` are left, whatever the kernel answers. -/
structure Ends (files : Files) (length : ℕ) (k : TcpConnection) : Prop where
  /-- the loop over the buffer is left -/
  writes : Finishes writeRound WriteAllows k
  /-- and the loop over the file behind it -/
  sends : ∀ results k₁ failed rest k₂ called, writeLoop results k = .ok (k₁, failed, rest) →
    closeFailed k₁ failed = .ok (k₂, called) →
    Finishes (sendfileRound files) (SendfileAllows length) k₂

/-! ## The loop over the write buffer -/

/-- A round in which the kernel takes `n` bytes leaves `n` fewer. -/
theorem writeRound_ok {k : TcpConnection} {n : ℕ} (hsome : k.writeBuf.bytesToRead ≠ 0)
    (hn : n ≤ k.writeBuf.bytesToRead) :
    ∃ k', writeRound k (.ok n) = .ok (some k') ∧
      k'.writeBuf.bytesToRead = k.writeBuf.bytesToRead - n := by
  rcases Buffer.consumeBytes_of_le hn with ⟨writeBuf, hok, hread⟩
  refine ⟨{ k with writeBuf, sent := k.sent ++ k.writeBuf.readable.take n }, ?_, ?_⟩
  · unfold writeRound accept
    rw [if_neg hsome]
    simp only [hok, ok_bind]
  · show writeBuf.bytesToRead = _
    rw [← Buffer.length_readable, hread, List.length_drop, Buffer.length_readable]

/-- Every round takes at least one byte, so the loop over the buffer ends. -/
theorem writes_finish (k : TcpConnection) : Finishes writeRound WriteAllows k := by
  refine finishes_of_measure (fun _ => True) (fun k => k.writeBuf.bytesToRead)
    (fun k r _ hallows => ?_) trivial
  by_cases hempty : k.writeBuf.bytesToRead = 0
  · exact ⟨none, if_pos hempty, by simp⟩
  · cases r with
    | again => exact ⟨none, if_neg hempty, by simp⟩
    | error shutdown => exact ⟨none, if_neg hempty, by simp⟩
    | ok n =>
      -- `write` takes at least one byte, so fewer are left
      rcases hallows with ⟨hpos, hle⟩
      rcases writeRound_ok hempty hle with ⟨k', hround, hbytes⟩
      refine ⟨some k', hround, fun k₁ hk₁ => ?_⟩
      cases hk₁
      exact ⟨trivial, by omega⟩

/-! ## The loop over the file -/

/-- Nothing is left of the range, or what is left lies in the file. -/
def InFile (length : ℕ) (k : TcpConnection) : Prop :=
  k.zeroCopyWriteFd = -1 ∨ k.zeroCopyWritedLen = k.zeroCopyLen ∨
    k.zeroCopyWriteOffset + (k.zeroCopyLen - k.zeroCopyWritedLen) ≤ length

instance (length : ℕ) (k : TcpConnection) : Decidable (InFile length k) := by
  unfold InFile
  infer_instance

/-- The connection when `sendfile` has taken `n` bytes more. -/
def advance (files : Files) (k : TcpConnection) (n : ℕ) : TcpConnection :=
  { k with
    zeroCopyWriteOffset := k.zeroCopyWriteOffset + n
    zeroCopyWritedLen := k.zeroCopyWritedLen + n
    sent := k.sent ++ Cyclic.get (files k.zeroCopyWriteFd) k.zeroCopyWriteOffset n }

/-- A round in which `sendfile` sends `n` bytes advances by `n`. -/
theorem sendfileRound_ok {files : Files} {k : TcpConnection} {n : ℕ}
    (hfd : k.zeroCopyWriteFd ≠ -1) (hmore : k.zeroCopyWritedLen ≠ k.zeroCopyLen)
    (hle : k.zeroCopyWritedLen ≤ k.zeroCopyLen) (hn : n ≤ k.zeroCopyLen - k.zeroCopyWritedLen) :
    sendfileRound files k (.ok n) = .ok (some (k.advance files n)) := by
  unfold sendfileRound acceptFile
  rw [if_neg (not_or.2 ⟨hfd, hmore⟩)]
  simp only [check_true hle, check_true hn, ok_bind]
  rfl

/-- Within the file every round sends at least one byte. -/
theorem sends_finish {files : Files} {length : ℕ} {k : TcpConnection}
    (hle : k.zeroCopyWritedLen ≤ k.zeroCopyLen) (hfile : InFile length k) :
    Finishes (sendfileRound files) (SendfileAllows length) k := by
  refine finishes_of_measure
    (fun k => k.zeroCopyWritedLen ≤ k.zeroCopyLen ∧ InFile length k)
    (fun k => k.zeroCopyLen - k.zeroCopyWritedLen) (fun k r hk hallows => ?_) ⟨hle, hfile⟩
  rcases hk with ⟨hle, hfile⟩
  by_cases hdone : k.zeroCopyWriteFd = -1 ∨ k.zeroCopyWritedLen = k.zeroCopyLen
  · exact ⟨none, if_pos hdone, by simp⟩
  · cases r with
    | again => exact ⟨none, if_neg hdone, by simp⟩
    | error shutdown => exact ⟨none, if_neg hdone, by simp⟩
    | ok n =>
      rcases not_or.1 hdone with ⟨hfd, hmore⟩
      rcases hallows with ⟨hn, hallows⟩
      have hinside : k.zeroCopyWriteOffset + (k.zeroCopyLen - k.zeroCopyWritedLen) ≤ length :=
        (hfile.resolve_left hfd).resolve_left hmore
      -- the end of the file is not reached before the end of the range
      rw [if_pos (by omega)] at hallows
      refine ⟨some (k.advance files n), sendfileRound_ok hfd hmore hle hn, fun k' hk' => ?_⟩
      cases hk'
      refine ⟨⟨?_, .inr (.inr ?_)⟩, ?_⟩
      all_goals
        unfold advance
        dsimp only
        omega

/-- Up to the end of the file, and then nothing, time after time. -/
theorem sends_forever {files : Files} {length : ℕ} {k : TcpConnection}
    (hle : k.zeroCopyWritedLen ≤ k.zeroCopyLen) (hfile : ¬ InFile length k) :
    ¬ Finishes (sendfileRound files) (SendfileAllows length) k := by
  refine not_finishes_of_forever
    (fun k => k.zeroCopyWritedLen ≤ k.zeroCopyLen ∧ ¬ InFile length k) (fun k hk => ?_)
    ⟨hle, hfile⟩
  rcases hk with ⟨hle, hfile⟩
  unfold InFile at hfile
  rw [not_or, not_or] at hfile
  rcases hfile with ⟨hfd, hmore, hbehind⟩
  have hn : length - k.zeroCopyWriteOffset ≤ k.zeroCopyLen - k.zeroCopyWritedLen := by omega
  -- `sendfile` sends what is left of the file, and from then on 0 bytes each time
  have hallows : SendfileAllows length k (.ok (length - k.zeroCopyWriteOffset)) := by
    refine ⟨hn, ?_⟩
    split <;> omega
  refine ⟨_, k.advance files _, hallows, sendfileRound_ok hfd hmore hle hn, ?_, ?_⟩
  · unfold advance
    dsimp only
    omega
  · unfold InFile
    rw [not_or, not_or]
    refine ⟨hfd, ?_, ?_⟩
    all_goals
      unfold advance
      dsimp only
      omega

/-- Behind its end `sendfile` sends none, over and over. -/
theorem sends_finish_iff {files : Files} {length : ℕ} {k : TcpConnection}
    (hle : k.zeroCopyWritedLen ≤ k.zeroCopyLen) :
    Finishes (sendfileRound files) (SendfileAllows length) k ↔ InFile length k := by
  constructor
  · intro h
    by_contra hfile
    exact sends_forever hle hfile h
  · exact sends_finish hle

/-! ## WriteToPeer -/

/-- No round sends more of the file than was asked for. -/
theorem sendfileLoop_writed_le {files : Files} {rs : List IoResult} {k k' : TcpConnection}
    {failed : Option Bool} (hle : k.zeroCopyWritedLen ≤ k.zeroCopyLen)
    (hok : sendfileLoop files rs k = .ok (k', failed)) :
    k'.zeroCopyWritedLen ≤ k'.zeroCopyLen := by
  induction rs generalizing k with
  | nil =>
    cases hok
    exact hle
  | cons r rs ih =>
    rw [sendfileLoop_cons] at hok
    rcases bind_ok.1 hok with ⟨next, hround, hok⟩
    cases next with
    | none =>
      dsimp only at hok
      split at hok
      · -- the socket is full
        cases hok
        exact hle
      · -- `sendfile` fails
        cases hok
        exact hle
    | some k₁ =>
      refine ih ?_ hok
      unfold sendfileRound at hround
      split at hround
      · cases hround
      · split at hround
        · cases hround
        · cases hround
        · rcases bind_ok.1 hround with ⟨k₂, haccept, hround⟩
          cases hround
          rcases bind_ok.1 haccept with ⟨_, -, haccept⟩
          rcases bind_ok.1 haccept with ⟨_, hn, haccept⟩
          rw [check_ok] at hn
          cases haccept
          dsimp only
          omega

/-- What the loop over the file asserts holds in every state of a run. -/
theorem step_writed_le {files : Files} {k k' : TcpConnection} {op : Op} {called : List Called}
    (hle : k.zeroCopyWritedLen ≤ k.zeroCopyLen) (hok : step files k op = .ok (k', called)) :
    k'.zeroCopyWritedLen ≤ k'.zeroCopyLen := by
  cases op with
  | write buf =>
    rcases bind_ok.1 hok with ⟨k₁, hwrite, hok⟩
    cases hok
    rcases write_frame hwrite with ⟨writeBuf, rfl⟩
    exact hle
  -- a new file starts at 0
  | zeroCopyWrite fd offset len =>
    cases hok
    exact Nat.zero_le _
  | writeToPeer results =>
    rcases bind_ok.1 hok with ⟨⟨k₁, failed₁, rest⟩, hwrite, hok⟩
    rcases bind_ok.1 hok with ⟨⟨k₂, called₂⟩, hclose, hok⟩
    rcases bind_ok.1 hok with ⟨⟨k₃, failed₃⟩, hsendfile, hok⟩
    rcases bind_ok.1 hok with ⟨⟨k₄, called₄⟩, hclose', hok⟩
    rcases writeLoop_frame hwrite with ⟨writeBuf, sent, rfl⟩
    rcases closeFailed_inv hclose with ⟨⟨channel, state, rfl⟩, -⟩
    -- only the loop of `sendfile` adds to what is written
    have hle₃ : k₃.zeroCopyWritedLen ≤ k₃.zeroCopyLen := by
      refine sendfileLoop_writed_le ?_ hsendfile
      exact hle
    rcases closeFailed_inv hclose' with ⟨⟨channel', state', rfl⟩, -⟩
    simp only at hok
    split at hok
    · cases hok
      rcases finishWrite_frame _ with ⟨offset, len, writed, hwrited, hfinished⟩
      rw [hfinished]
      exact hwrited hle₃
    · cases hok
      exact hle₃

/-- In every run of a connection no more of the range has been sent than there is of it: what
`writeToPeer_ends_iff` asks of the connection holds wherever a run can bring it. -/
theorem run_writed_le {files : Files} {loop fd : ℕ} {state : TcpConnectionState} {ops : List Op}
    {k : TcpConnection} {outs : List (List Called)}
    (hrun : run (step files) (new loop fd state) ops = .ok (k, outs)) :
    k.zeroCopyWritedLen ≤ k.zeroCopyLen := by
  refine inv_of_run (fun k => k.zeroCopyWritedLen ≤ k.zeroCopyLen) ?_ (Nat.le_refl 0)
    (Guarded.of_forall (fun _ _ _ => trivial) _) hrun
  intro k op k' called hle _ hstep
  exact step_writed_le hle hstep

/-- `WriteToPeer` ends, whatever the kernel answers, if and only if no file is being sent, or
all of it has been, or the file goes on to the end of the range. -/
theorem writeToPeer_ends_iff (files : Files) (length : ℕ) (k : TcpConnection)
    (hle : k.zeroCopyWritedLen ≤ k.zeroCopyLen) :
    Ends files length k ↔ InFile length k := by
  -- the first loop and its close leave the file's fields alone
  have hsame : ∀ {results k₁ failed rest k₂ called},
      writeLoop results k = .ok (k₁, failed, rest) →
      closeFailed k₁ failed = .ok (k₂, called) →
      ∃ writeBuf sent channel state, k₂ = { k with writeBuf, sent, channel, state } := by
    intro results k₁ failed rest k₂ called hwrite hclose
    rcases writeLoop_frame hwrite with ⟨writeBuf, sent, rfl⟩
    rcases closeFailed_inv hclose with ⟨⟨channel, state, rfl⟩, -⟩
    exact ⟨writeBuf, sent, channel, state, rfl⟩
  constructor
  · intro h
    have hsends := h.sends [] k none [] k [] rfl rfl
    exact (sends_finish_iff hle).1 hsends
  · intro hfile
    refine ⟨writes_finish k, fun results k₁ failed rest k₂ called hwrite hclose => ?_⟩
    rcases hsame hwrite hclose with ⟨writeBuf, sent, channel, state, rfl⟩
    exact sends_finish hle hfile

/-- Three bytes of a file of ten, of which the first has been sent. -/
theorem writeToPeer_ends_run :
    ∃ k : TcpConnection, k.zeroCopyWriteOffset = 8 ∧ k.zeroCopyWritedLen = 1 ∧
      Ends (fun _ i => UInt8.ofNat i) 10 k := by
  have hstate : (run (step fun _ i => UInt8.ofNat i) (new 0 4 .kConnected)
      [.zeroCopyWrite 5 7 3, .writeToPeer [.ok 1]]).map
        (fun r => decide (InFile 10 r.1 ∧ r.1.zeroCopyWriteOffset = 8 ∧
          r.1.zeroCopyWritedLen = 1)) = .ok true := by decide
  rcases map_ok.1 hstate with ⟨⟨k, outs⟩, hrun, hk⟩
  rcases of_decide_eq_true hk with ⟨hfile, hoffset, hwrited⟩
  exact ⟨k, hoffset, hwrited, (writeToPeer_ends_iff _ _ k (run_writed_le hrun)).2 hfile⟩

/-- At the end of the file the loop stays where it is. -/
theorem sendfileLoop_nothing {files : Files} {k : TcpConnection} (hfd : k.zeroCopyWriteFd ≠ -1)
    (hless : k.zeroCopyWritedLen < k.zeroCopyLen) (n : ℕ) :
    sendfileLoop files (List.replicate n (.ok 0)) k = .ok (k, none) := by
  induction n with
  | zero => rfl
  | succ n ih =>
    have hsame : k.advance files 0 = k := by simp [advance, Cyclic.get]
    rw [List.replicate_succ, sendfileLoop_cons,
      sendfileRound_ok hfd hless.ne hless.le (Nat.zero_le _), hsame]
    exact ih

/-- The file had four bytes when `ZeroCopyWrite` was called, and has three now: `sendfile` takes
three, and then nothing, however often it is called. -/
theorem short_file_spins :
    ¬ Ends (fun _ _ => 0) 3 (zeroCopyWrite (fun _ _ => 0) (new 0 4 .kConnected) 5 0 4) ∧
      ∀ n, (sendfileLoop (fun _ _ => 0) (.ok 3 :: List.replicate n (.ok 0))
        (zeroCopyWrite (fun _ _ => 0) (new 0 4 .kConnected) 5 0 4)).map
          (fun r => r.1.zeroCopyWritedLen) = .ok 3 := by
  constructor
  · intro h
    have hsends := h.sends [] _ none [] _ [] rfl rfl
    exact sends_forever (Nat.zero_le _) (by decide) hsends
  · intro n
    -- the first round sends the three bytes there are
    have hround : sendfileRound (fun _ _ => 0)
        (zeroCopyWrite (fun _ _ => 0) (new 0 4 .kConnected) 5 0 4) (.ok 3) =
        .ok (some (advance (fun _ _ => 0)
          (zeroCopyWrite (fun _ _ => 0) (new 0 4 .kConnected) 5 0 4) 3)) :=
      sendfileRound_ok (by decide) (by decide) (Nat.zero_le _) (by decide)
    rw [sendfileLoop_cons, hround, ok_bind]
    dsimp only
    rw [sendfileLoop_nothing (by decide) (by decide)]
    rfl

end TcpConnection

end FxServer
