import FxServer.System.Lifecycle
import FxServer.TcpConnection.Output

/-!
# FxServer.System.Flush — is what was written sent before the connection goes?

`ActiveClose` leaves the descriptor open for the output that is still in the buffer. But
it starts the chain of functors that ends in `Destroy`, and nothing in it waits for the
next `WriteToPeer`.

`Destroy` shuts the socket down for writing. What is still in the buffer then was written before,
and it can only have been sent by a `WriteToPeer` in between; so the condition is about the
schedule, between the last write and `Destroy`.

* `destroy_flushes_iff` — when every `write` accepts something, the bytes written are
  sent before `Destroy` exactly when `WriteToPeer` has run behind the last `Write`.
* `close_drops_output` — a read callback writes a byte and closes the connection, and
  `Destroy` runs in the same iteration.
-/

namespace FxServer

/-- Every `write` of the loop over `bytes` bytes accepts something. -/
def AcceptsAll : List IoResult → ℕ → Prop
  | _, 0 => True
  | .ok n :: rs, bytes + 1 => 0 < n ∧ AcceptsAll rs (bytes + 1 - n)
  | _, _ + 1 => False

instance decidableAcceptsAll : ∀ rs bytes, Decidable (AcceptsAll rs bytes)
  | [], 0 | .ok _ :: _, 0 | .again :: _, 0 | .error _ :: _, 0 => .isTrue trivial
  | .ok n :: rs, bytes + 1 =>
    have := decidableAcceptsAll rs (bytes + 1 - n)
    inferInstanceAs (Decidable (0 < n ∧ AcceptsAll rs (bytes + 1 - n)))
  | [], _ + 1 | .again :: _, _ + 1 | .error _ :: _, _ + 1 => .isFalse id

namespace TcpConnection

/-- The loop over the buffer empties it. -/
theorem writeLoop_flushes {rs rest : List IoResult} {k k' : TcpConnection}
    {failed : Option Bool} (hall : AcceptsAll rs k.writeBuf.bytesToRead)
    (hok : writeLoop rs k = .ok (k', failed, rest)) :
    k'.writeBuf.readable = [] := by
  induction rs generalizing k with
  | nil =>
    cases hok
    -- the results have run out: nothing may be left
    cases hbytes : k'.writeBuf.bytesToRead with
    | zero => exact Buffer.bytesToRead_eq_zero.1 hbytes
    | succ bytes =>
      rw [hbytes] at hall
      cases hall
  | cons r rs ih =>
    unfold writeLoop at hok
    split at hok
    · rename_i hempty
      cases hok
      exact Buffer.bytesToRead_eq_zero.1 hempty
    · rename_i hne
      rcases Nat.exists_eq_succ_of_ne_zero hne with ⟨bytes, hbytes⟩
      rw [hbytes] at hall
      split at hok
      · -- `EAGAIN` and errors take nothing, so the kernel did not take everything
        cases hall
      · cases hall
      · rename_i n
        rcases bind_ok.1 hok with ⟨k₁, haccept, hok⟩
        rcases bind_ok.1 haccept with ⟨writeBuf, hbuf, haccept⟩
        cases haccept
        refine ih ?_ hok
        -- what is left to take is what is left to write
        have hlen : writeBuf.bytesToRead = k.writeBuf.bytesToRead - n := by
          rw [← Buffer.length_readable, (Buffer.consumeBytes_ok hbuf).2, List.length_drop,
            Buffer.length_readable]
        show AcceptsAll rs writeBuf.bytesToRead
        rw [hlen, hbytes]
        exact hall.2

end TcpConnection

/-- The bytes of a connection that are in the buffer are the last that were written, and
there are none if nothing was written behind the last `WriteToPeer`. -/
structure Flushes (conn : Conn) : Prop where
  /-- no file is sent -/
  noFile : conn.tcp.zeroCopyWriteFd = -1
  /-- what was sent and what is in the buffer is what was written -/
  order : conn.tcp.sent ++ conn.tcp.writeBuf.readable = conn.tcp.issued
  /-- the mark tells whether the buffer is empty -/
  unflushed : conn.unflushed = false ↔ conn.tcp.writeBuf.readable = []

/-- What `Write` and `WriteToPeer` change. -/
def Conn.output (conn : Conn) : ℤ × Buffer × List UInt8 × List UInt8 × Bool :=
  (conn.tcp.zeroCopyWriteFd, conn.tcp.writeBuf, conn.tcp.issued, conn.tcp.sent, conn.unflushed)

theorem Flushes.congr {conn conn' : Conn} (h : Flushes conn) (hsame : conn'.output = conn.output) :
    Flushes conn' := by
  simp only [Conn.output, Prod.mk.injEq] at hsame
  rcases hsame with ⟨hfile, hbuf, hissued, hsent, hunflushed⟩
  exact ⟨by rw [hfile, h.noFile], by rw [hsent, hbuf, hissued, h.order],
    by rw [hunflushed, hbuf, h.unflushed]⟩

theorem Flushes.new (owner loop fd : ℕ) (state : TcpConnectionState) :
    Flushes (.new owner loop fd state) :=
  ⟨rfl, rfl, by simp [Conn.new, TcpConnection.new]⟩

/-- Everything is sent exactly when nothing was written since the last write to the peer. -/
theorem Flushes.sent_iff {conn : Conn} (h : Flushes conn) :
    conn.tcp.sent = conn.tcp.issued ↔ conn.unflushed = false := by
  rw [h.unflushed, ← h.order]
  exact List.self_eq_append_right

/-- A write of bytes marks the connection as unflushed. -/
theorem Flushes.write {conn : Conn} {buf : List UInt8} {k : TcpConnection} (h : Flushes conn)
    (hok : conn.tcp.write buf = .ok k) :
    Flushes { conn with tcp := k, unflushed := conn.unflushed || !buf.isEmpty } := by
  rcases bind_ok.1 hok with ⟨writeBuf, hbuf, hok⟩
  cases hok
  have hreadable := (Buffer.append_ok hbuf).2
  rw [List.take_length] at hreadable
  refine ⟨h.noFile, ?_, ?_⟩
  · show conn.tcp.sent ++ writeBuf.readable = conn.tcp.issued ++ buf
    rw [hreadable, ← List.append_assoc, h.order]
  · show (conn.unflushed || !buf.isEmpty) = false ↔ writeBuf.readable = []
    rw [hreadable, List.append_eq_nil_iff, ← h.unflushed]
    simp

/-- A kernel that takes everything flushes it. -/
theorem Flushes.writeLoop {conn : Conn} {results rest : List IoResult} {k : TcpConnection}
    {failed : Option Bool} (h : Flushes conn)
    (hall : AcceptsAll results conn.tcp.writeBuf.bytesToRead)
    (hok : TcpConnection.writeLoop results conn.tcp = .ok (k, failed, rest)) :
    Flushes { conn with tcp := k, unflushed := false } := by
  have horder := (TcpConnection.writeLoop_spec hok).1
  have hempty := TcpConnection.writeLoop_flushes hall hok
  rcases TcpConnection.writeLoop_frame hok with ⟨writeBuf, sent, rfl⟩
  exact ⟨h.noFile, horder.trans h.order, by simp [hempty]⟩

namespace Sys

open Machine

variable {files : Files} {s s' s'' : Sys} {c c' : ConnId} {here : ℕ}

/-! ## Steps that leave the output alone -/

/-- The output of `c` is as it was. -/
def SameOutput (c : ConnId) (s s' : Sys) : Prop := (s'.conns c).output = (s.conns c).output

theorem SameOutput.refl (c : ConnId) (s : Sys) : SameOutput c s s := rfl

/-- What changes no connection changes no output. -/
theorem SameOutput.conns (h : SameOutput c s s') (hconns : s''.conns = s'.conns) :
    SameOutput c s s'' := by
  unfold SameOutput
  rw [hconns]
  exact h

theorem SameOutput.setConn {conn : Conn} (h : SameOutput c s s')
    (hsame : conn.output = (s'.conns c').output) :
    SameOutput c s (s'.setConn c' conn) := by
  unfold SameOutput
  by_cases hc : c = c'
  · subst hc
    simpa using hsame.trans h
  · rw [setConn_conns, Function.update_of_ne hc]
    exact h

theorem SameOutput.setTcp {k : TcpConnection} (h : SameOutput c s s')
    (hsame : Conn.output { s'.conns c' with tcp := k } = (s'.conns c').output) :
    SameOutput c s (s'.setTcp c' k) :=
  h.setConn hsame

theorem updateChannel_conns (hok : s.updateChannel here c = .ok s') : s'.conns = s.conns := by
  rcases bind_ok.1 hok with ⟨-, -, hok⟩
  split at hok <;> cases hok <;> rfl

theorem SameOutput.updateChannel (h : SameOutput c s s')
    (hok : s'.updateChannel here c' = .ok s'') : SameOutput c s s'' :=
  h.conns (updateChannel_conns hok)

theorem closeCallback_conns (hok : s.closeCallback here c = .ok s') : s'.conns = s.conns := by
  rcases bind_ok.1 hok with ⟨_, -, hok⟩
  simp only at hok
  split at hok
  · cases hok
    simp
  · split at hok <;> cases hok
    rfl

/-- `ActiveClose` changes no output. -/
theorem SameOutput.activeClose {shutdown : Bool} (h : SameOutput c s s')
    (hok : s'.activeClose here c' shutdown = .ok s'') : SameOutput c s s'' := by
  rcases bind_ok.1 hok with ⟨_, -, hok⟩
  rcases bind_ok.1 hok with ⟨k, hk, hok⟩
  rcases bind_ok.1 hok with ⟨s₁, hupdate, hclose⟩
  rcases TcpConnection.activeClose_frame hk with ⟨-, events, rfl⟩
  exact ((h.setTcp (by rfl)).updateChannel hupdate).conns (closeCallback_conns hclose)

theorem SameOutput.passiveClose (h : SameOutput c s s')
    (hok : s'.passiveClose here c' = .ok s'') : SameOutput c s s'' := by
  rcases bind_ok.1 hok with ⟨_, -, hok⟩
  split at hok
  · cases hok
    exact h
  · rcases bind_ok.1 hok with ⟨s₁, hupdate, hok⟩
    rcases bind_ok.1 hok with ⟨s₂, hupdate', hclose⟩
    exact (((h.setTcp (by rfl)).updateChannel hupdate).updateChannel hupdate').conns
      (closeCallback_conns hclose)

theorem SameOutput.closeFailed {failed : Option Bool} (h : SameOutput c s s')
    (hok : s'.closeFailed here c' failed = .ok s'') : SameOutput c s s'' := by
  unfold Sys.closeFailed at hok
  split at hok
  · exact h.activeClose hok
  · cases hok
    exact h

theorem SameOutput.connectedToPeer {failed : Bool} (h : SameOutput c s s')
    (hok : s'.connectedToPeer here c' failed = .ok s'') : SameOutput c s s'' := by
  rcases bind_ok.1 hok with ⟨_, -, hok⟩
  split at hok
  · exact h.activeClose hok
  · rcases bind_ok.1 hok with ⟨s₁, hupdate, hok⟩
    rcases bind_ok.1 hok with ⟨s₂, hupdate', hok⟩
    rcases bind_ok.1 hok with ⟨_, -, hok⟩
    rcases bind_ok.1 hok with ⟨_, -, hok⟩
    cases hok
    have hconnected := (h.setTcp (by rfl)).updateChannel hupdate
    exact ((hconnected.setTcp (by rfl)).updateChannel hupdate').conns rfl

theorem SameOutput.destroy {shutdown : Bool} (h : SameOutput c s s')
    (hok : s'.destroy here c' shutdown = .ok s'') : SameOutput c s s'' := by
  rcases destroy_ok hok with ⟨-, -, -, -, rfl⟩
  exact h.conns rfl

theorem fillActiveChannels_sameOutput {l : ℕ} {ready : List Ready}
    {active : List (Handler Task)} (hok : s.fillActiveChannels l ready = .ok (s', active)) :
    SameOutput c s s' :=
  fillActiveChannels_keeps (fun _ _ _ h => h.setTcp rfl) (SameOutput.refl c s) hok

/-! ## Steps -/

/-- A new connection starts with nothing unsent. -/
theorem addConn_flushes {o loop fd : ℕ} {state : TcpConnectionState} (h : Flushes (s.conns c))
    (hok : s.addConn o loop fd state = .ok s') : Flushes (s'.conns c) := by
  rw [(addConn_ok hok).conns]
  by_cases hc : c = s.nextConn
  · subst hc
    rw [Function.update_self]
    exact .new ..
  · rwa [Function.update_of_ne hc]

/-- Of two connections, setting one leaves the other. -/
theorem flushes_setConn {conn : Conn} (h : Flushes (s.conns c))
    (hconn : c = c' → Flushes conn) : Flushes ((s.setConn c' conn).conns c) := by
  rw [setConn_conns]
  by_cases hc : c = c'
  · subst hc
    rw [Function.update_self]
    exact hconn rfl
  · rwa [Function.update_of_ne hc]

/-- A call of the user writes, and what it writes is marked. -/
theorem userCall_flushes {call : UserCall} (h : Flushes (s.conns c))
    (hfile : ∀ fd offset len, call ≠ .zeroCopyWrite c fd offset len)
    (hok : s.userCall files here call = .ok s') : Flushes (s'.conns c) := by
  have hrefl := SameOutput.refl c s
  cases call with
  | write c' buf =>
    rcases bind_ok.1 hok with ⟨_, -, hok⟩
    rcases bind_ok.1 hok with ⟨_, -, hok⟩
    rcases bind_ok.1 hok with ⟨k, hk, hok⟩
    rw [updateChannel_conns hok]
    refine flushes_setConn h ?_
    rintro rfl
    exact h.write hk
  | zeroCopyWrite c' fd offset len =>
    rcases bind_ok.1 hok with ⟨_, -, hok⟩
    cases hok
    refine flushes_setConn h ?_
    -- no file is given to `c`
    rintro rfl
    exact absurd rfl (hfile fd offset len)
  | startReading c' =>
    rcases bind_ok.1 hok with ⟨_, -, hok⟩
    cases hok
    simpa using h
  | activeClose c' shutdown => exact h.congr (hrefl.activeClose hok)
  | passiveClose c' => exact h.congr (hrefl.passiveClose hok)
  | destroy c' shutdown => exact h.congr (hrefl.destroy hok)
  | keep c' =>
    rcases bind_ok.1 hok with ⟨_, -, hok⟩
    cases hok
    exact h.congr (hrefl.setConn rfl)
  | drop c' =>
    cases hok
    exact h.congr (hrefl.setConn rfl)
  | queueInLoop l =>
    cases hok
    exact h
  | connectTo o =>
    rcases bind_ok.1 hok with ⟨_, -, hok⟩
    cases hok
    exact h
  | destroyOwner o =>
    cases hok
    exact h
  | ret =>
    cases hok
    exact h

theorem newConnection_flushes {o : ℕ} {input : Input} (h : Flushes (s.conns c))
    (hok : s.exec files here (.newConnection o) input = .ok s') : Flushes (s'.conns c) := by
  cases input with
  | accept fd =>
    simp only [exec] at hok
    split at hok
    · cases hok
      exact h
    · rcases bind_ok.1 hok with ⟨_, -, hok⟩
      rcases bind_ok.1 hok with ⟨⟨l, owner⟩, -, hok⟩
      rcases bind_ok.1 hok with ⟨s₁, hadd, hok⟩
      cases hok
      have h₁ : Flushes (s₁.conns c) := addConn_flushes (s := s.setOwner o owner) h hadd
      simpa using h₁
  | _ =>
    cases hok
    exact h

theorem connectTo_flushes {o : ℕ} {input : Input} (h : Flushes (s.conns c))
    (hok : s.exec files here (.connectTo o) input = .ok s') : Flushes (s'.conns c) := by
  cases input with
  | connect fd connected =>
    simp only [exec] at hok
    split at hok
    · cases hok
      exact h
    · rcases bind_ok.1 hok with ⟨_, -, hok⟩
      split at hok
      · -- connected at once, or later
        rcases bind_ok.1 hok with ⟨s₁, hadd, hok⟩
        cases hok
        rw [push_conns]
        exact addConn_flushes h hadd
      · rcases bind_ok.1 hok with ⟨s₁, hadd, hok⟩
        exact (addConn_flushes h hadd).congr
          (((SameOutput.refl c s₁).setTcp (by rfl)).updateChannel hok)
  | connectFailed =>
    rcases bind_ok.1 hok with ⟨_, -, hok⟩
    cases hok
    exact h
  | _ =>
    cases hok
    exact h

/-- The write callback sends everything if the kernel takes everything. -/
theorem writeCallback_flushes {input : Input} (h : Flushes (s.conns c))
    (haccepts : ∀ results, c = c' → input = .results results →
      AcceptsAll results (s.tcp c).writeBuf.bytesToRead)
    (hok : s.exec files here (.writeCallback c') input = .ok s') : Flushes (s'.conns c) := by
  rcases bind_ok.1 hok with ⟨_, -, hok⟩
  split at hok
  · exact h.congr ((SameOutput.refl c s).connectedToPeer hok)
  · -- `WriteToPeer`
    rename_i results hcallback _
    rcases bind_ok.1 hok with ⟨_, -, hok⟩
    rcases bind_ok.1 hok with ⟨⟨k, failed, rest⟩, hk, hok⟩
    refine Flushes.congr ?_ ((SameOutput.refl c _).closeFailed hok)
    rw [push_conns]
    refine flushes_setConn h ?_
    rintro rfl
    exact h.writeLoop (haccepts results rfl rfl) hk
  · cases hok
    exact h

/-- Sending a file does not touch the buffer. -/
theorem sendfile_flushes {bytesToRead : ℕ} {results : List IoResult} {input : Input}
    (h : Flushes (s.conns c))
    (hok : s.exec files here (.sendfile c' bytesToRead results) input = .ok s') :
    Flushes (s'.conns c) := by
  rcases bind_ok.1 hok with ⟨_, -, hok⟩
  rcases bind_ok.1 hok with ⟨⟨k, failed⟩, hk, hok⟩
  refine Flushes.congr ?_ ((SameOutput.refl c _).closeFailed hok)
  rw [push_conns]
  refine flushes_setConn h ?_
  -- no file has been given to `c`, so the loop over the file does nothing
  rintro rfl
  rw [tcp, TcpConnection.sendfileLoop_done (.inl h.noFile)] at hk
  cases hk
  exact h

theorem finishWrite_flushes {bytesToRead : ℕ} {input : Input} (h : Flushes (s.conns c))
    (hok : s.exec files here (.finishWrite c' bytesToRead) input = .ok s') :
    Flushes (s'.conns c) := by
  rcases bind_ok.1 hok with ⟨_, -, hok⟩
  split at hok
  · rcases bind_ok.1 hok with ⟨s₁, hupdate, hok⟩
    cases hok
    rw [push_conns, emit_conns, updateChannel_conns hupdate]
    refine flushes_setConn h ?_
    rintro rfl
    -- no file has been given to `c`, so there is none to close
    have hsame : (s.tcp c).finishWrite =
        { s.tcp c with channel := (s.tcp c).channel.disableWriting } :=
      congrArg (fun k : TcpConnection => { k with channel := k.channel.disableWriting })
        (if_neg (not_not.2 h.noFile))
    rw [hsame]
    exact h.congr rfl
  · cases hok
    exact h

/-- Every task keeps account of what is unsent. -/
theorem exec_flushes {task : Task} {input : Input} (h : Flushes (s.conns c))
    (haccepts : ∀ results, task = .writeCallback c → input = .results results →
      AcceptsAll results (s.tcp c).writeBuf.bytesToRead)
    (hfile : ∀ fd offset len, input ≠ .user (.zeroCopyWrite c fd offset len))
    (hok : s.exec files here task input = .ok s') : Flushes (s'.conns c) := by
  have hrefl := SameOutput.refl c s
  cases task with
  | newConnection o => exact newConnection_flushes h hok
  | handleEvents c' =>
    rcases bind_ok.1 hok with ⟨_, -, hok⟩
    -- only `handling_events_` is set
    have hpushed : SameOutput c s ((s.setConn c' { s.conns c' with handlingEvents := true }).push
        here (.endEvents c')) := hrefl.setConn rfl
    simp only at hok
    split at hok <;> split at hok <;> cases hok <;> exact h.congr hpushed
  | writeCallback c' =>
    refine writeCallback_flushes h ?_ hok
    rintro results rfl rfl
    exact haccepts results rfl rfl
  | sendfile c' bytesToRead results => exact sendfile_flushes h hok
  | finishWrite c' bytesToRead => exact finishWrite_flushes h hok
  | readCallback c' =>
    rcases bind_ok.1 hok with ⟨_, -, hok⟩
    split at hok
    · split at hok
      · rcases bind_ok.1 hok with ⟨_, -, hok⟩
        split at hok
        · exact h.congr (hrefl.passiveClose hok)
        · rcases bind_ok.1 hok with ⟨k, hk, hok⟩
          cases hok
          rcases TcpConnection.readFromPeer_frame hk with ⟨readBuf, rfl⟩
          exact h.congr ((hrefl.setTcp (by rfl)).conns rfl)
      · cases hok
        exact h
    · cases hok
      exact h
  | endEvents c' =>
    rcases bind_ok.1 hok with ⟨_, -, hok⟩
    cases hok
    exact h.congr (hrefl.setConn rfl)
  | newConnectionCallback c' =>
    cases hok
    exact h
  | startReading c' =>
    cases hok
    simpa using h
  | enableReading c' =>
    rcases bind_ok.1 hok with ⟨_, -, hok⟩
    exact h.congr ((hrefl.setTcp (by rfl)).updateChannel hok)
  | handleConnectionClose o fd =>
    rcases bind_ok.1 hok with ⟨_, -, hok⟩
    split at hok
    · cases hok
    · cases hok
      simpa using h
  | closeConnectionCallback c' =>
    cases hok
    exact h
  | queueDestroy c' =>
    cases hok
    exact h
  | destroy c' => exact h.congr (hrefl.destroy hok)
  | connectTo o => exact connectTo_flushes h hok
  | user u =>
    cases input with
    | user call =>
      -- user code makes one of its calls, or returns
      by_cases hret : call = .ret
      · subst hret
        cases hok
        exact h
      · rw [exec_user hret] at hok
        exact userCall_flushes (s := s.push here (.user u)) h
          (fun fd offset len hcall => hfile fd offset len (congrArg _ hcall)) hok
    | _ =>
      cases hok
      exact h

/-- Every `write` of the connection accepts something, and no file is given to it. -/
def Accepts (c : ConnId) (s : Sys) : Label → Prop
  | .exec l (.results results) => (s.threads l).nextTask = some (.writeCallback c) →
    AcceptsAll results (s.tcp c).writeBuf.bytesToRead
  | .exec _ (.user (.zeroCopyWrite c' _ _ _)) => c' ≠ c
  | _ => True

/-- Every step keeps account of what is unsent. -/
theorem step_flushes {label : Label} (h : Flushes (s.conns c)) (haccepts : Accepts c s label)
    (hok : s.step files label = .ok s') : Flushes (s'.conns c) := by
  cases step_steps hok with
  | idle | run | wakeUp | next | callUser => exact h
  | poll l ready s₁ active _ hfill =>
    have hsame : SameOutput c s s₁ := fillActiveChannels_sameOutput hfill
    exact h.congr (hsame.conns rfl)
  | exec l input task t _ ht hexec =>
    refine exec_flushes (s := s.setThread l t) h ?_ ?_ hexec
    · rintro results rfl rfl
      exact haccepts (LoopThread.nextTask_eq.2 ⟨t, ht⟩)
    · rintro fd offset len rfl
      exact haccepts rfl
  | destruct c' => exact h.congr ((SameOutput.refl c s).setConn rfl)

/-! ## Runs -/

/-- When `Destroy` runs, every byte that was written has been sent. -/
def SentAtDestroy (c : ConnId) (s : Sys) : Label → Prop
  | .exec l _ => (s.threads l).nextTask = some (.destroy c) →
    (s.tcp c).sent = (s.tcp c).issued
  | _ => True

/-- When `Destroy` runs, `WriteToPeer` has run behind the last `Write`. -/
def FlushedAtDestroy (c : ConnId) (s : Sys) : Label → Prop
  | .exec l _ => (s.threads l).nextTask = some (.destroy c) → (s.conns c).unflushed = false
  | _ => True

instance (c : ConnId) (s : Sys) : DecidablePred (Accepts c s)
  | .exec l (.results results) => inferInstanceAs (Decidable
      ((s.threads l).nextTask = some (.writeCallback c) →
        AcceptsAll results (s.tcp c).writeBuf.bytesToRead))
  | .exec _ (.user call) =>
    match call with
    | .zeroCopyWrite c' _ _ _ => inferInstanceAs (Decidable (c' ≠ c))
    | .write _ _ | .startReading _ | .activeClose _ _ | .passiveClose _ | .destroy _ _ | .keep _
    | .drop _ | .queueInLoop _ | .connectTo _ | .destroyOwner _ | .ret => .isTrue trivial
  | .exec _ .none | .exec _ (.accept _) | .exec _ (.connect _ _) | .exec _ .connectFailed
  | .exec _ (.soError _) | .exec _ (.read _) | .exec _ (.shutdown _) | .run _ | .next _
  | .poll _ _ | .callUser _ | .destruct _ => .isTrue trivial

instance (c : ConnId) (s : Sys) : DecidablePred (SentAtDestroy c s)
  | .exec l _ => inferInstanceAs (Decidable ((s.threads l).nextTask = some (.destroy c) →
      (s.tcp c).sent = (s.tcp c).issued))
  | .run _ | .next _ | .poll _ _ | .callUser _ | .destruct _ => .isTrue trivial

instance (c : ConnId) (s : Sys) : DecidablePred (FlushedAtDestroy c s)
  | .exec l _ => inferInstanceAs (Decidable ((s.threads l).nextTask = some (.destroy c) →
      (s.conns c).unflushed = false))
  | .run _ | .next _ | .poll _ _ | .callUser _ | .destruct _ => .isTrue trivial

/-- In every run in which each `write` of the connection accepts something: all that was
written has been sent when `Destroy` runs, if and only if `WriteToPeer` has run behind the
last `Write`. -/
theorem destroy_flushes_iff (files : Files) (owners : ℕ → Owner) (labels : List Label)
    (c : ConnId) (haccepts : Guarded (apply files) (Accepts c) (init owners) labels) :
    Guarded (apply files) (SentAtDestroy c) (init owners) labels ↔
      Guarded (apply files) (FlushedAtDestroy c) (init owners) labels := by
  refine Guarded.iff_of_inv (fun s => Flushes (s.conns c)) ?_ ?_ (.new ..) haccepts
  · intro s label s' u h hlabel hstep
    exact step_flushes h hlabel (apply_ok.1 hstep)
  · intro s label h _
    cases label with
    | exec l input => exact forall_congr' fun _ => h.sent_iff
    | _ => exact Iff.rfl

/-- The read callback of a connection writes a byte, and the user closes the connection
in the write-done callback of the next iteration. -/
def closeInWriteDone : List Label := [
  .run 0, .next 0, .poll 0 [.accept 0], .exec 0 (.accept 7), .exec 0 .none,
  .exec 0 (.user .ret), .exec 0 .none, .exec 0 .none,
  .next 0, .next 0, .next 0, .next 0, .next 0, .poll 0 [.events 7 epollIn],
  .exec 0 .none, .exec 0 (.read (.data [5])), .exec 0 (.user (.write 0 [1])),
  .exec 0 (.user .ret), .exec 0 .none,
  .next 0, .next 0, .next 0, .next 0, .next 0, .poll 0 [.events 7 epollOut],
  .exec 0 .none, .exec 0 (.results [.ok 1]), .exec 0 .none, .exec 0 .none,
  .exec 0 (.user (.activeClose 0 true)), .exec 0 .none, .exec 0 .none, .exec 0 (.user .ret),
  .exec 0 .none, .exec 0 (.user .ret), .exec 0 .none, .next 0, .next 0,
  .exec 0 (.shutdown true)]

/-- The connection is closed by the write-done callback, so its byte was sent. -/
theorem destroy_flushes_run :
    (run (apply fun _ _ => 0) (init fun _ => .server 0 []) closeInWriteDone).map (fun r =>
      (r.1.log.getLast?, (r.1.tcp 0).sent)) = .ok (some (.destroyed 0), [1]) ∧
    Guarded (apply fun _ _ => 0) (SentAtDestroy 0) (init fun _ => .server 0 [])
      closeInWriteDone := by
  refine ⟨by decide +kernel, ?_⟩
  exact (destroy_flushes_iff _ _ closeInWriteDone 0 (by decide +kernel)).2 (by decide +kernel)

/-- The user closes the connection in the read callback that has written the byte. -/
def closeInReadCallback : List Label := [
  .run 0, .next 0, .poll 0 [.accept 0], .exec 0 (.accept 7), .exec 0 .none,
  .exec 0 (.user .ret), .exec 0 .none, .exec 0 .none,
  .next 0, .next 0, .next 0, .next 0, .next 0, .poll 0 [.events 7 epollIn],
  .exec 0 .none, .exec 0 (.read (.data [5])), .exec 0 (.user (.write 0 [1])),
  .exec 0 (.user (.activeClose 0 true)), .exec 0 .none, .exec 0 .none, .exec 0 (.user .ret),
  .exec 0 .none, .exec 0 (.user .ret), .exec 0 .none, .next 0, .next 0,
  .exec 0 (.shutdown true)]

/-- `Destroy` runs in the iteration of the read callback, and the byte is never sent. -/
theorem close_drops_output :
    Guarded (apply fun _ _ => 0) (Accepts 0) (init fun _ => .server 0 []) closeInReadCallback ∧
    (run (apply fun _ _ => 0) (init fun _ => .server 0 []) closeInReadCallback).map (fun r =>
      (r.1.log.getLast?, (r.1.tcp 0).sent, (r.1.tcp 0).issued)) =
      .ok (some (.destroyed 0), [], [1]) ∧
    ¬ Guarded (apply fun _ _ => 0) (SentAtDestroy 0) (init fun _ => .server 0 [])
      closeInReadCallback :=
  ⟨by decide +kernel, by decide +kernel, by decide +kernel⟩

end Sys

end FxServer
