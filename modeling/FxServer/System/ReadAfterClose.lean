import FxServer.System.Lifecycle
import FxServer.TcpConnection.Input

/-!
# FxServer.System.ReadAfterClose — the read callback of a closed connection

`HandleEvents` calls the write callback and then the read callback, for one set of
returned events. The first can close the connection, and `ReadFromPeer` does not look
at the state.

Both callbacks are in the history, and the state of the connection goes with the close callback.
So one step can be judged by itself: it reads behind a close exactly if it reads when the state
is closed.

* `no_read_after_close_iff` — no read callback follows the close callback exactly when
  every `ReadFromPeer` of the closed connection meets the end of the stream or an error.
* `exec_receive` — the task `ReadFromPeer` of the system does to the read buffer what `receive` does
  to that of one connection.
* `write_done_reads_on` — the write-done callback closes the connection, and the bytes that
  came with the same events are handed to the read callback.
-/

namespace FxServer.Sys

open Machine

variable {files : Files} {s s' s'' : Sys} {c : ConnId}

/-- The history has no read callback of `c` behind its close callback. -/
def NoReadAfterClose (c : ConnId) (log : List Event) : Prop :=
  log.Pairwise fun e e' => e = .closeCallback c → e' ≠ .readCallback c

/-- A `ReadFromPeer` of `c` that runs when `c` is closed meets the end of the stream or
an error. -/
def EndsRead (c : ConnId) (s : Sys) : Label → Prop
  | .exec l (.read result) =>
    (s.threads l).nextTask = some (.readCallback c) → (s.tcp c).channel.readCallback = true →
      (s.tcp c).closed = true → result.closes = true
  | _ => True

instance (c : ConnId) (s : Sys) : DecidablePred (EndsRead c s)
  | .exec l (.read result) => inferInstanceAs (Decidable
      ((s.threads l).nextTask = some (.readCallback c) → (s.tcp c).channel.readCallback = true →
        (s.tcp c).closed = true → result.closes = true))
  | .exec _ .none | .exec _ (.accept _) | .exec _ (.connect _ _) | .exec _ .connectFailed
  | .exec _ (.soError _) | .exec _ (.results _) | .exec _ (.shutdown _) | .exec _ (.user _)
  | .run _ | .next _ | .poll _ _ | .callUser _ | .destruct _ => .isTrue trivial

/-! ## The close callback goes with the state -/

/-- The close callback of `c` is in the history exactly when `c` is closed, and only
connections that have been made are in it. -/
structure CloseLogged (c : ConnId) (s : Sys) : Prop where
  /-- the close callback is in the history exactly when the connection is closed -/
  closed : .closeCallback c ∈ s.log ↔ (s.tcp c).closed = true
  /-- a connection that has not been made is not closed -/
  unborn : s.nextConn ≤ c → (s.tcp c).closed = false

theorem init_closeLogged (c : ConnId) (owners : ℕ → Owner) : CloseLogged c (init owners) := by
  constructor <;> simp [init, tcp, Conn.new, TcpConnection.new, TcpConnection.closed]

/-- Events that leave the state of `c` alone. -/
theorem CloseLogged.of_log (h : CloseLogged c s) (events : List Event)
    (hlog : s'.log = s.log ++ events) (hevents : .closeCallback c ∉ events)
    (hclosed : (s'.tcp c).closed = (s.tcp c).closed) (hnext : s'.nextConn = s.nextConn) :
    CloseLogged c s' := by
  refine ⟨?_, fun hc => ?_⟩
  · rw [hlog, hclosed, ← h.closed, List.mem_append, or_iff_left hevents]
  · rw [hclosed, h.unborn (hnext ▸ hc)]

/-! ## Steps -/

/-- What a step adds to the history: no read callback of `c`, or one. -/
inductive Reads (c : ConnId) (s : Sys) (label : Label) (s' : Sys) : Prop
  | silent {events : List Event} (hlog : s'.log = s.log ++ events)
    (hevents : .readCallback c ∉ events) (hends : EndsRead c s label)
  | read {events : List Event} (hlog : s'.log = s.log ++ events)
    (hread : .readCallback c ∈ events) (hclose : .closeCallback c ∉ events)
    (hends : EndsRead c s label ↔ (s.tcp c).closed = false)

/-- A step keeps that nothing is read behind a close exactly if it does not read so itself. -/
theorem Reads.noReadAfterClose {label : Label} (h : Reads c s label s')
    (hlogged : CloseLogged c s) :
    NoReadAfterClose c s'.log ↔ NoReadAfterClose c s.log ∧ EndsRead c s label := by
  cases h with
  -- no read is logged, so the new events are behind no close
  | silent hlog hevents hends =>
    unfold NoReadAfterClose
    rw [hlog, List.pairwise_append, and_iff_left hends]
    refine and_iff_left ⟨?_, ?_⟩
    · exact List.pairwise_of_forall_mem_list fun _ _ e' he' _ heq => hevents (heq ▸ he')
    · exact fun _ _ e' he' _ heq => hevents (heq ▸ he')
  -- the one read of the step is late exactly when a close is in the log already
  | read hlog hread hclose hends =>
    unfold NoReadAfterClose
    rw [hlog, List.pairwise_append, hends]
    refine and_congr_right fun _ => ⟨fun ⟨_, hcross⟩ => ?_, fun hopen => ⟨?_, ?_⟩⟩
    · by_contra hclosed
      exact hcross _ (hlogged.closed.2 (by simpa using hclosed)) _ hread rfl rfl
    · exact List.pairwise_of_forall_mem_list fun e he _ _ heq => absurd (heq ▸ he) hclose
    · rintro e he e' - rfl
      rw [hlogged.closed, hopen] at he
      cases he

/-- The events call neither callback. -/
def Silent (events : List Event) : Prop :=
  ∀ c, .readCallback c ∉ events ∧ .closeCallback c ∉ events

/-- A frame logs neither reads nor closes. -/
theorem Frame.silent (h : Frame s s') : ∃ events, s'.log = s.log ++ events ∧ Silent events := by
  rcases h.log with ⟨events, hlog, hall⟩
  refine ⟨events, hlog, fun c => ⟨fun he => ?_, fun he => ?_⟩⟩
  · cases hall _ he
  · cases hall _ he

/-- What is quiet keeps the log of the close. -/
theorem Quiet.closeLogged (h : Quiet s s') (hlogged : CloseLogged c s) : CloseLogged c s' := by
  rcases h.silent with ⟨events, hlog, hsilent⟩
  exact hlogged.of_log events hlog (hsilent c).2 (h.closed c) h.nextConn

/-- A quiet step behind events without a read callback. -/
theorem Quiet.logged {s₀ : Sys} {read : List Event → Prop} (h : Quiet s₀ s') (s : Sys)
    (events₀ : List Event)
    (hlogged : CloseLogged c s₀) (hlog₀ : s₀.log = s.log ++ events₀)
    (hread : .readCallback c ∉ events₀) :
    CloseLogged c s' ∧ ∃ events, s'.log = s.log ++ events ∧
      (.readCallback c ∉ events ∨ read events) := by
  rcases h.silent with ⟨events, hlog, hsilent⟩
  refine ⟨h.closeLogged hlogged, events₀ ++ events, ?_, .inl ?_⟩
  · rw [hlog, hlog₀, List.append_assoc]
  · simp [hread, (hsilent c).1]

/-- The close callback is logged once. -/
theorem closeCallback_log {here : ℕ} {c' : ConnId} (hok : s.closeCallback here c' = .ok s') :
    (∃ events, s'.log = s.log ++ .closeCallback c' :: events ∧ Silent events) ∧
      s'.conns = s.conns ∧ s'.nextConn = s.nextConn := by
  rcases bind_ok.1 hok with ⟨_, -, hok⟩
  simp only at hok
  split at hok
  · cases hok
    exact ⟨⟨[], by simp, by simp [Silent]⟩, by simp, by simp⟩
  · split at hok
    · cases hok
    · rename_i c₁ _
      cases hok
      exact ⟨⟨[.handled c₁], by simp, by simp [Silent]⟩, by simp, by simp⟩

/-- Closing `c'` calls its close callback once, and no read callback. -/
theorem Closes.logged {here : ℕ} {c' : ConnId} (h : Closes s here c' s')
    (hlogged : CloseLogged c s) :
    CloseLogged c s' ∧ ∃ events, s'.log = s.log ++ events ∧ .readCallback c ∉ events := by
  rcases h with ⟨s₁, s₂, hexists, -, hframe, hclosed, hclose, hquiet⟩
  rcases hframe.silent with ⟨events₁, hlog₁, hsilent₁⟩
  rcases closeCallback_log hclose with ⟨⟨events₂, hlog₂, hsilent₂⟩, hconns, hnext⟩
  rcases hquiet.silent with ⟨events₃, hlog₃, hsilent₃⟩
  -- the close callback stands between what the two updates and the callback itself log
  have hlog : s'.log = s.log ++ (events₁ ++ .closeCallback c' :: (events₂ ++ events₃)) := by
    rw [hlog₃, hlog₂, hlog₁]
    simp
  have hstate : (s'.tcp c).closed = if c = c' then true else (s.tcp c).closed := by
    rw [hquiet.closed, show s₂.tcp c = s₁.tcp c by simp [tcp, hconns], hclosed]
  refine ⟨?_, _, hlog, ?_⟩
  · -- the connection's own close is logged and its state set in one step
    by_cases heq : c = c'
    · subst heq
      refine ⟨by simp [hlog, hstate], fun hc => ?_⟩
      rw [hquiet.nextConn, hnext, hframe.nextConn] at hc
      exact absurd hexists.1 (not_lt.2 hc)
    · refine hlogged.of_log _ hlog ?_ (by rw [hstate, if_neg heq])
        (by rw [hquiet.nextConn, hnext, hframe.nextConn])
      simp [(hsilent₁ c).2, (hsilent₂ c).2, (hsilent₃ c).2, heq]
  · simp [(hsilent₁ c).1, (hsilent₂ c).1, (hsilent₃ c).1]

/-- A task calls the read callback of `c` only from `ReadFromPeer`. -/
theorem Effect.logged {here : ℕ} {task : Task} {input : Input} (h : Effect s here task input s')
    (hlogged : CloseLogged c s) :
    CloseLogged c s' ∧ ∃ events, s'.log = s.log ++ events ∧ (.readCallback c ∉ events ∨
      .closeCallback c ∉ events ∧ ∃ result, task = .readCallback c ∧ input = .read result ∧
        (s.tcp c).channel.readCallback = true ∧ result.closes = false) := by
  cases h with
  | quiet _ hquiet =>
    rcases hquiet.silent with ⟨events, hlog, hsilent⟩
    exact ⟨hquiet.closeLogged hlogged, events, hlog, .inl (hsilent c).1⟩
  | @reads c' result _ s₁ hcallback hresult h₁ h₂ =>
    rcases h₁.silent with ⟨events₁, hlog₁, hsilent₁⟩
    rcases h₂.silent with ⟨events₂, hlog₂, hsilent₂⟩
    have hlog : s'.log = s.log ++ (events₁ ++ .readCallback c' :: events₂) := by
      rw [hlog₂, emit_log, hlog₁]
      simp
    have hclose : .closeCallback c ∉ events₁ ++ .readCallback c' :: events₂ := by
      simp [(hsilent₁ c).2, (hsilent₂ c).2]
    refine ⟨hlogged.of_log _ hlog hclose ((h₂.closed c).trans (h₁.closed c))
      (h₂.nextConn.trans h₁.nextConn), _, hlog, ?_⟩
    -- another connection may have read
    by_cases heq : c' = c
    · subst heq
      exact .inr ⟨hclose, result, rfl, rfl, hcallback, hresult⟩
    · exact .inl (by simp [(hsilent₁ c).1, (hsilent₂ c).1, Ne.symm heq])
  | @opens _ _ _ s₁ s₂ o loop fd state _ _ hstate h₁ hadd h₂ =>
    have hadded := addConn_ok hadd
    have hlogged₁ := h₁.closeLogged hlogged
    rcases h₁.silent with ⟨events₁, hlog₁, hsilent₁⟩
    refine h₂.logged s (events₁ ++ [.opened s₁.nextConn]) ⟨?_, fun hc => ?_⟩
      (by rw [hadded.log, hlog₁, List.append_assoc]) ?_
    · -- the new connection has not been closed
      rw [hadded.log, hadded.tcp]
      by_cases heq : c = s₁.nextConn
      · have hopen := hlogged₁.unborn heq.symm.le
        have hnew : (TcpConnection.new loop fd state).closed = false := by
          simp [TcpConnection.closed, TcpConnection.new, hstate]
        simp [hlogged₁.closed, hopen, ← heq, hnew]
      · simp [heq, hlogged₁.closed]
    · rw [hadded.nextConn] at hc
      have hlt : s₁.nextConn < c := hc
      rw [hadded.tcp, if_neg hlt.ne', hlogged₁.unborn hlt.le]
    · simp [(hsilent₁ c).1]
  | closes _ hcloses =>
    rcases hcloses.logged hlogged with ⟨hlogged', events, hlog, hevents⟩
    exact ⟨hlogged', events, hlog, .inl hevents⟩
  | @handles o fd _ _ c' _ hquiet =>
    exact hquiet.logged s [.handled c'] (hlogged.of_log [.handled c'] rfl (by simp) rfl rfl) rfl
      (by simp)
  | queues => exact ⟨hlogged.of_log [] (by simp) (by simp) rfl rfl, [], by simp, by simp⟩
  | @destroys c' _ _ hquiet =>
    exact hquiet.logged s [.destroyed c'] (hlogged.of_log [.destroyed c'] rfl (by simp) rfl rfl)
      rfl (by simp)
  | @userDestroys _ c' _ _ s₁ h₁ h₂ =>
    rcases h₁.silent with ⟨events₁, hlog₁, hsilent₁⟩
    have hlogged₁ :=
      (h₁.closeLogged hlogged).of_log [.destroyed c'] (emit_log s₁ _) (by simp) rfl rfl
    exact h₂.logged s (events₁ ++ [.destroyed c']) hlogged₁ (by simp [hlog₁])
      (by simp [(hsilent₁ c).1])
  | disowns hquiet =>
    exact hquiet.logged s [] (hlogged.of_log [] (by simp) (by simp) rfl rfl) (by simp) (by simp)

/-- `ReadFromPeer` calls the read callback unless the stream has ended. -/
theorem exec_readCallback {here : ℕ} {result : ReadResult}
    (hcallback : (s.tcp c).channel.readCallback = true) (hresult : result.closes = false)
    (hok : s.exec files here (.readCallback c) (.read result) = .ok s') :
    s'.log = s.log ++ [.readCallback c] := by
  rcases bind_ok.1 hok with ⟨_, -, hok⟩
  rw [if_pos hcallback] at hok
  rcases bind_ok.1 hok with ⟨_, -, hok⟩
  rw [hresult] at hok
  rcases bind_ok.1 hok with ⟨k, -, hok⟩
  cases hok
  rfl

theorem updateChannel_tcp {here : ℕ} (hok : s.updateChannel here c = .ok s') :
    s'.tcp = s.tcp := by
  rcases bind_ok.1 hok with ⟨_, -, hok⟩
  split at hok <;> cases hok <;> rfl

theorem closeCallback_tcp {here : ℕ} (hok : s.closeCallback here c = .ok s') :
    s'.tcp = s.tcp := by
  rcases bind_ok.1 hok with ⟨_, -, hok⟩
  dsimp only at hok
  split at hok
  · cases hok
    simp
  · split at hok
    · cases hok
    · cases hok
      simp

/-- The task does to the read buffer what `ReadFromPeer` does. -/
theorem exec_receive {here : ℕ} {result : ReadResult}
    (hcallback : (s.tcp c).channel.readCallback = true)
    (hok : s.exec files here (.readCallback c) (.read result) = .ok s') :
    ∃ k, (s.tcp c).receive result = .ok k ∧ (s'.tcp c).readBuf = k.readBuf := by
  rcases bind_ok.1 hok with ⟨_, -, hok⟩
  rw [if_pos hcallback] at hok
  rcases bind_ok.1 hok with ⟨_, -, hok⟩
  cases hcloses : result.closes with
  | true =>
    rw [hcloses, if_pos rfl] at hok
    -- the peer has closed, or the read failed: `PassiveClose` leaves the buffer alone
    rcases TcpConnection.receive_closes (k := s.tcp c) hcloses with ⟨k, hk, hbuf⟩
    refine ⟨k, hk, hbuf ▸ ?_⟩
    rcases bind_ok.1 hok with ⟨_, -, hok⟩
    split at hok
    · cases hok
      rfl
    · rcases bind_ok.1 hok with ⟨s₁, hupdate, hok⟩
      rcases bind_ok.1 hok with ⟨s₂, hupdate', hclose⟩
      rw [closeCallback_tcp hclose, updateChannel_tcp hupdate', updateChannel_tcp hupdate,
        setTcp_tcp, if_pos rfl]
      rfl
  | false =>
    rw [hcloses] at hok
    -- data, or EAGAIN: the buffer is what `ReadFromPeer` makes of it
    rcases bind_ok.1 hok with ⟨k, hk, hok⟩
    cases hok
    refine ⟨k, (TcpConnection.receive_stays hcloses).trans hk, ?_⟩
    show ((s.setTcp c k).tcp c).readBuf = k.readBuf
    rw [setTcp_tcp, if_pos rfl]

/-- What one step logs of reads and closes. -/
theorem step_reads {label : Label} (hlogged : CloseLogged c s)
    (hok : s.step files label = .ok s') : CloseLogged c s' ∧ Reads c s label s' := by
  rcases step_cases hok with ⟨hquiet, hidle⟩ | ⟨l, input, task, t, rfl, ht, hexec⟩ |
    ⟨c', rfl, -, -, rfl⟩
  · rcases hquiet.silent with ⟨events, hlog, hsilent⟩
    refine ⟨hquiet.closeLogged hlogged, .silent hlog (hsilent c).1 ?_⟩
    cases label with
    | exec l input =>
      cases input with
      | read result =>
        intro hnext
        rcases LoopThread.nextTask_eq.1 hnext with ⟨t, ht⟩
        rw [hidle l _ rfl] at ht
        cases ht
      | _ => trivial
    | _ => trivial
  · -- the thread without the task has the same history and connections
    have hlogged' : CloseLogged c (s.setThread l t) :=
      hlogged.of_log [] (by simp) (by simp) rfl rfl
    rcases (exec_effect hexec).logged hlogged' with
      ⟨hlogged'', events, hlog, hread | ⟨hclose, result, rfl, rfl, hcallback, hresult⟩⟩
    · refine ⟨hlogged'', .silent hlog hread ?_⟩
      cases input with
      | read result =>
        intro hnext hcallback _
        rcases LoopThread.nextTask_eq.1 hnext with ⟨t', ht'⟩
        rcases Prod.mk.inj (Option.some.inj (ht.symm.trans ht')) with ⟨rfl, rfl⟩
        by_contra hresult
        have hlog' :=
          exec_readCallback (s := s.setThread l t) hcallback (by simpa using hresult) hexec
        rw [List.append_cancel_left (hlog.symm.trans hlog')] at hread
        simp at hread
      | _ => trivial
    · have hlog' := exec_readCallback (s := s.setThread l t) hcallback hresult hexec
      refine ⟨hlogged'', .read hlog ?_ hclose ⟨fun hends => ?_, fun hopen _ _ hclosed => ?_⟩⟩
      · rw [List.append_cancel_left (hlog.symm.trans hlog')]
        simp
      · by_contra hclosed
        have hcloses := hends (LoopThread.nextTask_eq.2 ⟨t, ht⟩) hcallback (by simpa using hclosed)
        rw [hresult] at hcloses
        cases hcloses
      · rw [hopen] at hclosed
        cases hclosed
  · have hlog : (s.setConn c' { s.conns c' with destructed := true }).log = s.log ++ [] := by simp
    refine ⟨hlogged.of_log [] hlog (by simp) ?_ rfl, .silent hlog (by simp) trivial⟩
    by_cases heq : c = c'
    · subst heq
      simp [tcp]
    · simp [tcp, heq]

/-! ## Runs -/

/-- What a whole run logs of reads and closes. -/
theorem run_reads {labels : List Label} {us : List Unit} (hlogged : CloseLogged c s)
    (hrun : run (apply files) s labels = .ok (s', us)) :
    NoReadAfterClose c s'.log ↔ NoReadAfterClose c s.log ∧
      Guarded (apply files) (EndsRead c) s labels := by
  induction labels generalizing s us with
  | nil =>
    cases hrun
    exact (and_iff_left trivial).symm
  | cons label labels ih =>
    rcases run_cons_inv hrun with ⟨s₁, u, us', hstep, hrest, -⟩
    rcases step_reads hlogged (apply_ok.1 hstep) with ⟨hlogged₁, hreads⟩
    rw [ih hlogged₁ hrest, hreads.noReadAfterClose hlogged, guarded_cons_ok hstep, and_assoc]

/-- In every run, of any connection: no read callback follows the close callback if and
only if each `ReadFromPeer` that runs behind it meets the end of the stream or an
error. -/
theorem no_read_after_close_iff (files : Files) (owners : ℕ → Owner) (labels : List Label)
    (c : ConnId) (s : Sys) (us : List Unit)
    (hrun : run (apply files) (init owners) labels = .ok (s, us)) :
    NoReadAfterClose c s.log ↔ Guarded (apply files) (EndsRead c) (init owners) labels := by
  rw [run_reads (init_closeLogged c owners) hrun]
  exact and_iff_right List.Pairwise.nil

/-- User code keeps its connection, writes a byte, and closes the connection in the write-done
callback, before the read callback of the same events: what the system is asked in between is
answered in full. -/
def closeWithInput : List Label := [
  .run 0, .next 0, .poll 0 [.accept 0], .exec 0 (.accept 7), .exec 0 .none,
  .exec 0 (.user (.keep 0)), .exec 0 (.user (.write 0 [1])), .exec 0 (.user .ret),
  .exec 0 .none, .exec 0 .none, .next 0, .next 0, .next 0, .next 0, .next 0,
  .poll 0 [.events 7 (epollIn ||| epollOut)], .exec 0 .none, .exec 0 (.results [.ok 1]),
  .exec 0 .none, .exec 0 .none, .exec 0 (.user (.activeClose 0 true)), .exec 0 .none,
  .exec 0 .none, .exec 0 (.user .ret), .exec 0 .none, .exec 0 (.user .ret)]

/-- The `ReadFromPeer` of the same events meets the end of the stream. -/
theorem no_read_after_close_run :
    ∃ s : Sys, .closeCallback 0 ∈ s.log ∧ NoReadAfterClose 0 s.log := by
  let labels : List Label := closeWithInput ++ [.exec 0 (.read (.data []))]
  have hresult : (run (apply fun _ _ => 0) (init fun _ => .server 0 []) labels).map (fun r =>
      decide (.closeCallback 0 ∈ r.1.log)) = .ok true := by
    decide +kernel
  rcases map_ok.1 hresult with ⟨⟨s, us⟩, hrun, hclosed⟩
  refine ⟨s, by simpa using hclosed, ?_⟩
  exact (no_read_after_close_iff _ _ labels 0 s us hrun).2 (by decide +kernel)

/-- The byte that came with the same events is there to be read behind the `shutdown`, and goes
to the read callback of the closed connection. -/
theorem write_done_reads_on :
    (run (apply fun _ _ => 0) (init fun _ => .server 0 [])
        (closeWithInput ++ [.exec 0 (.read (.data [9]))])).map (fun r => r.1.log) =
      .ok [.opened 0, .channelUpdated 0 (some 0), .channelUpdated 0 (some 0),
        .channelUpdated 0 (some 0), .writeDoneCallback 0, .channelUpdated 0 (some 0),
        .closeCallback 0, .handled 0, .readCallback 0] ∧
    ¬ NoReadAfterClose 0 [.opened 0, .channelUpdated 0 (some 0), .channelUpdated 0 (some 0),
        .channelUpdated 0 (some 0), .writeDoneCallback 0, .channelUpdated 0 (some 0),
        .closeCallback 0, .handled 0, .readCallback 0] := by
  constructor
  · decide +kernel
  · simp [NoReadAfterClose]

end FxServer.Sys
