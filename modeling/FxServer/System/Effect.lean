import FxServer.System.Frame

/-!
# FxServer.System.Effect — what a task does to the life of connections

`Effect s here task input s'` lists what can come of a task that the loop `here` runs:
nothing, or one of the events of a connection's life. Invariants about lives are
proved from this list, not from the code of each task.

The list is made from the code once, task by task. It leaves out what no invariant asks for, such
as what is read and written, and keeps the events, the tables, and who posts what.

* `exec_effect` — the code does what the list says.
-/

namespace FxServer.Sys

/-- The connection `c`, open so far, is closed and its close callback called. -/
def Closes (s : Sys) (here : ℕ) (c : ConnId) (s' : Sys) : Prop :=
  ∃ s₁ s₂, s.Exists c ∧ (s.tcp c).closed = false ∧ Frame s s₁ ∧
    (∀ c', (s₁.tcp c').closed = if c' = c then true else (s.tcp c').closed) ∧
    s₁.closeCallback here c = .ok s₂ ∧ Quiet s₂ s'

/-- What can come of a task that the loop `here` runs, as far as the life of connections is
concerned. -/
inductive Effect (s : Sys) (here : ℕ) : Task → Input → Sys → Prop
  | quiet {task input s'} (htask : task.tracked = false) (h : Quiet s s') :
    Effect s here task input s'
  | reads {c result s' s₁} (hcallback : (s.tcp c).channel.readCallback = true)
    (hresult : result.closes = false) (h₁ : Quiet s s₁)
    (h : Quiet (s₁.emit (.readCallback c)) s') :
    Effect s here (.readCallback c) (.read result) s'
  | opens {task input s' s₁ s₂ o loop fd state} (htask : task.tracked = false)
    (hfd : ¬ s.IsOpen fd) (hstate : state ≠ .kDisconnected) (h₁ : Quiet s s₁)
    (h₂ : s₁.addConn o loop fd state = .ok s₂)
    (h : Quiet s₂ s') : Effect s here task input s'
  | closes {task input s' c} (htask : task.tracked = false) (h : Closes s here c s') :
    Effect s here task input s'
  | handles {o fd input s' c} (hc : (s.owners o).connections fd = some c)
    (h : Quiet (((s.eraseConnection o fd).emit (.handled c)).push here (.queueDestroy c)) s') :
    Effect s here (.handleConnectionClose o fd) input s'
  | queues {c input} : Effect s here (.queueDestroy c) input
    (s.queueInLoop here (s.tcp c).channel.loop (.destroy c))
  | destroys {c input s'} (h : Quiet (s.emit (.destroyed c)) s') :
    Effect s here (.destroy c) input s'
  /-- user code calls `Destroy` -/
  | userDestroys {u c shutdown s' s₁} (h₁ : Quiet s s₁)
    (h : Quiet (s₁.emit (.destroyed c)) s') :
    Effect s here (.user u) (.user (.destroy c shutdown)) s'
  /-- user code destroys a server or a client -/
  | disowns {u o s'} (h : Quiet (s.setOwner o { s.owners o with
      alive := false, connections := fun _ => none }) s') :
    Effect s here (.user u) (.user (.destroyOwner o)) s'

variable {files : Files} {s s' : Sys} {here : ℕ} {c : ConnId} {shutdown : Bool}

/-! ## Closing -/

/-- Behind the change of state: the channel is updated once or twice. -/
theorem closes_of_setTcp {k : TcpConnection} {s₁ s₂ : Sys}
    (h₁ : Quiet (s.setTcp c k) s₁) (h₂ : s₁.closeCallback here c = .ok s₂)
    (hexists : s.Exists c) (hopen : (s.tcp c).closed = false)
    (hfd : k.channel.fd = (s.tcp c).channel.fd) (hloop : k.channel.loop = (s.tcp c).channel.loop)
    (hk : k.closed = true) : Closes s here c s₂ := by
  refine ⟨s₁, s₂, hexists, hopen, ((Frame.refl s).setTcp hfd hloop).trans h₁.toFrame,
    fun c' => ?_, h₂, .refl s₂⟩
  rw [h₁.closed, setTcp_tcp]
  split <;> simp [*]

/-- `ActiveClose` is a closing. -/
theorem activeClose_closes (hok : s.activeClose here c shutdown = .ok s') :
    Closes s here c s' := by
  rcases bind_ok.1 hok with ⟨_, hexists, hok⟩
  rcases bind_ok.1 hok with ⟨k, hk, hok⟩
  rcases bind_ok.1 hok with ⟨s₁, hupdate, hclose⟩
  rcases TcpConnection.activeClose_frame hk with ⟨hopen, events, rfl⟩
  exact closes_of_setTcp ((Quiet.refl _).updateChannel hupdate) hclose
    (checkExists_ok.1 hexists) hopen rfl rfl rfl

theorem passiveClose_closes (hok : s.passiveClose here c = .ok s') :
    s' = s ∨ Closes s here c s' := by
  rcases bind_ok.1 hok with ⟨_, hexists, hok⟩
  split at hok
  · cases hok
    exact .inl rfl
  · rename_i hopen
    rcases bind_ok.1 hok with ⟨s₁, hupdate, hok⟩
    rcases bind_ok.1 hok with ⟨s₂, hupdate', hclose⟩
    exact .inr (closes_of_setTcp
      (((Quiet.refl _).updateChannel hupdate).updateChannel hupdate') hclose
      (checkExists_ok.1 hexists) (by simpa using hopen) rfl rfl rfl)

/-- A close behind a quiet step. -/
theorem Closes.of_quiet {s₀ : Sys} (hquiet : Quiet s s₀) (h : Closes s₀ here c s') :
    Closes s here c s' := by
  rcases h with ⟨s₁, s₂, hexists, hopen, h₁, hclosed, h₂, h⟩
  refine ⟨s₁, s₂, ?_, by rw [← hquiet.closed, hopen], hquiet.toFrame.trans h₁, fun c' => ?_,
    h₂, h⟩
  · rwa [Exists, hquiet.nextConn, hquiet.destructed] at hexists
  · rw [hclosed, hquiet.closed]

/-- The close path after an error closes, or does nothing. -/
theorem closeFailed_effect {failed : Option Bool} {s₀ : Sys} {task : Task} {input : Input}
    (htask : task.tracked = false) (hquiet : Quiet s s₀)
    (hok : s₀.closeFailed here c failed = .ok s') : Effect s here task input s' := by
  unfold closeFailed at hok
  split at hok
  · exact .closes htask ((activeClose_closes hok).of_quiet hquiet)
  · cases hok
    exact .quiet htask hquiet

/-! ## Tasks -/

/-- Besides its event `Destroy` is quiet. -/
theorem destroy_quiet (hok : s.destroy here c shutdown = .ok s') :
    Quiet (s.emit (.destroyed c)) s' := by
  rcases destroy_ok hok with ⟨-, -, -, -, rfl⟩
  exact (Quiet.refl (s.emit (.destroyed c))).setThread fun _ _ => rfl

theorem fillActiveChannels_quiet {l : ℕ} {ready : List Ready} {active : List (Handler Task)}
    (hok : s.fillActiveChannels l ready = .ok (s', active)) : Quiet s s' :=
  fillActiveChannels_keeps (fun _ _ _ h => h.setTcp (by rfl)) (Quiet.refl s) hok

/-- Choosing a loop leaves the owner's kind, base loop and table. -/
theorem nextLoop_ok {owner owner' : Owner} {l : ℕ} (hok : nextLoop owner = .ok (l, owner')) :
    owner'.kind = owner.kind ∧ owner'.baseLoop = owner.baseLoop ∧
      owner'.connections = owner.connections := by
  unfold nextLoop at hok
  split at hok
  · cases hok
    exact ⟨rfl, rfl, rfl⟩
  · split at hok
    · cases hok
    · cases hok
      exact ⟨rfl, rfl, rfl⟩

/-- Accepting opens a connection. -/
theorem onNewConnection_effect {o fd : ℕ} {task : Task} {input : Input}
    (htask : task.tracked = false) (hfd : ¬ s.IsOpen fd)
    (hok : s.onNewConnection here o fd = .ok s') : Effect s here task input s' := by
  rcases bind_ok.1 hok with ⟨_, -, hok⟩
  rcases bind_ok.1 hok with ⟨⟨l, owner⟩, hnext, hok⟩
  rcases bind_ok.1 hok with ⟨s₁, hadd, hok⟩
  cases hok
  rcases nextLoop_ok hnext with ⟨hkind, hbase, htable⟩
  exact .opens htask hfd (by decide) ((Quiet.refl s).setOwner hkind hbase htable) hadd
    (((Quiet.refl s₁).push (by rfl)).runInLoop rfl)

theorem onConnect_effect {o fd : ℕ} {connected : Bool} {task : Task} {input : Input}
    (htask : task.tracked = false) (hfd : ¬ s.IsOpen fd)
    (hok : s.onConnect here o fd connected = .ok s') : Effect s here task input s' := by
  rcases bind_ok.1 hok with ⟨_, -, hok⟩
  split at hok
  · rcases bind_ok.1 hok with ⟨s₁, hadd, hok⟩
    cases hok
    exact .opens htask hfd (by decide) (.refl s) hadd ((Quiet.refl s₁).push rfl)
  · rcases bind_ok.1 hok with ⟨s₁, hadd, hok⟩
    exact .opens htask hfd (by decide) (.refl s) hadd
      (((Quiet.refl s₁).setTcp (by rfl)).updateChannel hok)

theorem finishWrite_quiet (s : Sys) (c : ConnId) :
    Quiet s (s.setTcp c (s.tcp c).finishWrite) := by
  rcases (s.tcp c).finishWrite_frame with ⟨offset, len, writed, -, hframe⟩
  exact (Quiet.refl s).setTcp (by rw [hframe]; rfl)

/-- The end of a connect closes, or is quiet. -/
theorem connectedToPeer_effect {failed : Bool} {task : Task} {input : Input}
    (htask : task.tracked = false) (hok : s.connectedToPeer here c failed = .ok s') :
    Effect s here task input s' := by
  rcases bind_ok.1 hok with ⟨_, hconnecting, hok⟩
  rw [check_ok] at hconnecting
  split at hok
  · -- refused
    exact .closes htask (activeClose_closes hok)
  · rcases bind_ok.1 hok with ⟨s₁, hupdate, hok⟩
    rcases bind_ok.1 hok with ⟨s₂, hupdate', hok⟩
    rcases bind_ok.1 hok with ⟨_, -, hok⟩
    rcases bind_ok.1 hok with ⟨_, -, hok⟩
    cases hok
    have hstate : (s.tcp c).closed = false := by simp [TcpConnection.closed, hconnecting]
    have h₁ : Quiet s s₁ := ((Quiet.refl s).setTcp (by
      exact congrArg (fun closed => ((s.conns c).owner, (s.tcp c).channel.fd,
        (s.tcp c).channel.loop, (s.conns c).destructed, closed)) hstate.symm)).updateChannel hupdate
    exact .quiet htask (((h₁.setTcp (by rfl)).updateChannel hupdate').push rfl)

/-- A call of the user closes, destroys an owner, or is quiet. -/
theorem userCall_effect {s₀ : Sys} {u : Option ConnId} {call : UserCall} (hquiet : Quiet s s₀)
    (hok : s₀.userCall files here call = .ok s') :
    Effect s here (.user u) (.user call) s' := by
  cases call with
  | write c buf =>
    rcases bind_ok.1 hok with ⟨_, -, hok⟩
    rcases bind_ok.1 hok with ⟨_, -, hok⟩
    rcases bind_ok.1 hok with ⟨k, hk, hok⟩
    rcases TcpConnection.write_frame hk with ⟨writeBuf, rfl⟩
    exact .quiet rfl ((hquiet.setConn (by rfl)).updateChannel hok)
  | zeroCopyWrite c fd offset len =>
    rcases bind_ok.1 hok with ⟨_, -, hok⟩
    cases hok
    exact .quiet rfl (hquiet.setTcp rfl)
  | startReading c =>
    rcases bind_ok.1 hok with ⟨_, -, hok⟩
    cases hok
    exact .quiet rfl (hquiet.runInLoop rfl)
  | activeClose c shutdown => exact .closes rfl ((activeClose_closes hok).of_quiet hquiet)
  | passiveClose c =>
    rcases passiveClose_closes hok with rfl | hclose
    · exact .quiet rfl hquiet
    · exact .closes rfl (hclose.of_quiet hquiet)
  | destroy c shutdown =>
    exact .userDestroys hquiet (destroy_quiet hok)
  | keep c =>
    rcases bind_ok.1 hok with ⟨_, -, hok⟩
    cases hok
    exact .quiet rfl (hquiet.setConn rfl)
  | drop c =>
    cases hok
    exact .quiet rfl (hquiet.setConn rfl)
  | queueInLoop l =>
    cases hok
    exact .quiet rfl (hquiet.queueInLoop rfl)
  | connectTo o =>
    rcases bind_ok.1 hok with ⟨_, -, hok⟩
    cases hok
    exact .quiet rfl (hquiet.queueInLoop rfl)
  | destroyOwner o =>
    cases hok
    -- the table goes with its owner
    exact .disowns (hquiet.disown o)
  | ret =>
    cases hok
    exact .quiet rfl hquiet

/-- A user's call that goes on is its effect with the user still there. -/
theorem exec_user {u : Option ConnId} {call : UserCall} (hcall : call ≠ .ret) :
    s.exec files here (.user u) (.user call) =
      (s.push here (.user u)).userCall files here call := by
  cases call <;> first | rfl | exact absurd rfl hcall

/-- Every task has one of the effects. -/
theorem exec_effect {task : Task} {input : Input}
    (hok : s.exec files here task input = .ok s') : Effect s here task input s' := by
  have hrefl := Quiet.refl s
  cases task with
  | newConnection o =>
    cases input with
    | accept fd =>
      simp only [exec] at hok
      split at hok
      · cases hok
        exact .quiet rfl (hrefl.push rfl)
      · rename_i hfd
        exact onNewConnection_effect rfl hfd hok
    | _ =>
      cases hok
      exact .quiet rfl (hrefl.push rfl)
  | handleEvents c =>
    rcases bind_ok.1 hok with ⟨_, -, hok⟩
    have hpushed : Quiet s ((s.setConn c { s.conns c with handlingEvents := true }).push here
        (.endEvents c)) := (hrefl.setConn (by rfl)).push rfl
    -- the handlers that are called are untracked tasks
    simp only at hok
    split at hok <;> split at hok <;> cases hok
    · exact .quiet rfl ((hpushed.push (by rfl)).push rfl)
    · exact .quiet rfl (hpushed.push rfl)
    · exact .quiet rfl (hpushed.push rfl)
    · exact .quiet rfl hpushed
  | writeCallback c =>
    rcases bind_ok.1 hok with ⟨_, -, hok⟩
    split at hok
    · exact connectedToPeer_effect rfl hok
    · rcases bind_ok.1 hok with ⟨_, -, hok⟩
      rcases bind_ok.1 hok with ⟨⟨k, failed, rest⟩, hk, hok⟩
      rcases TcpConnection.writeLoop_frame hk with ⟨writeBuf, sent, rfl⟩
      exact closeFailed_effect rfl ((hrefl.setConn (by rfl)).push rfl) hok
    · cases hok
      exact .quiet rfl (hrefl.push rfl)
  | sendfile c bytesToRead results =>
    rcases bind_ok.1 hok with ⟨_, -, hok⟩
    rcases bind_ok.1 hok with ⟨⟨k, failed⟩, hk, hok⟩
    rcases TcpConnection.sendfileLoop_frame hk with ⟨offset, writed, sent, rfl⟩
    exact closeFailed_effect rfl ((hrefl.setTcp (by rfl)).push rfl) hok
  | finishWrite c bytesToRead =>
    rcases bind_ok.1 hok with ⟨_, -, hok⟩
    split at hok
    · rcases bind_ok.1 hok with ⟨s₁, hupdate, hok⟩
      cases hok
      exact .quiet rfl ((((finishWrite_quiet s c).updateChannel hupdate).emit (by rfl)).push rfl)
    · cases hok
      exact .quiet rfl hrefl
  | readCallback c =>
    rcases bind_ok.1 hok with ⟨_, -, hok⟩
    split at hok
    · rename_i hcallback
      split at hok
      · rename_i result
        rcases bind_ok.1 hok with ⟨_, -, hok⟩
        split at hok
        · rcases passiveClose_closes hok with rfl | hclose
          · exact .quiet rfl hrefl
          · exact .closes rfl hclose
        · rename_i hresult
          rcases bind_ok.1 hok with ⟨k, hk, hok⟩
          cases hok
          rcases TcpConnection.readFromPeer_frame hk with ⟨readBuf, rfl⟩
          exact .reads hcallback (by simpa using hresult) (hrefl.setTcp (by rfl))
            ((Quiet.refl _).push rfl)
      · cases hok
        exact .quiet rfl (hrefl.push rfl)
    · cases hok
      exact .quiet rfl hrefl
  | endEvents c =>
    rcases bind_ok.1 hok with ⟨_, -, hok⟩
    cases hok
    exact .quiet rfl (hrefl.setConn rfl)
  | newConnectionCallback c =>
    cases hok
    exact .quiet rfl (hrefl.push rfl)
  | startReading c =>
    cases hok
    exact .quiet rfl (hrefl.runInLoop rfl)
  | enableReading c =>
    rcases bind_ok.1 hok with ⟨_, -, hok⟩
    exact .quiet rfl ((hrefl.setTcp (by rfl)).updateChannel hok)
  | handleConnectionClose o fd =>
    rcases bind_ok.1 hok with ⟨_, -, hok⟩
    split at hok
    · cases hok
    · rename_i c hc
      cases hok
      exact .handles hc ((Quiet.refl _).runInLoop rfl)
  | closeConnectionCallback c =>
    cases hok
    exact .quiet rfl (hrefl.push rfl)
  | queueDestroy c =>
    cases hok
    exact .queues
  | destroy c => exact .destroys (destroy_quiet hok)
  | connectTo o =>
    cases input with
    | connect fd connected =>
      simp only [exec] at hok
      split at hok
      · cases hok
        exact .quiet rfl (hrefl.push rfl)
      · rename_i hfd
        exact onConnect_effect rfl hfd hok
    | connectFailed =>
      rcases bind_ok.1 hok with ⟨_, -, hok⟩
      cases hok
      exact .quiet rfl hrefl
    | _ =>
      cases hok
      exact .quiet rfl (hrefl.push rfl)
  | user u =>
    cases input with
    | user call =>
      by_cases hret : call = .ret
      · subst hret
        cases hok
        exact .quiet rfl hrefl
      · rw [exec_user hret] at hok
        exact userCall_effect (hrefl.push rfl) hok
    | _ =>
      cases hok
      exact .quiet rfl (hrefl.push rfl)

/-- A step does nothing to lives, runs a task, or is a destructor. -/
theorem step_cases {label : Label} (hok : s.step files label = .ok s') :
    (Quiet s s' ∧ ∀ l input, label = .exec l input → (s.threads l).take = none) ∨
    (∃ l input task t, label = .exec l input ∧ (s.threads l).take = some (task, t) ∧
      (s.setThread l t).exec files l task input = .ok s') ∨
    (∃ c, label = .destruct c ∧ s.Exists c ∧ ¬ s.Referenced c ∧
      s' = s.setConn c { s.conns c with destructed := true }) := by
  have hrefl := Quiet.refl s
  cases step_steps hok with
  | idle _ hidle => exact .inl ⟨hrefl, hidle⟩
  | run l _ hphase =>
    refine .inl ⟨hrefl.setThread fun task _ => ?_, by simp⟩
    rw [LoopThread.tasks_run hphase]
  | wakeUp l rest _ hphase =>
    refine .inl ⟨hrefl.setThread fun task _ => ?_, by simp⟩
    rw [LoopThread.tasks_wakeUp hphase]
  | next l =>
    refine .inl ⟨hrefl.setThread fun task _ => ?_, by simp⟩
    rw [LoopThread.tasks_next]
  | poll l ready s₁ active hphase hfill =>
    refine .inl ⟨(fillActiveChannels_quiet hfill).setThread fun task htask => ?_, by simp⟩
    -- the poller brings no task of a close
    have hnew : task ∉ active.filterMap Handler.task := fun hmem => by
      rw [(fillActiveChannels_polled hfill task hmem).tracked] at htask
      cases htask
    rw [fillActiveChannels_threads hfill, LoopThread.tasks_poll, List.count_append,
      List.count_append, List.count_eq_zero_of_not_mem hnew]
    simp [LoopThread.tasks, LoopThread.batch, hphase]
  | callUser l => exact .inl ⟨hrefl.push rfl, by simp⟩
  | exec l input task t _ ht hexec => exact .inr (.inl ⟨l, input, task, t, rfl, ht, hexec⟩)
  | destruct c hexists hunreferenced =>
    exact .inr (.inr ⟨c, rfl, hexists, hunreferenced, rfl⟩)

end FxServer.Sys
