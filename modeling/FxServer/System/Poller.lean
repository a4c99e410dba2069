import FxServer.System.Lifecycle

/-!
# FxServer.System.Poller — whose channels does a poller hold?

`UpdateChannel` registers a channel that is absent under its descriptor, and takes for
granted that a channel that is there is the one it was given. `Destroy` removes the
channel, and every later `Write` or `StartReading` registers it again, for good.

All is in one loop, so the only order that matters is that of its tasks. A handler or a callback
may call into a connection; `Destroy` is a functor, and when it runs the stack is empty and the
batch is done.

* `poller_holds_live_channels` — on one loop, when `Destroy` is the last call into each
  connection and servers and clients die without connections, the poller holds channels
  of connections that have not been destroyed, each under its own descriptor.
* `write_registers_dead_channel` — a `Write` behind `Destroy`: the connection dies, and
  its channel stays.
-/

namespace FxServer

/-- The connection that the task calls into. -/
def Task.uses : Task → Option ConnId
  | .handleEvents c | .writeCallback c | .sendfile c _ _ | .finishWrite c _ | .readCallback c
  | .endEvents c | .startReading c | .enableReading c => some c
  | _ => none

/-- The task is a `Destroy`. -/
def Task.isDestroy : Task → Bool
  | .destroy _ => true
  | _ => false

/-- Where the channel of a connection stands, and whether the connection has died. -/
def Conn.place (conn : Conn) : ℕ × ℕ × Bool :=
  (conn.tcp.channel.fd, conn.tcp.channel.loop, conn.destructed)

namespace Sys

open Machine

/-- The connection has not come to its `Destroy`. -/
def Alive (s : Sys) (c : ConnId) : Prop := c < s.nextConn ∧ .destroyed c ∉ s.log

/-- The task can run between two functors: it is no `Destroy`, and calls into no
connection behind it. -/
def Direct (s : Sys) (task : Task) : Prop :=
  task.isDestroy = false ∧ ∀ c, task.uses = some c → s.Alive c

/-- What holds of the loop `loop`, where everything lives. -/
structure Registered (loop : ℕ) (s : Sys) : Prop where
  /-- there is one loop, of all owners -/
  baseLoop : ∀ o, (s.owners o).baseLoop = loop
  pool : ∀ o, (s.owners o).pool = []
  /-- and of all connections -/
  connLoop : ∀ c < s.nextConn, (s.tcp c).channel.loop = loop
  logged : ∀ c, .destroyed c ∈ s.log → c < s.nextConn
  /-- a connection dies behind its `Destroy` -/
  dead : ∀ c < s.nextConn, (s.conns c).destructed = true → .destroyed c ∈ s.log
  /-- connections that exist have descriptors of their own -/
  fds : ∀ c c', s.Exists c → s.Exists c' → (s.tcp c).channel.fd = (s.tcp c').channel.fd → c = c'
  /-- an entry leads to a connection with that descriptor that is alive -/
  channels : ∀ fd c, (s.threads loop).channels fd = some c →
    (s.tcp c).channel.fd = fd ∧ s.Alive c
  /-- what is about to run calls into connections that are alive, and is no `Destroy` -/
  stack : ∀ task ∈ (s.threads loop).stack, s.Direct task
  /-- and so do the handlers of the batch -/
  handling : ∀ rest, (s.threads loop).loop.phase = .handling rest →
    ∀ task, .channel task ∈ rest → s.Direct task
  /-- functors call into no connection but to destroy it -/
  calling : ∀ rest, (s.threads loop).loop.phase = .calling rest → ∀ task ∈ rest, task.uses = none
  /-- neither do those that are pending -/
  functors : ∀ task ∈ (s.threads loop).loop.functors, task.uses = none
  /-- whenever a channel was updated the entry was its own -/
  updated : ∀ c entry, .channelUpdated c entry ∈ s.log → entry = some c

variable {files : Files} {loop : ℕ} {s s' : Sys} {c : ConnId} {task : Task}

theorem init_registered {owners : ℕ → Owner} (hbase : ∀ o, (owners o).baseLoop = loop)
    (hpool : ∀ o, (owners o).pool = []) : Registered loop (init owners) := by
  constructor <;> simp [init, Exists, LoopThread.new, EventLoop.new, hbase, hpool]

/-! ## What the primitives keep -/

theorem Registered.push (h : Registered loop s) (ht : s.Direct task) :
    Registered loop (s.push loop task) := by
  have hself : (s.push loop task).threads loop =
      { s.threads loop with stack := task :: (s.threads loop).stack } := by simp [Sys.push]
  refine { h with channels := ?_, stack := ?_, handling := ?_, calling := ?_, functors := ?_ }
  all_goals rw [hself]
  · exact h.channels
  · exact List.forall_mem_cons.2 ⟨ht, h.stack⟩
  · exact h.handling
  · exact h.calling
  · exact h.functors

theorem Registered.queueInLoop {l : ℕ} (h : Registered loop s) (ht : task.uses = none) :
    Registered loop (s.queueInLoop loop l task) := by
  by_cases hl : l = loop
  · -- in the loop's own thread: no wake-up is needed, and the task names no connection
    subst hl
    have hself : (s.queueInLoop l l task).threads l = { s.threads l with
        loop := (s.threads l).loop.queueInLoop true task } := by simp [Sys.queueInLoop]
    refine { h with channels := ?_, stack := ?_, handling := ?_, calling := ?_, functors := ?_ }
    all_goals rw [hself]
    · exact h.channels
    · exact h.stack
    · intro rest hphase
      rw [EventLoop.queueInLoop_phase] at hphase
      exact h.handling rest hphase
    · intro rest hphase
      rw [EventLoop.queueInLoop_phase] at hphase
      exact h.calling rest hphase
    · simpa [or_imp, forall_and, ht] using h.functors
  · -- another loop's queue grows, and this thread is what it was
    have hself : (s.queueInLoop loop l task).threads loop = s.threads loop := by
      simp [Sys.queueInLoop, Ne.symm hl]
    refine { h with channels := ?_, stack := ?_, handling := ?_, calling := ?_, functors := ?_ }
    all_goals rw [hself]
    · exact h.channels
    · exact h.stack
    · exact h.handling
    · exact h.calling
    · exact h.functors

/-- A task that calls into no connection, and is no `Destroy`. -/
theorem direct_of_none (ht : task.uses = none) (hd : task.isDestroy = false) : s.Direct task :=
  ⟨hd, fun c hc => by rw [ht] at hc; cases hc⟩

/-- A call into a connection that has not come to its `Destroy`. -/
theorem Alive.direct (hc : s.Alive c) (ht : task.uses = some c) (hd : task.isDestroy = false) :
    s.Direct task := by
  refine ⟨hd, fun c' hc' => ?_⟩
  rw [ht] at hc'
  obtain rfl := Option.some.inj hc'
  exact hc

theorem Registered.runInLoop {l : ℕ} (h : Registered loop s) (ht : task.uses = none)
    (hd : task.isDestroy = false) : Registered loop (s.runInLoop loop l task) := by
  unfold Sys.runInLoop
  split
  · rename_i hl
    rw [← hl]
    exact h.push (direct_of_none ht hd)
  · exact h.queueInLoop ht

/-- A connection may change where it stays in its place. -/
theorem Registered.setConn {conn : Conn} (h : Registered loop s)
    (hplace : conn.place = (s.conns c).place) : Registered loop (s.setConn c conn) := by
  simp only [Conn.place, Prod.mk.injEq] at hplace
  rcases hplace with ⟨hfd, hloop, hdestructed⟩
  have hfds : ∀ c', ((s.setConn c conn).tcp c').channel.fd = (s.tcp c').channel.fd := fun c' => by
    by_cases hc : c' = c
    · subst hc
      simpa [tcp] using hfd
    · simp [tcp, hc]
  have hloops : ∀ c', ((s.setConn c conn).tcp c').channel.loop = (s.tcp c').channel.loop :=
      fun c' => by
    by_cases hc : c' = c
    · subst hc
      simpa [tcp] using hloop
    · simp [tcp, hc]
  have hdead : ∀ c', ((s.setConn c conn).conns c').destructed = (s.conns c').destructed :=
      fun c' => by
    by_cases hc : c' = c
    · subst hc
      simpa using hdestructed
    · simp [hc]
  refine { h with connLoop := ?_, dead := ?_, fds := ?_, channels := ?_ }
  · exact fun c' hc' => (hloops c').trans (h.connLoop c' hc')
  · exact fun c' hc' hd => h.dead c' hc' ((hdead c').symm.trans hd)
  · intro c₁ c₂ h₁ h₂ heq
    rw [hfds, hfds] at heq
    exact h.fds c₁ c₂ ⟨h₁.1, (hdead c₁).symm.trans h₁.2⟩ ⟨h₂.1, (hdead c₂).symm.trans h₂.2⟩ heq
  · exact fun fd c' hc' => ⟨(hfds c').trans (h.channels fd c' hc').1, (h.channels fd c' hc').2⟩

theorem Registered.setTcp {k : TcpConnection} (h : Registered loop s)
    (hplace : Conn.place { s.conns c with tcp := k } = (s.conns c).place) :
    Registered loop (s.setTcp c k) :=
  h.setConn hplace

/-- Events may be logged that destroy nothing and register what is there. -/
theorem Registered.emit {e : Event} (h : Registered loop s)
    (hdestroyed : ∀ c, e ≠ .destroyed c)
    (hupdated : ∀ c entry, e = .channelUpdated c entry → entry = some c) :
    Registered loop (s.emit e) := by
  have hlog : ∀ c, .destroyed c ∈ (s.emit e).log ↔ .destroyed c ∈ s.log := fun c => by
    simp [(hdestroyed c).symm]
  have halive : ∀ c, (s.emit e).Alive c ↔ s.Alive c := fun c =>
    and_congr_right fun _ => not_congr (hlog c)
  have hdirect : ∀ task, s.Direct task → (s.emit e).Direct task := fun task ht =>
    ⟨ht.1, fun c hc => (halive c).2 (ht.2 c hc)⟩
  refine { h with
    logged := ?_, dead := ?_, channels := ?_, stack := ?_, handling := ?_, updated := ?_ }
  · exact fun c hc => h.logged c ((hlog c).1 hc)
  · exact fun c hc hdead => (hlog c).2 (h.dead c hc hdead)
  · exact fun fd c hc => ⟨(h.channels fd c hc).1, (halive c).2 (h.channels fd c hc).2⟩
  · exact fun task ht => hdirect task (h.stack task ht)
  · exact fun rest hrest task ht => hdirect task (h.handling rest hrest task ht)
  · intro c entry hmem
    rcases List.mem_append.1 hmem with hmem | hmem
    · exact h.updated c entry hmem
    · exact hupdated c entry (List.mem_singleton.1 hmem).symm

/-- Owners may change that stay on the loop. -/
theorem Registered.setOwner {o : ℕ} {owner : Owner} (h : Registered loop s)
    (hbase : owner.baseLoop = loop) (hpool : owner.pool = []) :
    Registered loop (s.setOwner o owner) := by
  refine { h with baseLoop := fun o' => ?_, pool := fun o' => ?_ }
  all_goals
    by_cases ho : o' = o
    · subst ho
      simpa
    · simp [ho, h.baseLoop, h.pool]

/-- A connection that has not come to its `Destroy` has not died. -/
theorem Registered.exists_of_alive (h : Registered loop s) (hc : s.Alive c) : s.Exists c := by
  refine ⟨hc.1, ?_⟩
  by_contra hdead
  exact hc.2 (h.dead c hc.1 (by simpa using hdead))

/-- The entry of a channel that is updated is the channel. -/
theorem Registered.updateChannel (h : Registered loop s) (hc : s.Alive c)
    (hok : s.updateChannel loop c = .ok s') : Registered loop s' := by
  rcases bind_ok.1 hok with ⟨_, -, hok⟩
  split at hok
  · cases hok
    refine Registered.emit { h with
      channels := ?_, stack := ?_, handling := ?_, calling := ?_, functors := ?_ } (by simp)
        (by simp)
    all_goals simp only [setThread_threads, Function.update_self]
    · -- a new entry: the descriptor leads to the connection that asked
      intro fd c' hc'
      by_cases hfd : fd = (s.tcp c).channel.fd
      · rw [hfd, Function.update_self] at hc'
        obtain rfl := Option.some.inj hc'
        exact ⟨hfd.symm, hc⟩
      · rw [Function.update_of_ne hfd] at hc'
        exact h.channels fd c' hc'
    · exact h.stack
    · exact h.handling
    · exact h.calling
    · exact h.functors
  · rename_i entry hentry
    cases hok
    -- the entry that is there is the same connection's, since live connections have descriptors
    -- of their own
    rcases h.channels _ _ hentry with ⟨hfd, halive⟩
    have heq := h.fds entry c (h.exists_of_alive halive) (h.exists_of_alive hc) hfd
    exact h.emit (by simp) (by simp [heq])

/-! ## Closing -/

theorem Alive.setTcp {k : TcpConnection} {c' : ConnId} (h : s.Alive c) :
    (s.setTcp c' k).Alive c := h

theorem Frame.alive (h : Frame s s') (hc : s.Alive c) : s'.Alive c := by
  rcases h.log with ⟨events, hlog, huntracked⟩
  refine ⟨h.nextConn ▸ hc.1, fun hmem => ?_⟩
  rw [hlog] at hmem
  rcases List.mem_append.1 hmem with hmem | hmem
  · exact hc.2 hmem
  · cases huntracked _ hmem

/-- The close callback leaves the poller as it is. -/
theorem Registered.closeCallback (h : Registered loop s) (hok : s.closeCallback loop c = .ok s') :
    Registered loop s' := by
  rcases bind_ok.1 hok with ⟨_, -, hok⟩
  have hemitted : Registered loop (s.emit (.closeCallback c)) := h.emit (by simp) (by simp)
  simp only at hok
  split at hok
  · cases hok
    exact hemitted.runInLoop rfl rfl
  · split at hok
    · cases hok
    · cases hok
      exact Registered.queueInLoop
        (Registered.emit (hemitted.setOwner (h.baseLoop _) (h.pool _)) (by simp) (by simp)) rfl

/-- `ActiveClose` of a connection that is alive registers that connection. -/
theorem Registered.activeClose {shutdown : Bool} (h : Registered loop s) (hc : s.Alive c)
    (hok : s.activeClose loop c shutdown = .ok s') : Registered loop s' := by
  rcases bind_ok.1 hok with ⟨_, -, hok⟩
  rcases bind_ok.1 hok with ⟨k, hk, hok⟩
  rcases bind_ok.1 hok with ⟨s₁, hupdate, hclose⟩
  rcases TcpConnection.activeClose_frame hk with ⟨-, events, rfl⟩
  exact ((h.setTcp (by rfl)).updateChannel hc.setTcp hupdate).closeCallback hclose

theorem Registered.passiveClose (h : Registered loop s)
    (hc : (s.tcp c).closed = false → s.Alive c) (hok : s.passiveClose loop c = .ok s') :
    Registered loop s' := by
  rcases bind_ok.1 hok with ⟨_, -, hok⟩
  split at hok
  · cases hok
    exact h
  · rename_i hopen
    have halive := hc (by simpa using hopen)
    rcases bind_ok.1 hok with ⟨s₁, hupdate, hok⟩
    rcases bind_ok.1 hok with ⟨s₂, hupdate', hclose⟩
    have h₁ : Registered loop s₁ := (h.setTcp (by rfl)).updateChannel halive.setTcp hupdate
    have halive₁ : s₁.Alive c := ((Quiet.refl _).updateChannel hupdate).alive halive.setTcp
    exact (h₁.updateChannel halive₁ hupdate').closeCallback hclose

theorem Registered.closeFailed {failed : Option Bool} (h : Registered loop s) (hc : s.Alive c)
    (hok : s.closeFailed loop c failed = .ok s') : Registered loop s' := by
  unfold Sys.closeFailed at hok
  split at hok
  · exact h.activeClose hc hok
  · cases hok
    exact h

theorem Registered.connectedToPeer {failed : Bool} (h : Registered loop s) (hc : s.Alive c)
    (hok : s.connectedToPeer loop c failed = .ok s') : Registered loop s' := by
  rcases bind_ok.1 hok with ⟨_, -, hok⟩
  split at hok
  · exact h.activeClose hc hok
  · rcases bind_ok.1 hok with ⟨s₁, hupdate, hok⟩
    rcases bind_ok.1 hok with ⟨s₂, hupdate', hok⟩
    rcases bind_ok.1 hok with ⟨_, -, hok⟩
    rcases bind_ok.1 hok with ⟨_, -, hok⟩
    cases hok
    have h₁ : Registered loop s₁ := (h.setTcp (by rfl)).updateChannel hc.setTcp hupdate
    have hc₁ : s₁.Alive c := ((Quiet.refl _).updateChannel hupdate).alive hc.setTcp
    exact ((h₁.setTcp (by rfl)).updateChannel hc₁.setTcp hupdate').push (direct_of_none rfl rfl)

/-! ## Opening and `Destroy` -/

/-- A new connection is registered under a descriptor that was free. -/
theorem Registered.addConn {o fd : ℕ} {state : TcpConnectionState} (h : Registered loop s)
    (hfd : ¬ s.IsOpen fd) (hok : s.addConn o loop fd state = .ok s') :
    Registered loop s' ∧ s'.Alive s.nextConn := by
  have hadd := addConn_ok hok
  have hlog : ∀ c, .destroyed c ∈ s'.log ↔ .destroyed c ∈ s.log := fun c => by simp [hadd.log]
  have hnew : .destroyed s.nextConn ∉ s'.log := fun hmem =>
    (h.logged _ ((hlog _).1 hmem)).ne rfl
  have hlt : ∀ c, c < s'.nextConn → c ≠ s.nextConn → c < s.nextConn := fun c hc hne => by
    rw [hadd.nextConn] at hc
    exact lt_of_le_of_ne (Nat.le_of_lt_succ hc) hne
  have halive : ∀ c, s.Alive c → s'.Alive c := fun c hc =>
    ⟨by rw [hadd.nextConn]; exact Nat.lt_succ_of_lt hc.1, fun hmem => hc.2 ((hlog c).1 hmem)⟩
  have hdirect : ∀ task, s.Direct task → s'.Direct task := fun task ht =>
    ⟨ht.1, fun c hc => halive c (ht.2 c hc)⟩
  -- an object with the new descriptor is the new one
  have hexists : ∀ c, s'.Exists c → c ≠ s.nextConn →
      s.Exists c ∧ (s'.tcp c).channel.fd = (s.tcp c).channel.fd ∧ (s'.tcp c).channel.fd ≠ fd := by
    intro c hc hne
    have htcp : s'.tcp c = s.tcp c := by rw [hadd.tcp, if_neg hne]
    have hold : s.Exists c := by
      refine ⟨hlt c hc.1 hne, ?_⟩
      have hdead := hc.2
      rwa [hadd.conns, Function.update_of_ne hne] at hdead
    refine ⟨hold, by rw [htcp], fun heq => hfd ⟨c, hold.1, hold.2, ?_⟩⟩
    rw [← htcp, heq]
  have hfdnew : (s'.tcp s.nextConn).channel.fd = fd := by
    rw [hadd.tcp, if_pos rfl]
    rfl
  refine ⟨?_, by rw [Alive, hadd.nextConn]; exact ⟨Nat.lt_succ_self _, hnew⟩⟩
  constructor
  case baseLoop => exact fun o' => (hadd.baseLoop o').trans (h.baseLoop o')
  case pool => exact fun o' => (hadd.pool o').trans (h.pool o')
  case connLoop =>
    intro c hc
    rw [hadd.tcp]
    split
    · rfl
    · rename_i hne
      exact h.connLoop c (hlt c hc hne)
  case logged =>
    intro c hc
    rw [hadd.nextConn]
    exact Nat.lt_succ_of_lt (h.logged c ((hlog c).1 hc))
  case dead =>
    intro c hc hdead
    by_cases hne : c = s.nextConn
    · subst hne
      rw [hadd.conns, Function.update_self] at hdead
      cases hdead
    · rw [hadd.conns, Function.update_of_ne hne] at hdead
      exact (hlog c).2 (h.dead c (hlt c hc hne) hdead)
  case fds =>
    intro c c' hc hc' heq
    by_cases hne : c = s.nextConn <;> by_cases hne' : c' = s.nextConn
    · rw [hne, hne']
    · rw [hne, hfdnew] at heq
      exact absurd heq.symm (hexists c' hc' hne').2.2
    · rw [hne', hfdnew] at heq
      exact absurd heq (hexists c hc hne).2.2
    · rcases hexists c hc hne with ⟨hold, hsame, -⟩
      rcases hexists c' hc' hne' with ⟨hold', hsame', -⟩
      rw [hsame, hsame'] at heq
      exact h.fds c c' hold hold' heq
  case channels =>
    intro fd' c hc
    rw [hadd.threads] at hc
    rcases h.channels fd' c hc with ⟨hfd', hc⟩
    refine ⟨?_, halive c hc⟩
    rw [hadd.tcp, if_neg hc.1.ne, hfd']
  case stack =>
    rw [hadd.threads]
    exact fun task ht => hdirect task (h.stack task ht)
  case handling =>
    rw [hadd.threads]
    exact fun rest hrest task ht => hdirect task (h.handling rest hrest task ht)
  case calling =>
    rw [hadd.threads]
    exact h.calling
  case functors =>
    rw [hadd.threads]
    exact h.functors
  case updated =>
    intro c entry hmem
    rw [hadd.log] at hmem
    exact h.updated c entry (by simpa using hmem)

/-- `Destroy` runs as a functor: no task is left that calls into the connection. -/
theorem Registered.destroy {rest : List Task} {shutdown : Bool} (h : Registered loop s)
    (hstack : (s.threads loop).stack = []) (hphase : (s.threads loop).loop.phase = .calling rest)
    (hok : s.destroy loop c shutdown = .ok s') : Registered loop s' := by
  rcases destroy_ok hok with ⟨hexists, -, -, -, rfl⟩
  refine { h with
    logged := ?_, dead := ?_, channels := ?_, stack := ?_, handling := ?_, calling := ?_,
    functors := ?_, updated := ?_ }
  · intro c' hc'
    rcases List.mem_append.1 hc' with hc' | hc'
    · exact h.logged c' hc'
    · obtain rfl : c' = c := by simpa using hc'
      exact hexists.1
  · exact fun c' hc' hdead => List.mem_append_left _ (h.dead c' hc' hdead)
  · -- the entry goes, and the others belong to connections with other descriptors
    intro fd c' hc'
    simp only [emit_threads, setThread_threads, Function.update_self] at hc'
    by_cases hfd : fd = (s.tcp c).channel.fd
    · rw [hfd, Function.update_self] at hc'
      cases hc'
    · rw [Function.update_of_ne hfd] at hc'
      rcases h.channels fd c' hc' with ⟨hfd', hborn, hlive⟩
      refine ⟨hfd', hborn, fun hmem => ?_⟩
      rcases List.mem_append.1 hmem with hmem | hmem
      · exact hlive hmem
      · obtain rfl : c' = c := by simpa using hmem
        exact hfd hfd'.symm
  · simp [hstack]
  · simp [hphase]
  · simpa using h.calling
  · simpa using h.functors
  · intro c' entry hmem
    exact h.updated c' entry (by simpa using hmem)

/-! ## Tasks -/

/-- No call into a connection follows its `Destroy`, and owners die without connections. -/
def LastCall (s : Sys) : UserCall → Prop
  | .write c _ | .startReading c => .destroyed c ∉ s.log
  | .destroy _ _ => False
  | .destroyOwner o => ∀ fd, (s.owners o).connections fd = none
  | _ => True

/-- A call that the user may still make keeps the poller. -/
theorem userCall_registered {call : UserCall} (h : Registered loop s) (hlast : LastCall s call)
    (hclosed : ∀ c, (s.tcp c).closed = false → .destroyed c ∉ s.log)
    (hok : s.userCall files loop call = .ok s') : Registered loop s' := by
  cases call with
  | write c buf =>
    rcases bind_ok.1 hok with ⟨_, hexists, hok⟩
    rcases bind_ok.1 hok with ⟨_, -, hok⟩
    rcases bind_ok.1 hok with ⟨k, hk, hok⟩
    rcases TcpConnection.write_frame hk with ⟨writeBuf, rfl⟩
    have halive : s.Alive c := ⟨(checkExists_ok.1 hexists).1, hlast⟩
    exact (h.setConn (by rfl)).updateChannel halive hok
  | zeroCopyWrite c fd offset len =>
    rcases bind_ok.1 hok with ⟨_, -, hok⟩
    cases hok
    exact h.setTcp rfl
  | startReading c =>
    rcases bind_ok.1 hok with ⟨_, hexists, hok⟩
    cases hok
    rw [checkExists_ok] at hexists
    rw [h.connLoop c hexists.1, Sys.runInLoop, if_pos rfl]
    have halive : s.Alive c := ⟨hexists.1, hlast⟩
    exact h.push (halive.direct rfl rfl)
  | activeClose c shutdown =>
    rcases bind_ok.1 hok with ⟨_, hexists, hrest⟩
    rcases bind_ok.1 hrest with ⟨k, hk, -⟩
    -- the assertion of `ActiveClose`: the connection is open, so it was not destroyed yet
    have hopen := (TcpConnection.activeClose_frame hk).1
    exact h.activeClose ⟨(checkExists_ok.1 hexists).1, hclosed c hopen⟩ hok
  | passiveClose c =>
    rcases bind_ok.1 hok with ⟨_, hexists, -⟩
    exact h.passiveClose (fun hopen => ⟨(checkExists_ok.1 hexists).1, hclosed c hopen⟩) hok
  | destroy c shutdown => exact hlast.elim
  | keep c =>
    rcases bind_ok.1 hok with ⟨_, -, hok⟩
    cases hok
    exact h.setConn rfl
  | drop c =>
    cases hok
    exact h.setConn rfl
  | queueInLoop l =>
    cases hok
    exact h.queueInLoop rfl
  | connectTo o =>
    rcases bind_ok.1 hok with ⟨_, -, hok⟩
    cases hok
    exact h.queueInLoop rfl
  | destroyOwner o =>
    cases hok
    exact h.setOwner (h.baseLoop o) (h.pool o)
  | ret =>
    cases hok
    exact h

/-- Every task whose connection is alive keeps the poller. -/
theorem exec_registered {input : Input} (h : Registered loop s)
    (huses : ∀ c, task.uses = some c → s.Alive c)
    (hfunctor : task.isDestroy = true → (s.threads loop).stack = [] ∧
      ∃ rest, (s.threads loop).loop.phase = .calling rest)
    (hlast : ∀ call, input = .user call → LastCall s call)
    (hclosed : ∀ c, (s.tcp c).closed = false → .destroyed c ∉ s.log)
    (hok : s.exec files loop task input = .ok s') : Registered loop s' := by
  cases task with
  | newConnection o =>
    cases input with
    | accept fd =>
      simp only [exec] at hok
      split at hok
      · cases hok
        exact h.push (direct_of_none rfl rfl)
      · rename_i hfd
        rcases bind_ok.1 hok with ⟨_, -, hok⟩
        rcases bind_ok.1 hok with ⟨⟨l, owner⟩, hnext, hok⟩
        rcases bind_ok.1 hok with ⟨s₁, hadd, hok⟩
        cases hok
        -- there is no pool to take another loop from
        simp only [nextLoop, h.pool o, if_true, Except.ok.injEq, Prod.mk.injEq] at hnext
        rcases hnext with ⟨rfl, rfl⟩
        rw [h.baseLoop o] at hadd
        have hfd' : ¬ (s.setOwner o (s.owners o)).IsOpen fd := hfd
        rcases (h.setOwner (o := o) (h.baseLoop o) (h.pool o)).addConn hfd' hadd with ⟨h₁, halive⟩
        exact (h₁.push (halive.direct (by rfl) (by rfl))).runInLoop rfl rfl
    | _ =>
      cases hok
      exact h.push (direct_of_none rfl rfl)
  | handleEvents c =>
    rcases bind_ok.1 hok with ⟨_, -, hok⟩
    have hc : s.Alive c := huses c rfl
    have hpushed : Registered loop
        ((s.setConn c { s.conns c with handlingEvents := true }).push loop (.endEvents c)) :=
      (h.setConn (by rfl)).push (hc.direct rfl rfl)
    simp only at hok
    split at hok <;> split at hok <;> cases hok
    · exact (hpushed.push (hc.direct (by rfl) (by rfl))).push (hc.direct rfl rfl)
    · exact hpushed.push (hc.direct rfl rfl)
    · exact hpushed.push (hc.direct rfl rfl)
    · exact hpushed
  | writeCallback c =>
    have hc : s.Alive c := huses c rfl
    rcases bind_ok.1 hok with ⟨_, -, hok⟩
    split at hok
    · exact h.connectedToPeer hc hok
    · rcases bind_ok.1 hok with ⟨_, -, hok⟩
      rcases bind_ok.1 hok with ⟨⟨k, failed, rest⟩, hk, hok⟩
      rcases TcpConnection.writeLoop_frame hk with ⟨writeBuf, sent, rfl⟩
      exact ((h.setConn (by rfl)).push (hc.direct (by rfl) (by rfl))).closeFailed hc hok
    · cases hok
      exact h.push (hc.direct rfl rfl)
  | sendfile c bytesToRead results =>
    have hc : s.Alive c := huses c rfl
    rcases bind_ok.1 hok with ⟨_, -, hok⟩
    rcases bind_ok.1 hok with ⟨⟨k, failed⟩, hk, hok⟩
    rcases TcpConnection.sendfileLoop_frame hk with ⟨offset, writed, sent, rfl⟩
    exact ((h.setTcp (by rfl)).push (hc.direct (by rfl) (by rfl))).closeFailed hc hok
  | finishWrite c bytesToRead =>
    have hc : s.Alive c := huses c rfl
    rcases bind_ok.1 hok with ⟨_, -, hok⟩
    split at hok
    · rcases bind_ok.1 hok with ⟨s₁, hupdate, hok⟩
      cases hok
      have hset : Registered loop (s.setTcp c (s.tcp c).finishWrite) := by
        rcases (s.tcp c).finishWrite_frame with ⟨offset, len, writed, -, hframe⟩
        exact h.setTcp (by rw [hframe]; rfl)
      have h₁ : Registered loop s₁ := hset.updateChannel hc.setTcp hupdate
      exact (h₁.emit (by simp) (by simp)).push (direct_of_none rfl rfl)
    · cases hok
      exact h
  | readCallback c =>
    have hc : s.Alive c := huses c rfl
    rcases bind_ok.1 hok with ⟨_, -, hok⟩
    split at hok
    · split at hok
      · rcases bind_ok.1 hok with ⟨_, -, hok⟩
        split at hok
        · exact h.passiveClose (fun _ => hc) hok
        · rcases bind_ok.1 hok with ⟨k, hk, hok⟩
          cases hok
          rcases TcpConnection.readFromPeer_frame hk with ⟨readBuf, rfl⟩
          exact ((h.setTcp (by rfl)).emit (by simp) (by simp)).push (direct_of_none rfl rfl)
      · cases hok
        exact h.push (hc.direct rfl rfl)
    · cases hok
      exact h
  | endEvents c =>
    rcases bind_ok.1 hok with ⟨_, -, hok⟩
    cases hok
    exact h.setConn rfl
  | newConnectionCallback c =>
    cases hok
    exact h.push (direct_of_none rfl rfl)
  | startReading c =>
    have hc : s.Alive c := huses c rfl
    cases hok
    rw [h.connLoop c hc.1, Sys.runInLoop, if_pos rfl]
    exact h.push (hc.direct rfl rfl)
  | enableReading c =>
    have hc : s.Alive c := huses c rfl
    rcases bind_ok.1 hok with ⟨_, -, hok⟩
    exact (h.setTcp (by rfl)).updateChannel hc.setTcp hok
  | handleConnectionClose o fd =>
    rcases bind_ok.1 hok with ⟨_, -, hok⟩
    split at hok
    · cases hok
    · cases hok
      have herased : Registered loop (s.eraseConnection o fd) :=
        h.setOwner (h.baseLoop o) (h.pool o)
      exact ((herased.emit (by simp) (by simp)).push (direct_of_none rfl rfl)).runInLoop rfl rfl
  | closeConnectionCallback c =>
    cases hok
    exact h.push (direct_of_none rfl rfl)
  | queueDestroy c =>
    cases hok
    exact h.queueInLoop rfl
  | destroy c =>
    rcases hfunctor rfl with ⟨hstack, rest, hphase⟩
    exact h.destroy hstack hphase hok
  | connectTo o =>
    cases input with
    | connect fd connected =>
      simp only [exec] at hok
      split at hok
      · cases hok
        exact h.push (direct_of_none rfl rfl)
      · rename_i hfd
        rcases bind_ok.1 hok with ⟨_, -, hok⟩
        split at hok
        · rcases bind_ok.1 hok with ⟨s₁, hadd, hok⟩
          cases hok
          rw [h.baseLoop o] at hadd
          exact (h.addConn hfd hadd).1.push (direct_of_none rfl rfl)
        · rcases bind_ok.1 hok with ⟨s₁, hadd, hok⟩
          rw [h.baseLoop o] at hadd
          rcases h.addConn hfd hadd with ⟨h₁, halive⟩
          exact (h₁.setTcp (by rfl)).updateChannel halive.setTcp hok
    | connectFailed =>
      rcases bind_ok.1 hok with ⟨_, -, hok⟩
      cases hok
      exact h
    | _ =>
      cases hok
      exact h.push (direct_of_none rfl rfl)
  | user u =>
    cases input with
    | user call =>
      by_cases hret : call = .ret
      · subst hret
        cases hok
        exact h
      · rw [exec_user hret] at hok
        have hpushed : Registered loop (s.push loop (.user u)) := h.push (direct_of_none rfl rfl)
        exact userCall_registered hpushed (hlast call rfl) hclosed hok
    | _ =>
      cases hok
      exact h.push (direct_of_none rfl rfl)

/-! ## Steps -/

variable {stage : ConnId → Stage} {t : LoopThread}

/-- The same connections and history, and another thread. -/
theorem Registered.setThread (h : Registered loop s)
    (hchannels : t.channels = (s.threads loop).channels)
    (hstack : ∀ task ∈ t.stack, s.Direct task)
    (hhandling : ∀ rest, t.loop.phase = .handling rest →
      ∀ task, .channel task ∈ rest → s.Direct task)
    (hcalling : ∀ rest, t.loop.phase = .calling rest → ∀ task ∈ rest, task.uses = none)
    (hfunctors : ∀ task ∈ t.loop.functors, task.uses = none) :
    Registered loop (s.setThread loop t) := by
  refine { h with channels := ?_, stack := ?_, handling := ?_, calling := ?_, functors := ?_ }
  all_goals rw [setThread_threads, Function.update_self]
  · rw [hchannels]
    exact h.channels
  · exact hstack
  · exact hhandling
  · exact hcalling
  · exact hfunctors

/-- A task that is taken calls into no connection behind its `Destroy`, and `Destroy`
itself is taken as a functor. -/
theorem Registered.take (h : Registered loop s) (ht : (s.threads loop).take = some (task, t)) :
    Registered loop (s.setThread loop t) ∧ (∀ c, task.uses = some c → s.Alive c) ∧
      (task.isDestroy = true → t.stack = [] ∧ ∃ rest, t.loop.phase = .calling rest) := by
  unfold LoopThread.take at ht
  split at ht
  · -- a callback pushed by the handler that runs
    rename_i task' stack hstack
    cases ht
    have hdirect := h.stack
    rw [hstack, List.forall_mem_cons] at hdirect
    refine ⟨h.setThread rfl hdirect.2 h.handling h.calling h.functors, hdirect.1.2, fun hd => ?_⟩
    rw [hdirect.1.1] at hd
    cases hd
  · rename_i hstack
    split at ht
    · rename_i task' rest hphase
      cases ht
      -- the next handler of the batch
      have hdirect := h.handling _ hphase task List.mem_cons_self
      refine ⟨h.setThread rfl h.stack ?_ (by simp) h.functors, hdirect.2, fun hd => ?_⟩
      · rintro rest' heq task' hmem
        cases heq
        exact h.handling _ hphase task' (List.mem_cons_of_mem _ hmem)
      · rw [hdirect.1] at hd
        cases hd
    · rename_i task' rest hphase
      cases ht
      -- the next functor, the only place `Destroy` runs from
      have hnone := h.calling _ hphase
      rw [List.forall_mem_cons] at hnone
      refine ⟨h.setThread rfl h.stack (by simp) ?_ h.functors, fun c hc => ?_,
        fun _ => ⟨hstack, rest, rfl⟩⟩
      · rintro rest' heq
        cases heq
        exact hnone.2
      · rw [hnone.1] at hc
        cases hc
    · cases ht

/-- The active channels are those of live connections. -/
theorem fillActiveChannels_registered {ready : List Ready} {active : List (Handler Task)}
    (h : Registered loop s) (hok : s.fillActiveChannels loop ready = .ok (s', active)) :
    Registered loop s' ∧ ∀ task ∈ active.filterMap Handler.task, s'.Direct task := by
  refine ⟨fillActiveChannels_keeps (fun _ _ _ h => h.setTcp (by rfl)) h hok, fun task htask => ?_⟩
  cases fillActiveChannels_polled hok task htask with
  | accept o => exact direct_of_none rfl rfl
  | events hc => exact ((fillActiveChannels_quiet hok).alive (h.channels _ _ hc).2).direct rfl rfl

theorem Registered.next (h : Registered loop s) : Registered loop
    (s.setThread loop { s.threads loop with loop := (s.threads loop).loop.next }) := by
  refine h.setThread rfl h.stack ?_ ?_ ?_
  · show ∀ rest, (s.threads loop).loop.next.phase = .handling rest → _
    unfold EventLoop.next
    split
    · split <;> simp
    · simp
    · simp
    · simp
    · simp
    · exact h.handling
  · show ∀ rest, (s.threads loop).loop.next.phase = .calling rest → _
    unfold EventLoop.next
    split
    · split <;> simp
    · simp
    · -- the pending functors become the batch
      rintro rest heq
      cases heq
      exact h.functors
    · simp
    · simp
    · exact h.calling
  · show ∀ task ∈ (s.threads loop).loop.next.functors, _
    unfold EventLoop.next
    split
    · split <;> exact h.functors
    · exact h.functors
    · simp
    · exact h.functors
    · exact h.functors
    · exact h.functors

/-- A destroyed connection is no longer registered. -/
theorem Registered.destruct (h : Registered loop s) (hc : .destroyed c ∈ s.log) :
    Registered loop (s.setConn c { s.conns c with destructed := true }) := by
  have htcp : ∀ c', (s.setConn c { s.conns c with destructed := true }).tcp c' = s.tcp c' :=
      fun c' => by
    by_cases heq : c' = c
    · subst heq
      simp [tcp]
    · simp [tcp, heq]
  have hexists : ∀ c', (s.setConn c { s.conns c with destructed := true }).Exists c' →
      s.Exists c' := fun c' hc' => by
    by_cases heq : c' = c
    · subst heq
      simp [Exists] at hc'
    · simpa [Exists, heq] using hc'
  refine { h with connLoop := ?_, dead := ?_, fds := ?_, channels := ?_ }
  · exact fun c' hc' => by rw [htcp]; exact h.connLoop c' hc'
  · intro c' hc' hdead
    by_cases heq : c' = c
    · rwa [heq]
    · exact h.dead c' hc' (by simpa [heq] using hdead)
  · intro c₁ c₂ h₁ h₂ heq
    rw [htcp, htcp] at heq
    exact h.fds c₁ c₂ (hexists c₁ h₁) (hexists c₂ h₂) heq
  · exact fun fd c' hc' => by rw [htcp]; exact h.channels fd c' hc'

/-- The steps of the loop `loop`, with user code that leaves a connection alone from its
`Destroy` on. -/
def LastCalls (loop : ℕ) (s : Sys) : Label → Prop
  | .exec l (.user call) => l = loop ∧ LastCall s call
  | .exec l _ | .run l | .next l | .poll l _ | .callUser l => l = loop
  | .destruct _ => True

/-- A call of the poller: the loop handles the listeners that accept, and the channels that the
poller names, which belong to connections that are alive. -/
theorem Registered.poll {l : ℕ} {ready : List Ready} (h : Registered l s)
    (hok : s.step files (.poll l ready) = .ok s') : Registered l s' := by
  cases step_steps hok with
  | idle => exact h
  | poll _ _ s₁ active _ hfill =>
    rcases fillActiveChannels_registered h hfill with ⟨h₁, hactive⟩
    refine h₁.setThread rfl h₁.stack ?_ (by simp [EventLoop.poll]) h₁.functors
    rintro rest heq task hmem
    cases heq
    exact hactive task (Handler.mem_filterMap_task.2 hmem)

/-- Every step keeps the poller. -/
theorem step_registered {label : Label} (h : Registered loop s) (hlife : Lifecycle s stage)
    (hlast : LastCalls loop s label) (hok : s.step files label = .ok s') : Registered loop s' := by
  cases step_steps hok with
  | idle => exact h
  | run l =>
    obtain rfl : l = loop := hlast
    exact h.setThread rfl h.stack (by simp [EventLoop.run]) (by simp [EventLoop.run]) h.functors
  | wakeUp l rest _ hphase =>
    obtain rfl : l = loop := hlast
    refine h.setThread rfl h.stack ?_ (by simp) h.functors
    rintro rest' heq task hmem
    cases heq
    exact h.handling _ hphase task (List.mem_cons_of_mem _ hmem)
  | next l =>
    obtain rfl : l = loop := hlast
    exact h.next
  | poll l =>
    obtain rfl : l = loop := hlast
    exact h.poll hok
  | callUser l =>
    obtain rfl : l = loop := hlast
    exact h.push (direct_of_none rfl rfl)
  | exec l input task t _ ht hexec =>
    have hl : l = loop := by
      cases input with
      | user call => exact hlast.1
      | _ => exact hlast
    subst hl
    have hcall : ∀ call, input = .user call → LastCall s call := by
      rintro call rfl
      exact hlast.2
    rcases h.take ht with ⟨h₁, huses, hfunctor⟩
    refine exec_registered h₁ huses (fun hd => ?_) hcall (fun c hopen hmem => ?_) hexec
    · simpa using hfunctor hd
    · -- `Destroy` has run, so the connection is not open
      have hdestroyed := (hlife.destroyed_iff c).1 hmem
      have hborn := hlife.lt_nextConn (c := c) (by simp [hdestroyed])
      have hlive := (hlife.closed c hborn).1 hopen
      rw [hdestroyed] at hlive
      cases hlive
  | destruct c hexists hunreferenced =>
    exact h.destruct ((hlife.destroyed_iff c).2 (hlife.unreferenced hexists.1 hunreferenced))

/-! ## Runs -/

/-- In every run of a loop with servers and clients, when nothing calls into a connection
from its `Destroy` on and servers and clients are destroyed without connections: the poller
holds no channel of a connection that has died, and behind every `UpdateChannel` the entry
of the descriptor is the channel that was given. -/
theorem poller_holds_live_channels (files : Files) (loop : ℕ) (owners : ℕ → Owner)
    (hbase : ∀ o, (owners o).baseLoop = loop) (hpool : ∀ o, (owners o).pool = [])
    (labels : List Label) (hlast : Guarded (apply files) (LastCalls loop) (init owners) labels)
    (s : Sys) (us : List Unit) (hrun : run (apply files) (init owners) labels = .ok (s, us)) :
    (∀ fd c, (s.threads loop).channels fd = some c → s.Exists c ∧ (s.tcp c).channel.fd = fd) ∧
    ∀ c entry, .channelUpdated c entry ∈ s.log → entry = some c := by
  obtain ⟨h, -⟩ : Registered loop s ∧ ∃ stage, Lifecycle s stage := by
    refine inv_of_run (fun s => Registered loop s ∧ ∃ stage, Lifecycle s stage) ?_
      ⟨init_registered hbase hpool, _, init_lifecycle owners⟩ hlast hrun
    rintro s label s' u ⟨h, stage, hlife⟩ hlabel hstep
    rw [apply_ok] at hstep
    refine ⟨step_registered h hlife hlabel hstep, step_lifecycle hlife ?_ ?_ hstep⟩
    · rintro l c shutdown rfl
      exact hlabel.2
    · rintro l o rfl
      exact hlabel.2
  refine ⟨fun fd c hc => ?_, h.updated⟩
  rcases h.channels fd c hc with ⟨hfd, hlive⟩
  exact ⟨h.exists_of_alive hlive, hfd⟩

/-- A connection comes to the end of its stream and dies, and the next one is given its
descriptor. -/
theorem poller_holds_live_channels_run :
    ∃ s : Sys, (s.threads 0).channels 7 = some 1 ∧ s.Exists 1 := by
  let labels : List Label := [
    .run 0, .next 0, .poll 0 [.accept 0], .exec 0 (.accept 7), .exec 0 .none,
    .exec 0 (.user .ret), .exec 0 .none, .exec 0 .none,
    .next 0, .next 0, .next 0, .next 0, .next 0, .poll 0 [.events 7 epollIn],
    .exec 0 .none, .exec 0 (.read (.data [])), .exec 0 .none, .exec 0 .none,
    .exec 0 (.user .ret), .exec 0 .none, .exec 0 .none, .next 0, .next 0, .exec 0 .none,
    .destruct 0, .next 0, .next 0, .next 0, .poll 0 [.accept 0], .exec 0 (.accept 7),
    .exec 0 .none, .exec 0 (.user .ret), .exec 0 .none, .exec 0 .none]
  have hlast : Guarded (apply fun _ _ => 0) (LastCalls 0) (init fun _ => .server 0 []) labels :=
    Guarded.of_forall (by simp [labels, LastCalls, LastCall]) _
  have hresult : (run (apply fun _ _ => 0) (init fun _ => .server 0 []) labels).map (fun r =>
      (r.1.threads 0).channels 7) = .ok (some 1) := by
    decide +kernel
  rcases map_ok.1 hresult with ⟨⟨s, us⟩, hrun, hentry⟩
  have hlive := poller_holds_live_channels (fun _ _ => 0) 0 (fun _ => .server 0 []) (fun _ => rfl)
    (fun _ => rfl) labels hlast s us hrun
  exact ⟨s, hentry, (hlive.1 7 1 hentry).1⟩

/-- User code keeps a pointer and writes behind `Destroy`, in a timer callback: the channel
is registered again. The connection dies, and the next one with its descriptor finds the
dead channel when it registers its own. -/
theorem write_registers_dead_channel :
    (run (apply fun _ _ => 0) (init fun _ => .server 0 []) [
      .run 0, .next 0, .poll 0 [.accept 0], .exec 0 (.accept 7), .exec 0 .none,
      .exec 0 (.user (.keep 0)), .exec 0 (.user .ret), .exec 0 .none, .exec 0 .none,
      .next 0, .next 0, .next 0, .next 0, .next 0, .poll 0 [.events 7 epollIn],
      .exec 0 .none, .exec 0 (.read (.data [])), .exec 0 .none, .exec 0 .none,
      .exec 0 (.user .ret), .exec 0 .none, .exec 0 .none, .next 0, .next 0, .exec 0 .none,
      .next 0, .callUser 0, .exec 0 (.user (.write 0 [1])), .exec 0 (.user (.drop 0)),
      .exec 0 (.user .ret), .destruct 0,
      .next 0, .next 0, .poll 0 [.accept 0], .exec 0 (.accept 7),
      .exec 0 .none, .exec 0 (.user .ret), .exec 0 .none, .exec 0 .none]).map (fun r =>
        ((r.1.threads 0).channels 7, (r.1.conns 0).destructed, r.1.log.getLast?)) =
      .ok (some 0, true, some (.channelUpdated 1 (some 0))) := by
  decide +kernel

end Sys

end FxServer
