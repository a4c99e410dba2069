import FxServer.System.Flush
import FxServer.System.Posted

/-!
# FxServer.System.Connecting — how a connection is connected and closed

A connection is connecting, connected or disconnected, and what its channel calls depends on that.
Here is what a task can do to where a connection stands, and to the entries of the tables and of
the pollers that lead to it.

The list of turns is short, as only few functions look at the state of a connection. Each
invariant about states and callbacks is proved from the turns, and need not know of queues and
threads.

* `Moves a s s'` — nothing has happened from `s` to `s'` but what `a` allows. Every primitive of the
  model has its lemma.
* `Turn` — the ways in which a task changes where a connection stands.
* `exec_turns`, `step_turns` — a task turns connections so, or opens one.
-/

namespace FxServer

/-- Where a connection stands: what becomes of it depends on nothing else. -/
structure Standing where
  owner : ℕ
  destructed : Bool
  loop : ℕ
  fd : ℕ
  state : TcpConnectionState
  readCallback : Bool
  writeCallback : WriteCallback
deriving DecidableEq, Repr

/-- The standing of a connection. -/
def Conn.standing (conn : Conn) : Standing where
  owner := conn.owner
  destructed := conn.destructed
  loop := conn.tcp.channel.loop
  fd := conn.tcp.channel.fd
  state := conn.tcp.state
  readCallback := conn.tcp.channel.readCallback
  writeCallback := conn.tcp.channel.writeCallback

namespace Sys

open Machine

/-! ## What may happen -/

/-- What may happen on a way from one state to another, besides what never matters here. -/
structure Allows where
  /-- the connection may stand elsewhere -/
  turns : ConnId → Prop
  /-- the owner may erase the entry of the descriptor -/
  erases : ℕ → ℕ → Prop
  /-- a poller may remove the entry of the descriptor -/
  removes : ℕ → Prop
  posts : Task → Prop

/-- From `s` to `s'` nothing has happened but what `a` allows. -/
structure Moves (a : Allows) (s s' : Sys) : Prop where
  nextConn : s'.nextConn = s.nextConn
  kind : ∀ o, (s'.owners o).kind = (s.owners o).kind
  /-- a connection whose turn it is not stands where it stood -/
  standing : ∀ c, ¬ a.turns c → (s'.conns c).standing = (s.conns c).standing
  /-- what is queued was queued, or may be posted -/
  tasks : ∀ l task, task ∈ s'.tasks l → task ∈ s.tasks l ∨ a.posts task
  /-- no owner comes back to life -/
  alive : ∀ o, (s'.owners o).alive = true → (s.owners o).alive = true
  /-- an owner that lives loses only entries that may be erased -/
  table : ∀ o, (s'.owners o).alive = true → ∀ fd c, (s.owners o).connections fd = some c →
    (s'.owners o).connections fd = some c ∨ a.erases o fd
  /-- and a poller only those that may be removed -/
  channels : ∀ l fd c, (s.threads l).channels fd = some c →
    (s'.threads l).channels fd = some c ∨ a.removes fd

section Moves

variable {a : Allows} {s s' s'' : Sys} {here l o fd : ℕ} {c : ConnId} {task : Task}

theorem Moves.refl (a : Allows) (s : Sys) : Moves a s s :=
  ⟨rfl, fun _ => rfl, fun _ _ => rfl, fun _ _ h => .inl h, fun _ h => h, fun _ _ _ _ h => .inl h,
    fun _ _ _ h => .inl h⟩

theorem Moves.trans (h : Moves a s s') (h' : Moves a s' s'') : Moves a s s'' where
  nextConn := h'.nextConn.trans h.nextConn
  kind o := (h'.kind o).trans (h.kind o)
  standing c hc := (h'.standing c hc).trans (h.standing c hc)
  tasks l task htask := by
    rcases h'.tasks l task htask with htask | hpost
    · exact h.tasks l task htask
    · exact .inr hpost
  alive o ho := h.alive o (h'.alive o ho)
  table o ho fd c hc := by
    rcases h.table o (h'.alive o ho) fd c hc with hc | herase
    · exact h'.table o ho fd c hc
    · exact .inr herase
  channels l fd c hc := by
    rcases h.channels l fd c hc with hc | hremove
    · exact h'.channels l fd c hc
    · exact .inr hremove

/-- A thread with other tasks. -/
theorem Moves.setThread {t : LoopThread} (h : Moves a s s')
    (htasks : ∀ task ∈ t.tasks, task ∈ s'.tasks l ∨ a.posts task)
    (hchannels : ∀ fd c, (s'.threads l).channels fd = some c →
      t.channels fd = some c ∨ a.removes fd) : Moves a s (s'.setThread l t) := by
  refine h.trans ⟨rfl, fun _ => rfl, fun _ _ => rfl, fun l' task htask => ?_, fun _ ho => ho,
    fun _ _ _ _ hc => .inl hc, fun l' fd c hc => ?_⟩
  · rw [tasks_setThread] at htask
    split at htask
    · rename_i hl
      rw [hl]
      exact htasks task htask
    · exact .inl htask
  · by_cases hl : l' = l
    · subst hl
      rw [setThread_threads, Function.update_self]
      exact hchannels fd c hc
    · rw [setThread_threads, Function.update_of_ne hl]
      exact .inl hc

theorem Moves.push (h : Moves a s s') (hpost : a.posts task) : Moves a s (s'.push l task) := by
  refine h.setThread (fun task' htask => ?_) fun _ _ hc => .inl hc
  rw [LoopThread.tasks_push, List.mem_cons] at htask
  rcases htask with rfl | htask
  · exact .inr hpost
  · exact .inl htask

theorem Moves.queueInLoop (h : Moves a s s') (hpost : a.posts task) :
    Moves a s (s'.queueInLoop here l task) := by
  refine h.setThread (fun task' htask => ?_) fun _ _ hc => .inl hc
  rw [LoopThread.tasks_queueInLoop, List.mem_append, List.mem_singleton] at htask
  rcases htask with htask | rfl
  · exact .inl htask
  · exact .inr hpost

theorem Moves.runInLoop (h : Moves a s s') (hpost : a.posts task) :
    Moves a s (s'.runInLoop here l task) := by
  unfold Sys.runInLoop
  split
  · exact h.push hpost
  · exact h.queueInLoop hpost

theorem Moves.emit {e : Event} (h : Moves a s s') : Moves a s (s'.emit e) :=
  ⟨h.nextConn, h.kind, h.standing, h.tasks, h.alive, h.table, h.channels⟩

/-- A connection may change in what is not its standing, or if it is its turn. -/
theorem Moves.setConn {conn : Conn} (h : Moves a s s')
    (hsame : a.turns c ∨ conn.standing = (s'.conns c).standing) :
    Moves a s (s'.setConn c conn) := by
  refine h.trans ⟨rfl, fun _ => rfl, fun c' hc' => ?_, fun _ _ htask => .inl htask, fun _ ho => ho,
    fun _ _ _ _ hc => .inl hc, fun _ _ _ hc => .inl hc⟩
  by_cases hc : c' = c
  · subst hc
    rw [setConn_conns, Function.update_self]
    exact hsame.resolve_left hc'
  · rw [setConn_conns, Function.update_of_ne hc]

theorem Moves.setTcp {k : TcpConnection} (h : Moves a s s')
    (hsame : a.turns c ∨ Conn.standing { s'.conns c with tcp := k } = (s'.conns c).standing) :
    Moves a s (s'.setTcp c k) :=
  h.setConn hsame

/-- An owner keeps its kind, does not come back to life, and loses the entries that may be
erased. -/
theorem Moves.setOwner {owner : Owner} (h : Moves a s s')
    (hkind : owner.kind = (s'.owners o).kind)
    (halive : owner.alive = true → (s'.owners o).alive = true)
    (htable : owner.alive = true → ∀ fd c, (s'.owners o).connections fd = some c →
      owner.connections fd = some c ∨ a.erases o fd) : Moves a s (s'.setOwner o owner) := by
  refine h.trans ⟨rfl, fun o' => ?_, fun _ _ => rfl, fun _ _ htask => .inl htask,
    fun o' ho => ?_, fun o' ho fd c hc => ?_, fun _ _ _ hc => .inl hc⟩
  all_goals by_cases heq : o' = o
  · subst heq
    rwa [setOwner_owners, Function.update_self]
  · rw [setOwner_owners, Function.update_of_ne heq]
  · subst heq
    rw [setOwner_owners, Function.update_self] at ho
    exact halive ho
  · rwa [setOwner_owners, Function.update_of_ne heq] at ho
  · subst heq
    rw [setOwner_owners, Function.update_self] at ho ⊢
    exact htable ho fd c hc
  · rw [setOwner_owners, Function.update_of_ne heq]
    exact .inl hc

/-- One entry of the table is erased. -/
theorem Moves.eraseConnection (h : Moves a s s') (herase : a.erases o fd) :
    Moves a s (s'.eraseConnection o fd) := by
  refine h.setOwner rfl (fun ho => ho) fun _ fd' c hc => ?_
  by_cases heq : fd' = fd
  · subst heq
    exact .inr herase
  · show Function.update (s'.owners o).connections fd none fd' = some c ∨ _
    rw [Function.update_of_ne heq]
    exact .inl hc

theorem Moves.updateChannel (h : Moves a s s') (hok : s'.updateChannel here c = .ok s'') :
    Moves a s s'' := by
  rcases bind_ok.1 hok with ⟨_, -, hok⟩
  split at hok
  · -- an entry is added where there was none
    rename_i hnone
    cases hok
    refine Moves.emit (h.setThread (fun _ htask => .inl htask) fun fd' c' hc' => .inl ?_)
    have hne : fd' ≠ (s'.tcp c).channel.fd := by
      rintro rfl
      cases hnone.symm.trans hc'
    show Function.update (s'.threads here).channels (s'.tcp c).channel.fd (some c) fd' = some c'
    rw [Function.update_of_ne hne]
    exact hc'
  · cases hok
    exact h.emit

/-- A descriptor that has no entry gets one. -/
theorem updateChannel_new (hok : s.updateChannel here c = .ok s')
    (hnone : (s.threads here).channels (s.tcp c).channel.fd = none) :
    (s'.threads (s.tcp c).channel.loop).channels (s.tcp c).channel.fd = some c := by
  rcases bind_ok.1 hok with ⟨_, hloop, hok⟩
  rw [check_ok] at hloop
  rw [hnone] at hok
  cases hok
  rw [hloop, emit_threads, setThread_threads, Function.update_self]
  exact Function.update_self ..

theorem Moves.removeChannel (h : Moves a s s') (hremove : a.removes (s'.tcp c).channel.fd)
    (hok : s'.removeChannel here c = .ok s'') : Moves a s s'' := by
  rcases bind_ok.1 hok with ⟨_, -, hok⟩
  rcases bind_ok.1 hok with ⟨_, -, hok⟩
  cases hok
  refine h.setThread (fun _ htask => .inl htask) fun fd' c' hc' => ?_
  by_cases heq : fd' = (s'.tcp c).channel.fd
  · rw [heq]
    exact .inr hremove
  · show Function.update (s'.threads here).channels (s'.tcp c).channel.fd none fd' = some c' ∨ _
    rw [Function.update_of_ne heq]
    exact .inl hc'

theorem Moves.destroy {shutdown : Bool} (h : Moves a s s')
    (hremove : a.removes (s'.tcp c).channel.fd)
    (hok : s'.destroy here c shutdown = .ok s'') : Moves a s s'' := by
  rcases bind_ok.1 hok with ⟨_, -, hok⟩
  rcases bind_ok.1 hok with ⟨_, -, hok⟩
  rcases bind_ok.1 hok with ⟨_, -, hok⟩
  rcases bind_ok.1 hok with ⟨s₁, hremoved, hok⟩
  cases hok
  exact (h.removeChannel hremove hremoved).emit

/-- The close callback erases the entry, and posts what its kind of owner posts. -/
theorem Moves.closeCallback (h : Moves a s s')
    (herase : a.erases (s'.conns c).owner (s'.tcp c).channel.fd)
    (hserver : (s'.owners (s'.conns c).owner).kind = .server →
      a.posts (.handleConnectionClose (s'.conns c).owner (s'.tcp c).channel.fd))
    (hdestroy : ∀ c', a.posts (.destroy c')) (hok : s'.closeCallback here c = .ok s'') :
    Moves a s s'' := by
  rcases bind_ok.1 hok with ⟨_, -, hok⟩
  simp only at hok
  split at hok
  · rename_i hkind
    cases hok
    exact h.emit.runInLoop (hserver hkind)
  · split at hok
    · cases hok
    · cases hok
      exact (h.emit.eraseConnection herase).emit.queueInLoop (hdestroy _)

end Moves

/-! ## What a task may do -/

section Allows

variable {s s₁ s₂ s' : Sys} {task : Task} {input : Input} {here : ℕ} {c : ConnId}

/-- The task may be posted in this state. -/
def Fresh (s : Sys) : Task → Prop
  | .sendfile c _ _ => c < s.nextConn ∧ (s.tcp c).channel.writeCallback = .writeToPeer
  | .handleConnectionClose o _ => (s.owners o).kind = .server
  | .connectTo o => (s.owners o).kind = .client
  | _ => True

/-- What `task` may do from `s` to `s'`: it erases an entry when it closes the connection, and
removes one when it destroys it. -/
def allows (s : Sys) (task : Task) (s' : Sys) (turns : ConnId → Prop) : Allows where
  turns
  erases o fd := task = .handleConnectionClose o fd ∨ ∃ c, s.Exists c ∧ (s.conns c).owner = o ∧
    (s.tcp c).channel.fd = fd ∧ (s'.tcp c).state = .kDisconnected
  removes fd := ∃ c, s.Exists c ∧ (s.tcp c).state = .kDisconnected ∧ (s.tcp c).channel.fd = fd
  posts task' := s.Fresh task' ∨ task' = task

/-- Nothing but tasks that may be posted. -/
def plain (s : Sys) : Allows where
  turns _ := False
  erases _ _ := False
  removes _ := False
  posts := s.Fresh

/-- The task, or the call of user code, closes the connection. -/
def Closing (s : Sys) (c : ConnId) : Task → Input → Prop
  | .writeCallback c', _ => c' = c ∧ (s.tcp c).channel.writeCallback = .writeToPeer
  | .sendfile c' _ _, _ => c' = c
  | .readCallback c', _ => c' = c ∧ (s.tcp c).channel.readCallback = true
  | .user _, .user (.activeClose c' _) | .user _, .user (.passiveClose c') => c' = c
  | _, _ => False

/-- How a task leads from where a connection stands to `x`. -/
inductive Turn (s : Sys) (task : Task) (input : Input) (c : ConnId) (x : Standing) : Prop where
  | stands (h : x = (s.conns c).standing)
  | connects (htask : task = .writeCallback c) (hinput : input = .soError false)
      (hexists : s.Exists c) (hstate : (s.tcp c).state = .kConnecting)
      (h : x = { (s.conns c).standing with
        state := .kConnected, readCallback := true, writeCallback := .writeToPeer })
  | fails (htask : task = .writeCallback c) (hinput : input = .soError true)
      (hcallback : (s.tcp c).channel.writeCallback = .connectedToPeer)
      (hexists : s.Exists c) (hstate : (s.tcp c).state = .kConnecting)
      (h : x = { (s.conns c).standing with state := .kDisconnected })
  | closes (hclosing : s.Closing c task input) (hexists : s.Exists c)
      (hopen : (s.tcp c).closed = false)
      (h : x = { (s.conns c).standing with state := .kDisconnected })

/-- A task has turned connections. -/
def Turned (s : Sys) (task : Task) (input : Input) (s' : Sys) : Prop :=
  ∃ turns, Moves (s.allows task s' turns) s s' ∧
    ∀ c, turns c → s.Turn task input c (s'.conns c).standing

/-- Each connection made one turn, or none. -/
theorem Turned.turn (h : s.Turned task input s') (c : ConnId) :
    s.Turn task input c (s'.conns c).standing := by
  rcases h with ⟨turns, hmoves, hturns⟩
  by_cases hc : turns c
  · exact hturns c hc
  · exact .stands (hmoves.standing c hc)

/-- It has left all of them where they were. -/
theorem Turned.of_moves (h : Moves (s.allows task s' fun _ => False) s s') :
    s.Turned task input s' := ⟨_, h, fun _ hc => hc.elim⟩

/-- Where at most one connection turned, that turn is the task's. -/
theorem Turned.of_turn (h : Moves (s.allows task s' (· = c)) s s')
    (hturn : s.Turn task input c (s'.conns c).standing) : s.Turned task input s' := by
  refine ⟨_, h, ?_⟩
  rintro _ rfl
  exact hturn

/-- A task of another kind than those that are counted may always be posted. -/
theorem fresh_posts {task' : Task} {turns : ConnId → Prop} (h : s.Fresh task') :
    (s.allows task s' turns).posts task' := .inl h

/-- The close callback behind the change of state. -/
theorem Moves.closed {k : TcpConnection} (h : Moves (s.allows task s' (· = c)) s s₁)
    (hexists : s.Exists c)
    (hk : Conn.standing { s₁.conns c with tcp := k } =
      { (s.conns c).standing with state := .kDisconnected })
    (hupdate : Moves (s.allows task s' (· = c)) (s₁.setTcp c k) s₂)
    (hconns : s₂.conns = (s₁.setTcp c k).conns) (hok : s₂.closeCallback here c = .ok s') :
    Moves (s.allows task s' (· = c)) s s' ∧
      (s'.conns c).standing = { (s.conns c).standing with state := .kDisconnected } := by
  have hstanding : (s₂.conns c).standing =
      { (s.conns c).standing with state := .kDisconnected } := by
    rw [hconns, setTcp_conns, Function.update_self]
    exact hk
  have hstanding' : (s'.conns c).standing =
      { (s.conns c).standing with state := .kDisconnected } := by
    rw [closeCallback_conns hok]
    exact hstanding
  have howner : (s₂.conns c).owner = (s.conns c).owner := congrArg Standing.owner hstanding
  have hfd : (s₂.tcp c).channel.fd = (s.tcp c).channel.fd := congrArg Standing.fd hstanding
  have hstate : (s'.tcp c).state = .kDisconnected := congrArg Standing.state hstanding'
  -- first the state and the channel, then the callback
  have h₂ : Moves (s.allows task s' (· = c)) s s₂ :=
    (h.setTcp (c := c) (k := k) (.inl rfl)).trans hupdate
  refine ⟨h₂.closeCallback ?_ ?_ (fun _ => .inl trivial) hok, hstanding'⟩
  · rw [howner, hfd]
    exact .inr ⟨c, hexists, rfl, rfl, hstate⟩
  · intro hserver
    rw [h₂.kind] at hserver
    exact .inl hserver

/-- `ActiveClose` takes an open connection to `kDisconnected`. -/
theorem Moves.activeClose {shutdown : Bool} (h : Moves (s.allows task s' (· = c)) s s₁)
    (hsame : (s₁.conns c).standing = (s.conns c).standing) (hexists : s.Exists c)
    (hok : s₁.activeClose here c shutdown = .ok s') :
    Moves (s.allows task s' (· = c)) s s' ∧ (s.tcp c).closed = false ∧
      (s'.conns c).standing = { (s.conns c).standing with state := .kDisconnected } := by
  rcases bind_ok.1 hok with ⟨_, -, hok⟩
  rcases bind_ok.1 hok with ⟨k, hk, hok⟩
  rcases bind_ok.1 hok with ⟨s₂, hupdate, hclose⟩
  rcases TcpConnection.activeClose_frame hk with ⟨hopen, events, rfl⟩
  have hstate : (s₁.tcp c).state = (s.tcp c).state := congrArg Standing.state hsame
  obtain ⟨hmoves, hstanding⟩ := h.closed hexists (by rw [← hsame]; rfl)
    ((Moves.refl _ _).updateChannel hupdate) (updateChannel_conns hupdate) hclose
  refine ⟨hmoves, ?_, hstanding⟩
  rw [TcpConnection.closed, hstate] at hopen
  exact hopen

/-- `PassiveClose` does, or finds it closed. -/
theorem Moves.passiveClose (h : Moves (s.allows task s' (· = c)) s s₁)
    (hsame : (s₁.conns c).standing = (s.conns c).standing) (hexists : s.Exists c)
    (hok : s₁.passiveClose here c = .ok s') :
    s' = s₁ ∨ Moves (s.allows task s' (· = c)) s s' ∧ (s.tcp c).closed = false ∧
      (s'.conns c).standing = { (s.conns c).standing with state := .kDisconnected } := by
  rcases bind_ok.1 hok with ⟨_, -, hok⟩
  split at hok
  · cases hok
    -- it was closed already
    exact .inl rfl
  · rename_i hopen
    rcases bind_ok.1 hok with ⟨s₂, hupdate, hok⟩
    rcases bind_ok.1 hok with ⟨s₃, hupdate', hclose⟩
    have hstate : (s₁.tcp c).state = (s.tcp c).state := congrArg Standing.state hsame
    obtain ⟨hmoves, hstanding⟩ := h.closed hexists (by rw [← hsame]; rfl)
      (((Moves.refl _ _).updateChannel hupdate).updateChannel hupdate')
      ((updateChannel_conns hupdate').trans (updateChannel_conns hupdate)) hclose
    refine .inr ⟨hmoves, ?_, hstanding⟩
    rw [TcpConnection.closed, hstate] at hopen
    simpa [TcpConnection.closed] using hopen

/-- A task has opened a connection of the owner `o`. -/
structure Opens (s : Sys) (here : ℕ) (task : Task) (input : Input) (s' : Sys) (o loop fd : ℕ)
    (state : TcpConnectionState) (s₀ s₁ : Sys) : Prop where
  /-- the descriptor is that of no other connection -/
  free : ¬ s.IsOpen fd
  /-- it is connected at once, or it is a client's -/
  connects : state = .kConnected ∨
    state = .kConnecting ∧ task = .connectTo o ∧ input = .connect fd false
  before : Moves s.plain s s₀
  /-- the connection joins the table of its owner -/
  added : s₀.addConn o loop fd state = .ok s₁
  behind : Moves s.plain s₁ s'
  /-- a connection that is connecting is in the poller, unless an entry was left there -/
  polled : state = .kConnecting → (s.threads here).channels fd = none →
    (s'.threads loop).channels fd = some s.nextConn

/-- What a task posts. -/
theorem Turned.tasks (h : s.Turned task input s') {l : ℕ} {task' : Task}
    (hmem : task' ∈ s'.tasks l) : task' ∈ s.tasks l ∨ s.Fresh task' ∨ task' = task := by
  rcases h with ⟨turns, hmoves, -⟩
  exact hmoves.tasks l task' hmem

theorem Turned.nextConn (h : s.Turned task input s') : s'.nextConn = s.nextConn := by
  rcases h with ⟨turns, hmoves, -⟩
  exact hmoves.nextConn

/-- What is connecting behind a task was so before it. -/
theorem Turn.of_connecting {x : Standing} (h : s.Turn task input c x)
    (hx : x.state = .kConnecting) : x = (s.conns c).standing := by
  cases h with
  | stands h => exact h
  | connects _ _ _ _ h | fails _ _ _ _ _ h | closes _ _ _ h =>
    rw [h] at hx
    cases hx

/-- A channel that writes to its peer goes on with that. -/
theorem Turn.writeToPeer {x : Standing} (h : s.Turn task input c x)
    (hc : (s.tcp c).channel.writeCallback = .writeToPeer) : x.writeCallback = .writeToPeer := by
  cases h with
  | stands h | fails _ _ _ _ _ h | closes _ _ _ h =>
    rw [h]
    exact hc
  | connects _ _ _ _ h => rw [h]

section Opens

variable {o loop fd : ℕ} {state : TcpConnectionState} {s₀ s₁ : Sys}

theorem Opens.nextConn (h : s.Opens here task input s' o loop fd state s₀ s₁) :
    s'.nextConn = s.nextConn + 1 := by
  rw [h.behind.nextConn, (addConn_ok h.added).nextConn, h.before.nextConn]

/-- The new connection stands as it was made, and the others as they stood. -/
theorem Opens.standing (h : s.Opens here task input s' o loop fd state s₀ s₁) (c : ConnId) :
    (s'.conns c).standing =
      if c = s.nextConn then (Conn.new o loop fd state).standing else (s.conns c).standing := by
  rw [h.behind.standing c (fun hc => hc), (addConn_ok h.added).conns, h.before.nextConn]
  split
  · rename_i hc
    rw [hc, Function.update_self]
  · rename_i hc
    rw [Function.update_of_ne hc, h.before.standing c (fun hc => hc)]

/-- What is queued was queued, or is for the new connection. -/
theorem Opens.tasks (h : s.Opens here task input s' o loop fd state s₀ s₁) {l : ℕ} {task' : Task}
    (hmem : task' ∈ s'.tasks l) : task' ∈ s.tasks l ∨ s.Fresh task' := by
  rcases h.behind.tasks l task' hmem with hmem | hpost
  · have hsame : s₁.tasks l = s₀.tasks l := by
      rw [Sys.tasks, (addConn_ok h.added).threads, Sys.tasks]
    rw [hsame] at hmem
    exact h.before.tasks l task' hmem
  · exact .inr hpost

end Opens

end Allows

/-! ## Tasks -/

section Exec

variable {files : Files} {s s₁ s' : Sys} {task : Task} {input : Input} {here : ℕ} {c : ConnId}

/-- The close path after an error is a closing turn. -/
theorem closeFailed_turns {failed : Option Bool}
    (h : ∀ turns, Moves (s.allows task s' turns) s s₁) (hexists : s.Exists c)
    (hclosing : s.Closing c task input) (hok : s₁.closeFailed here c failed = .ok s') :
    s.Turned task input s' := by
  have hsame : (s₁.conns c).standing = (s.conns c).standing :=
    (h fun _ => False).standing c (fun hc => hc)
  unfold closeFailed at hok
  split at hok
  · rcases (h (· = c)).activeClose hsame hexists hok with ⟨hmoves, hopen, hstanding⟩
    exact .of_turn hmoves (.closes hclosing hexists hopen hstanding)
  · cases hok
    exact .of_moves (h _)

/-- The end of a connect is a turn of its own. -/
theorem connectedToPeer_turns {failed : Bool} (hexists : s.Exists c)
    (hcallback : (s.tcp c).channel.writeCallback = .connectedToPeer)
    (hok : s.connectedToPeer here c failed = .ok s') :
    s.Turned (.writeCallback c) (.soError failed) s' := by
  rcases bind_ok.1 hok with ⟨_, hstate, hok⟩
  rw [check_ok] at hstate
  cases failed with
  | true =>
    rcases (Moves.refl _ s).activeClose rfl hexists hok with ⟨hmoves, -, hstanding⟩
    -- refused: the connection is closed
    exact .of_turn hmoves (.fails rfl rfl hcallback hexists hstate hstanding)
  | false =>
    rcases bind_ok.1 hok with ⟨s₁, hupdate, hok⟩
    rcases bind_ok.1 hok with ⟨s₂, hupdate', hok⟩
    rcases bind_ok.1 hok with ⟨_, -, hok⟩
    rcases bind_ok.1 hok with ⟨_, -, hok⟩
    have hconns := updateChannel_conns hupdate
    have hconns' := updateChannel_conns hupdate'
    -- connected: writing is disabled, the callbacks are set and the user is told
    have h₁ : Moves (s.allows (.writeCallback c) s' (· = c)) s s₁ :=
      ((Moves.refl _ s).setTcp (.inl rfl)).updateChannel hupdate
    have h₂ : Moves (s.allows (.writeCallback c) s' (· = c)) s s₂ :=
      (h₁.setTcp (.inl rfl)).updateChannel hupdate'
    have h₃ : Moves (s.allows (.writeCallback c) s' (· = c)) s
        (s₂.push here (.user (some c))) := h₂.push (.inl trivial)
    have hpushed : s₂.push here (.user (some c)) = s' := Except.ok.inj hok
    rw [hpushed] at h₃
    refine .of_turn h₃ (.connects rfl rfl hexists hstate ?_)
    rw [← hpushed, push_conns, hconns', setTcp_conns, Function.update_self, tcp, hconns,
      setTcp_conns, Function.update_self]
    rfl

/-- A connector that got its socket opens one connection. -/
theorem onConnect_opens {o fd : ℕ} {connected : Bool} (hfd : ¬ s.IsOpen fd)
    (hok : s.onConnect here o fd connected = .ok s') :
    ∃ loop state s₀ s₁,
      s.Opens here (.connectTo o) (.connect fd connected) s' o loop fd state s₀ s₁ := by
  rcases bind_ok.1 hok with ⟨_, -, hok⟩
  split at hok
  · rcases bind_ok.1 hok with ⟨s₁, hadd, hok⟩
    cases hok
    exact ⟨_, _, s, s₁, hfd, .inl rfl, .refl _ s, hadd, (Moves.refl _ s₁).push trivial,
      fun hconnecting => by cases hconnecting⟩
  · rename_i hconnected
    rw [Bool.not_eq_true] at hconnected
    rcases bind_ok.1 hok with ⟨s₁, hadd, hok⟩
    refine ⟨_, _, s, s₁, hfd, .inr ⟨rfl, rfl, by rw [hconnected]⟩, .refl _ s, hadd,
      ((Moves.refl _ s₁).setTcp (.inr (by rfl))).updateChannel hok, fun _ hnone => ?_⟩
    have hadded := addConn_ok hadd
    have hnew : s₁.conns s.nextConn = .new o (s.owners o).baseLoop fd .kConnecting := by
      rw [hadded.conns, Function.update_self]
    -- the constructor enables writing, and the poller has no entry yet
    have hentry := updateChannel_new hok (by
      simp [tcp, setTcp, hnew, Conn.new, TcpConnection.new, Channel.enableWriting, hadded.threads,
        hnone])
    simpa [tcp, setTcp, hnew, Conn.new, TcpConnection.new, Channel.enableWriting] using hentry

/-- An acceptor opens one connection. -/
theorem onNewConnection_opens {o fd : ℕ} (hfd : ¬ s.IsOpen fd)
    (hok : s.onNewConnection here o fd = .ok s') :
    ∃ loop state s₀ s₁,
      s.Opens here (.newConnection o) (.accept fd) s' o loop fd state s₀ s₁ := by
  rcases bind_ok.1 hok with ⟨_, -, hok⟩
  rcases bind_ok.1 hok with ⟨⟨loop, owner⟩, hnext, hok⟩
  rcases bind_ok.1 hok with ⟨s₁, hadd, hok⟩
  cases hok
  -- the next loop is all that changes of the server before the connection is added
  obtain ⟨hkind, halive, htable⟩ : owner.kind = (s.owners o).kind ∧
      owner.alive = (s.owners o).alive ∧ owner.connections = (s.owners o).connections := by
    unfold nextLoop at hnext
    split at hnext
    · cases hnext
      exact ⟨rfl, rfl, rfl⟩
    · split at hnext <;> cases hnext
      exact ⟨rfl, rfl, rfl⟩
  refine ⟨loop, _, s.setOwner o owner, s₁, hfd, .inl rfl, ?_, hadd, ?_,
    fun hconnecting => by cases hconnecting⟩
  · refine (Moves.refl _ s).setOwner hkind (fun ho => halive ▸ ho) fun _ fd c hc => .inl ?_
    rw [htable]
    exact hc
  · have hpushed : Moves s.plain s₁ (s₁.push here (.startReading s.nextConn)) :=
      (Moves.refl _ s₁).push trivial
    exact hpushed.runInLoop trivial

/-- A call of the user is the turn of one connection at most. -/
theorem userCall_turns {u : Option ConnId} {call : UserCall}
    (hgiven : ∀ o, call = .connectTo o → (s.owners o).kind = .client)
    (hok : (s.push here (.user u)).userCall files here call = .ok s') :
    s.Turned (.user u) (.user call) s' := by
  have hpushed : ∀ turns, Moves (s.allows (.user u) s' turns) s (s.push here (.user u)) :=
    fun turns => (Moves.refl _ s).push (.inl trivial)
  cases call with
  | write c buf =>
    rcases bind_ok.1 hok with ⟨_, -, hok⟩
    rcases bind_ok.1 hok with ⟨_, -, hok⟩
    rcases bind_ok.1 hok with ⟨k, hk, hok⟩
    rcases TcpConnection.write_frame hk with ⟨writeBuf, rfl⟩
    exact .of_moves (((hpushed _).setConn (.inr (by rfl))).updateChannel hok)
  | zeroCopyWrite c fd offset len =>
    rcases bind_ok.1 hok with ⟨_, -, hok⟩
    cases hok
    exact .of_moves ((hpushed _).setTcp (.inr rfl))
  | startReading c =>
    rcases bind_ok.1 hok with ⟨_, -, hok⟩
    cases hok
    exact .of_moves ((hpushed _).runInLoop (fresh_posts trivial))
  | activeClose c shutdown =>
    have hexists := (bind_ok.1 hok).choose_spec.1
    rw [checkExists_ok] at hexists
    rcases (hpushed (· = c)).activeClose rfl hexists hok with ⟨hmoves, hopen, hstanding⟩
    exact .of_turn hmoves (.closes rfl hexists hopen hstanding)
  | passiveClose c =>
    have hexists := (bind_ok.1 hok).choose_spec.1
    rw [checkExists_ok] at hexists
    -- a second `PassiveClose` returns at once
    rcases (hpushed (· = c)).passiveClose rfl hexists hok with rfl | ⟨hmoves, hopen, hstanding⟩
    · exact .of_moves (hpushed _)
    · exact .of_turn hmoves (.closes rfl hexists hopen hstanding)
  | destroy c shutdown =>
    rcases bind_ok.1 hok with ⟨_, hexists, hrest⟩
    rcases bind_ok.1 hrest with ⟨_, hstate, -⟩
    rw [checkExists_ok] at hexists
    rw [check_ok] at hstate
    exact .of_moves ((hpushed _).destroy ⟨c, hexists, hstate, rfl⟩ hok)
  | keep c =>
    rcases bind_ok.1 hok with ⟨_, -, hok⟩
    cases hok
    exact .of_moves ((hpushed _).setConn (.inr rfl))
  | drop c =>
    cases hok
    exact .of_moves ((hpushed _).setConn (.inr rfl))
  | queueInLoop l =>
    cases hok
    exact .of_moves ((hpushed _).queueInLoop (fresh_posts trivial))
  | connectTo o =>
    rcases bind_ok.1 hok with ⟨_, -, hok⟩
    cases hok
    exact .of_moves ((hpushed _).queueInLoop (fresh_posts (hgiven o rfl)))
  | destroyOwner o =>
    cases hok
    refine .of_moves ((hpushed _).setOwner rfl (fun ho => ?_) fun ho => ?_)
    · cases ho
    · cases ho
  | ret =>
    cases hok
    exact .of_moves (hpushed _)

/-- A task turns connections, or opens one. -/
theorem exec_turns
    (hgiven : ∀ o, input = .user (.connectTo o) → (s.owners o).kind = .client)
    (hok : s.exec files here task input = .ok s') :
    s.Turned task input s' ∨
      ∃ o loop fd state s₀ s₁, s.Opens here task input s' o loop fd state s₀ s₁ := by
  have hrefl : ∀ turns, Moves (s.allows task s' turns) s s := fun turns => .refl _ s
  -- a task that waits for another input stays
  have hwaits : Except.ok (s.push here task) = Except.ok (ε := Fault) s' →
      s.Turned task input s' := by
    intro hsame
    have hmoves : Moves (s.allows task s' fun _ => False) s (s.push here task) :=
      (hrefl _).push (.inr rfl)
    rw [Except.ok.inj hsame] at hmoves
    exact .of_moves hmoves
  cases task with
  | newConnection o =>
    cases input with
    | accept fd =>
      simp only [exec] at hok
      split at hok
      · exact .inl (hwaits hok)
      · rename_i hfd
        rcases onNewConnection_opens hfd hok with ⟨loop, state, s₀, s₁, h⟩
        exact .inr ⟨o, loop, fd, state, s₀, s₁, h⟩
    | _ => exact .inl (hwaits hok)
  | handleEvents c =>
    rcases bind_ok.1 hok with ⟨_, -, hok⟩
    have hpushed : ∀ turns, Moves (s.allows (.handleEvents c) s' turns) s
        ((s.setConn c { s.conns c with handlingEvents := true }).push here (.endEvents c)) :=
      fun turns => ((hrefl _).setConn (.inr (by rfl))).push (fresh_posts trivial)
    refine .inl ?_
    simp only at hok
    split at hok <;> split at hok <;> cases hok
    · refine .of_moves (((hpushed _).push ?_).push ?_)
      · exact fresh_posts trivial
      · exact fresh_posts trivial
    · exact .of_moves ((hpushed _).push (fresh_posts trivial))
    · exact .of_moves ((hpushed _).push (fresh_posts trivial))
    · exact .of_moves (hpushed _)
  | writeCallback c =>
    rcases bind_ok.1 hok with ⟨_, hexists, hok'⟩
    rw [checkExists_ok] at hexists
    split at hok'
    · rename_i failed hcallback
      exact .inl (connectedToPeer_turns hexists hcallback hok')
    · rename_i results hcallback
      rcases bind_ok.1 hok' with ⟨_, -, hok'⟩
      rcases bind_ok.1 hok' with ⟨⟨k, failed, rest⟩, hk, hok'⟩
      rcases TcpConnection.writeLoop_frame hk with ⟨writeBuf, sent, rfl⟩
      refine .inl (closeFailed_turns (fun turns => ?_) hexists ⟨rfl, hcallback⟩ hok')
      exact ((hrefl turns).setConn (.inr (by rfl))).push (fresh_posts ⟨hexists.1, hcallback⟩)
    · exact .inl (hwaits hok')
  | sendfile c bytesToRead results =>
    rcases bind_ok.1 hok with ⟨_, hexists, hok⟩
    rw [checkExists_ok] at hexists
    rcases bind_ok.1 hok with ⟨⟨k, failed⟩, hk, hok⟩
    rcases TcpConnection.sendfileLoop_frame hk with ⟨offset, writed, sent, rfl⟩
    refine .inl (closeFailed_turns (fun turns => ?_) hexists rfl hok)
    exact ((hrefl turns).setTcp (.inr (by rfl))).push (fresh_posts trivial)
  | finishWrite c bytesToRead =>
    rcases bind_ok.1 hok with ⟨_, -, hok⟩
    refine .inl ?_
    split at hok
    · rcases bind_ok.1 hok with ⟨s₁, hupdate, hok⟩
      cases hok
      have hsame : Conn.standing { s.conns c with tcp := (s.tcp c).finishWrite } =
          (s.conns c).standing := by
        rcases (s.tcp c).finishWrite_frame with ⟨offset, len, writed, -, hframe⟩
        rw [hframe]
        rfl
      exact .of_moves ((((hrefl _).setTcp (.inr hsame)).updateChannel hupdate).emit.push
        (fresh_posts trivial))
    · cases hok
      exact .of_moves (hrefl _)
  | readCallback c =>
    rcases bind_ok.1 hok with ⟨_, hexists, hok'⟩
    rw [checkExists_ok] at hexists
    refine .inl ?_
    split at hok'
    · rename_i hcallback
      split at hok'
      · rcases bind_ok.1 hok' with ⟨_, -, hok'⟩
        split at hok'
        · rcases (hrefl (· = c)).passiveClose rfl hexists hok' with rfl | ⟨hmoves, hopen, hstanding⟩
          · exact .of_moves (hrefl _)
          · exact .of_turn hmoves (.closes ⟨rfl, hcallback⟩ hexists hopen hstanding)
        · rcases bind_ok.1 hok' with ⟨k, hk, hok'⟩
          cases hok'
          rcases TcpConnection.readFromPeer_frame hk with ⟨readBuf, rfl⟩
          exact .of_moves (((hrefl _).setTcp (.inr (by rfl))).emit.push (fresh_posts trivial))
      · exact hwaits hok'
    · cases hok'
      exact .of_moves (hrefl _)
  | endEvents c =>
    rcases bind_ok.1 hok with ⟨_, -, hok⟩
    cases hok
    exact .inl (.of_moves ((hrefl _).setConn (.inr rfl)))
  | newConnectionCallback c =>
    cases hok
    exact .inl (.of_moves ((hrefl _).push (fresh_posts trivial)))
  | startReading c =>
    cases hok
    exact .inl (.of_moves ((hrefl _).runInLoop (fresh_posts trivial)))
  | enableReading c =>
    rcases bind_ok.1 hok with ⟨_, -, hok⟩
    exact .inl (.of_moves (((hrefl _).setTcp (.inr (by rfl))).updateChannel hok))
  | handleConnectionClose o fd =>
    rcases bind_ok.1 hok with ⟨_, -, hok⟩
    split at hok
    · cases hok
    · rename_i c hc
      have hpushed : Moves (s.allows (.handleConnectionClose o fd) s' fun _ => False) s
          (((s.eraseConnection o fd).emit (.handled c)).push here (.queueDestroy c)) :=
        ((hrefl _).eraseConnection (.inl rfl)).emit.push (fresh_posts trivial)
      cases hok
      exact .inl (.of_moves (hpushed.runInLoop (fresh_posts trivial)))
  | closeConnectionCallback c =>
    cases hok
    exact .inl (.of_moves ((hrefl _).push (fresh_posts trivial)))
  | queueDestroy c =>
    cases hok
    exact .inl (.of_moves ((hrefl _).queueInLoop (fresh_posts trivial)))
  | destroy c =>
    rcases bind_ok.1 hok with ⟨_, hexists, hrest⟩
    rcases bind_ok.1 hrest with ⟨_, hstate, -⟩
    rw [checkExists_ok] at hexists
    rw [check_ok] at hstate
    exact .inl (.of_moves ((hrefl _).destroy ⟨c, hexists, hstate, rfl⟩ hok))
  | connectTo o =>
    cases input with
    | connect fd connected =>
      simp only [exec] at hok
      split at hok
      · exact .inl (hwaits hok)
      · rename_i hfd
        rcases onConnect_opens hfd hok with ⟨loop, state, s₀, s₁, h⟩
        exact .inr ⟨o, loop, fd, state, s₀, s₁, h⟩
    | connectFailed =>
      rcases bind_ok.1 hok with ⟨_, -, hok⟩
      cases hok
      exact .inl (.of_moves (hrefl _))
    | _ => exact .inl (hwaits hok)
  | user u =>
    cases input with
    | user call =>
      by_cases hret : call = .ret
      · subst hret
        cases hok
        exact .inl (.of_moves (hrefl _))
      · rw [exec_user hret] at hok
        exact .inl (userCall_turns (fun o ho => hgiven o (congrArg _ ho)) hok)
    | _ => exact .inl (hwaits hok)

/-! ## Steps -/

theorem Moves.take {l : ℕ} {t : LoopThread} (ht : (s.threads l).take = some (task, t)) :
    Moves s.plain s (s.setThread l t) ∧ task ∈ s.tasks l := by
  have htasks : s.tasks l = task :: t.tasks := LoopThread.take_tasks ht
  refine ⟨(Moves.refl _ s).setThread (fun task' htask => .inl ?_) fun fd c hc => .inl ?_, ?_⟩
  · rw [htasks]
    exact List.mem_cons_of_mem _ htask
  · rw [LoopThread.take_channels ht]
    exact hc
  · rw [htasks]
    exact List.mem_cons_self

theorem fillActiveChannels_moves {a : Allows} {l : ℕ} {ready : List Ready}
    {active : List (Handler Task)} (hok : s.fillActiveChannels l ready = .ok (s', active)) :
    Moves a s s' :=
  fillActiveChannels_keeps (fun _ _ _ h => h.setTcp (.inr (by rfl))) (Moves.refl a s) hok

/-- What the poller brings may be posted. -/
theorem Polled.fresh {l : ℕ} (h : Polled s l task) : s.Fresh task := by
  cases h with
  | accept => trivial
  | events => trivial

/-- What waits behind `Poll` may be posted. -/
theorem Moves.poll {l : ℕ} {active : List (Handler Task)} (h : Moves s.plain s s₁)
    (hactive : ∀ task ∈ active.filterMap Handler.task, s.Fresh task) :
    Moves s.plain s (s₁.setThread l { s₁.threads l with
      loop := (s₁.threads l).loop.poll active }) := by
  refine h.setThread (fun task htask => ?_) fun _ _ hc => .inl hc
  rw [LoopThread.tasks_poll, List.mem_append, List.mem_append] at htask
  rcases htask with (hstack | hevents) | hfunctor
  · exact .inl (List.mem_append_left _ (List.mem_append_left _ hstack))
  · exact .inr (hactive task hevents)
  · exact .inl (List.mem_append_right _ hfunctor)

theorem destruct_tcp (s : Sys) (c c' : ConnId) :
    (s.setConn c { s.conns c with destructed := true }).tcp c' = s.tcp c' := by
  unfold tcp
  by_cases hc : c' = c
  · subst hc
    rw [setConn_conns, Function.update_self]
  · rw [setConn_conns, Function.update_of_ne hc]

/-- A step runs a task, or is a destructor, or does nothing but to post tasks. -/
theorem step_turns {label : Label} (hok : s.step files label = .ok s') :
    (Moves s.plain s s' ∧ ∀ l input, label = .exec l input → (s.threads l).take = none) ∨
    (∃ l input task t, label = .exec l input ∧ (s.threads l).take = some (task, t) ∧
      (s.setThread l t).exec files l task input = .ok s') ∨
    (∃ c, label = .destruct c ∧ s' = s.setConn c { s.conns c with destructed := true }) := by
  have hrefl := Moves.refl s.plain s
  cases step_steps hok with
  | idle _ hidle => exact .inl ⟨hrefl, hidle⟩
  | run l _ hphase =>
    refine .inl ⟨hrefl.setThread (fun task htask => .inl ?_) fun _ _ hc => .inl hc, by simp⟩
    rwa [LoopThread.tasks_run hphase] at htask
  | wakeUp l rest _ hphase =>
    refine .inl ⟨hrefl.setThread (fun task htask => .inl ?_) fun _ _ hc => .inl hc, by simp⟩
    rwa [LoopThread.tasks_wakeUp hphase] at htask
  | next l =>
    refine .inl ⟨hrefl.setThread (fun task htask => .inl ?_) fun _ _ hc => .inl hc, by simp⟩
    rwa [LoopThread.tasks_next] at htask
  | poll l ready s₁ active _ hfill =>
    -- the handlers of a batch are new tasks of connections that exist
    refine .inl ⟨(fillActiveChannels_moves hfill).poll fun task htask => ?_, by simp⟩
    exact (fillActiveChannels_polled hfill task htask).fresh
  | callUser l => exact .inl ⟨hrefl.push trivial, by simp⟩
  | exec l input task t _ ht hexec => exact .inr (.inl ⟨l, input, task, t, rfl, ht, hexec⟩)
  | destruct c => exact .inr (.inr ⟨c, rfl, rfl⟩)

end Exec

end Sys

end FxServer
