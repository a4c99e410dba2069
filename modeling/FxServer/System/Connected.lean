import FxServer.System.Connecting

/-!
# FxServer.System.Connected — the two ways to be connected

When `::connect` completes at once, `OnConnect` makes a connected connection and calls the
connected callback. Else it makes a connecting one, and `ConnectedToPeer` connects it and calls the
callback, later.

That two ways lead to one state is a statement about both of them, so each is followed by itself,
from the same kind of state, and the results are compared in the end. What a connecting
connection has in the tables is an invariant of all tasks.

* `Listed` — a connecting connection has its entries in `connections_` and in the poller.
* `connect_paths_agree_iff` — the two ways lead to the same state but for reading, which only the
  second one enables.
* `immediate_connect_reads_nothing` — both ways from the same state.
-/

namespace FxServer.Sys

open Machine

variable {files : Files} {s s₀ s₁ s' : Sys} {a : Allows} {task : Task} {input : Input}
  {here l : ℕ} {c : ConnId}

/-! ## The invariant -/

/-- A connection that is connecting is its client's, under its descriptor, and the poller's. -/
structure Listed (s : Sys) : Prop where
  /-- connections that exist have descriptors of their own -/
  fds : ∀ c c', s.Exists c → s.Exists c' → (s.tcp c).channel.fd = (s.tcp c').channel.fd → c = c'
  closes : ∀ l o fd, .handleConnectionClose o fd ∈ s.tasks l → (s.owners o).kind = .server
  connects : ∀ l o, .connectTo o ∈ s.tasks l → (s.owners o).kind = .client
  /-- a connection that is connecting belongs to a client, and is in its loop -/
  client : ∀ c, s.Exists c → (s.tcp c).state = .kConnecting →
    (s.owners (s.conns c).owner).kind = .client
  /-- the client has it in its table -/
  table : ∀ c, s.Exists c → (s.tcp c).state = .kConnecting →
    (s.owners (s.conns c).owner).alive = true →
      (s.owners (s.conns c).owner).connections (s.tcp c).channel.fd = some c
  /-- and the poller has its channel -/
  channels : ∀ c, s.Exists c → (s.tcp c).state = .kConnecting →
    (s.threads (s.tcp c).channel.loop).channels (s.tcp c).channel.fd = some c

theorem init_listed (owners : ℕ → Owner) : Listed (init owners) := by
  constructor
  · rintro c c' hc
    exact absurd hc.1 (Nat.not_lt_zero c)
  · intro l o fd hmem
    cases hmem
  · intro l o hmem
    cases hmem
  · rintro c hc
    exact absurd hc.1 (Nat.not_lt_zero c)
  · rintro c hc
    exact absurd hc.1 (Nat.not_lt_zero c)
  · rintro c hc
    exact absurd hc.1 (Nat.not_lt_zero c)

/-- Where connections turn, with entries gone only for those that are closed or destroyed. -/
theorem Listed.of_moves (h : Listed s) (hmoves : Moves a s s')
    (hturn : ∀ c, ∃ task input, s.Turn task input c (s'.conns c).standing)
    (hclose : ∀ l o fd, .handleConnectionClose o fd ∈ s'.tasks l → (s.owners o).kind = .server)
    (hconnect : ∀ l o, .connectTo o ∈ s'.tasks l → (s.owners o).kind = .client)
    (herase : ∀ o fd, a.erases o fd → (s.owners o).kind = .server ∨ ∃ c, s.Exists c ∧
      (s.conns c).owner = o ∧ (s.tcp c).channel.fd = fd ∧ (s'.tcp c).state = .kDisconnected)
    (hremove : ∀ fd, a.removes fd → ∃ c, s.Exists c ∧ (s.tcp c).state = .kDisconnected ∧
      (s.tcp c).channel.fd = fd) : Listed s' := by
  -- a turn changes neither the descriptor nor whether the connection exists
  have hfd : ∀ c, (s'.tcp c).channel.fd = (s.tcp c).channel.fd := by
    intro c
    rcases hturn c with ⟨task, input, hturn⟩
    cases hturn with
    | stands h | connects _ _ _ _ h | fails _ _ _ _ _ h | closes _ _ _ h =>
      exact congrArg Standing.fd h
  have hexists : ∀ c, s'.Exists c → s.Exists c := by
    rintro c ⟨hborn, hdestructed⟩
    rw [hmoves.nextConn] at hborn
    refine ⟨hborn, hdestructed ▸ ?_⟩
    rcases hturn c with ⟨task, input, hturn⟩
    cases hturn with
    | stands h | connects _ _ _ _ h | fails _ _ _ _ _ h | closes _ _ _ h =>
      exact (congrArg Standing.destructed h).symm
  have hsame : ∀ c, (s'.tcp c).state = .kConnecting →
      (s'.conns c).standing = (s.conns c).standing := by
    intro c hstate
    rcases hturn c with ⟨task, input, hturn⟩
    exact hturn.of_connecting hstate
  have hconnecting : ∀ c, (s'.tcp c).state = .kConnecting → (s.tcp c).state = .kConnecting := by
    intro c hstate
    exact (congrArg Standing.state (hsame c hstate)).symm.trans hstate
  have howner : ∀ c, (s'.tcp c).state = .kConnecting →
      (s'.conns c).owner = (s.conns c).owner := fun c hstate =>
    congrArg Standing.owner (hsame c hstate)
  constructor
  case fds =>
    intro c c' hc hc' heq
    rw [hfd, hfd] at heq
    exact h.fds c c' (hexists c hc) (hexists c' hc') heq
  case closes =>
    intro l o fd hmem
    rw [hmoves.kind]
    exact hclose l o fd hmem
  case connects =>
    intro l o hmem
    rw [hmoves.kind]
    exact hconnect l o hmem
  case client =>
    intro c hc hstate
    rw [hmoves.kind, howner c hstate]
    exact h.client c (hexists c hc) (hconnecting c hstate)
  case table =>
    intro c hc hstate halive
    rw [howner c hstate] at halive ⊢
    rw [hfd]
    have hentry := h.table c (hexists c hc) (hconnecting c hstate) (hmoves.alive _ halive)
    rcases hmoves.table _ halive _ c hentry with hentry | herased
    · exact hentry
    · rcases herase _ _ herased with hserver | ⟨c', hc', -, hsamefd, hclosed⟩
      · cases hserver.symm.trans (h.client c (hexists c hc) (hconnecting c hstate))
      · obtain rfl := h.fds c' c hc' (hexists c hc) hsamefd
        cases hclosed.symm.trans hstate
  case channels =>
    intro c hc hstate
    have hloop : (s'.tcp c).channel.loop = (s.tcp c).channel.loop :=
      congrArg Standing.loop (hsame c hstate)
    rw [hfd, hloop]
    have hentry := h.channels c (hexists c hc) (hconnecting c hstate)
    rcases hmoves.channels _ _ c hentry with hentry | hremoved
    · exact hentry
    · rcases hremove _ hremoved with ⟨c', hc', hclosed, hsamefd⟩
      obtain rfl := h.fds c' c hc' (hexists c hc) hsamefd
      cases hclosed.symm.trans (hconnecting _ hstate)

/-- A task that opens no connection keeps the tables. -/
theorem Listed.of_turned (h : Listed s) (hturned : s.Turned task input s')
    (hclose : ∀ o fd, task = .handleConnectionClose o fd → (s.owners o).kind = .server)
    (hconnect : ∀ o, task = .connectTo o → (s.owners o).kind = .client) : Listed s' := by
  have hturn := hturned.turn
  have htasks : ∀ l task', task' ∈ s'.tasks l → task' ∈ s.tasks l ∨ s.Fresh task' ∨ task' = task :=
    fun l task' hmem => hturned.tasks hmem
  rcases hturned with ⟨turns, hmoves, -⟩
  refine h.of_moves hmoves (fun c => ⟨task, input, hturn c⟩) (fun l o fd hmem => ?_)
    (fun l o hmem => ?_) ?_ fun fd hremove => hremove
  · -- what is queued now was queued before, is new, or is the task again
    rcases htasks l _ hmem with hmem | hfresh | hsame
    · exact h.closes l o fd hmem
    · exact hfresh
    · exact hclose o fd hsame.symm
  · rcases htasks l _ hmem with hmem | hfresh | hsame
    · exact h.connects l o hmem
    · exact hfresh
    · exact hconnect o hsame.symm
  · rintro o fd (hsame | hclosed)
    · exact .inl (hclose o fd hsame)
    · exact .inr hclosed

/-- Nothing has happened but that tasks were posted. -/
theorem Listed.of_plain (h : Listed s) (hmoves : Moves s.plain s s') : Listed s' := by
  refine h.of_moves hmoves
    (fun c => ⟨.user none, .none, .stands (hmoves.standing c fun hc => hc)⟩)
    (fun l o fd hmem => ?_) (fun l o hmem => ?_) (fun _ _ herase => herase.elim)
    fun _ hremove => hremove.elim
  · rcases hmoves.tasks l _ hmem with hmem | hfresh
    · exact h.closes l o fd hmem
    · exact hfresh
  · rcases hmoves.tasks l _ hmem with hmem | hfresh
    · exact h.connects l o hmem
    · exact hfresh

theorem addConn_alive {o loop fd : ℕ} {state : TcpConnectionState}
    (hok : s.addConn o loop fd state = .ok s') (o' : ℕ) :
    (s'.owners o').alive = (s.owners o').alive := by
  rcases bind_ok.1 hok with ⟨_, -, hok⟩
  cases hok
  by_cases ho : o' = o
  · subst ho
    simp
  · simp [ho]

/-- A new connection, which is in the poller when it is connecting. -/
theorem Opens.listed {o loop fd : ℕ} {state : TcpConnectionState} (h : Listed s)
    (hopens : s.Opens here task input s' o loop fd state s₀ s₁)
    (hconnect : ∀ o, task = .connectTo o → (s.owners o).kind = .client)
    (hforgotten : state = .kConnecting → (s.threads here).channels fd = none) :
    Listed s' := by
  have hadd := addConn_ok hopens.added
  have hnew : (s'.conns s.nextConn).standing = (Conn.new o loop fd state).standing := by
    rw [hopens.standing, if_pos rfl]
  have hold : ∀ c, c ≠ s.nextConn → (s'.conns c).standing = (s.conns c).standing := by
    intro c hc
    rw [hopens.standing, if_neg hc]
  have hkind : ∀ o', (s'.owners o').kind = (s.owners o').kind := by
    intro o'
    rw [hopens.behind.kind, hadd.kind, hopens.before.kind]
  have hexists : ∀ c, c ≠ s.nextConn → s'.Exists c → s.Exists c := by
    rintro c hc ⟨hborn, hdestructed⟩
    rw [hopens.nextConn] at hborn
    refine ⟨lt_of_le_of_ne (Nat.le_of_lt_succ hborn) hc, hdestructed ▸ ?_⟩
    exact (congrArg Standing.destructed (hold c hc)).symm
  have hfdNew : (s'.tcp s.nextConn).channel.fd = fd := congrArg Standing.fd hnew
  have hfdOld : ∀ c, c ≠ s.nextConn → (s'.tcp c).channel.fd = (s.tcp c).channel.fd := fun c hc =>
    congrArg Standing.fd (hold c hc)
  -- the kernel gives out no descriptor that is open
  have hfree : ∀ c, s.Exists c → (s.tcp c).channel.fd ≠ fd := by
    rintro c ⟨hborn, hdestructed⟩ heq
    exact hopens.free ⟨c, hborn, hdestructed, heq⟩
  constructor
  case fds =>
    intro c c' hc hc' heq
    by_cases hcn : c = s.nextConn
    · by_cases hcn' : c' = s.nextConn
      · rw [hcn, hcn']
      · rw [hcn, hfdNew, hfdOld c' hcn'] at heq
        exact absurd heq.symm (hfree c' (hexists c' hcn' hc'))
    · by_cases hcn' : c' = s.nextConn
      · rw [hcn', hfdNew, hfdOld c hcn] at heq
        exact absurd heq (hfree c (hexists c hcn hc))
      · rw [hfdOld c hcn, hfdOld c' hcn'] at heq
        exact h.fds c c' (hexists c hcn hc) (hexists c' hcn' hc') heq
  case closes =>
    intro l o' fd' hmem
    rw [hkind]
    rcases hopens.tasks hmem with hmem | hfresh
    · exact h.closes l o' fd' hmem
    · exact hfresh
  case connects =>
    intro l o' hmem
    rw [hkind]
    rcases hopens.tasks hmem with hmem | hfresh
    · exact h.connects l o' hmem
    · exact hfresh
  case client =>
    intro c hc hstate
    rw [hkind]
    by_cases hcn : c = s.nextConn
    · subst hcn
      have howner : (s'.conns s.nextConn).owner = o := congrArg Standing.owner hnew
      have hconnecting : (s'.tcp s.nextConn).state = state := congrArg Standing.state hnew
      rw [howner]
      rcases hopens.connects with hconnected | ⟨-, htask, -⟩
      · rw [hstate, hconnected] at hconnecting
        cases hconnecting
      · exact hconnect o htask
    · have howner : (s'.conns c).owner = (s.conns c).owner := congrArg Standing.owner (hold c hcn)
      rw [howner]
      exact h.client c (hexists c hcn hc) ((congrArg Standing.state (hold c hcn)).symm.trans hstate)
  case table =>
    intro c hc hstate halive
    have halive' : ∀ o', (s'.owners o').alive = true → (s₀.owners o').alive = true := by
      intro o' ho'
      rw [← addConn_alive hopens.added]
      exact hopens.behind.alive o' ho'
    by_cases hcn : c = s.nextConn
    · subst hcn
      have howner : (s'.conns s.nextConn).owner = o := congrArg Standing.owner hnew
      rw [howner] at halive ⊢
      rw [hfdNew]
      have hentry : (s₁.owners o).connections fd = some s.nextConn := by
        rw [hadd.connections, if_pos ⟨rfl, rfl⟩, hopens.before.nextConn]
      exact (hopens.behind.table o halive fd _ hentry).resolve_right fun herase => herase
    · have howner : (s'.conns c).owner = (s.conns c).owner := congrArg Standing.owner (hold c hcn)
      rw [howner] at halive ⊢
      rw [hfdOld c hcn]
      have hentry := h.table c (hexists c hcn hc)
        ((congrArg Standing.state (hold c hcn)).symm.trans hstate)
        (hopens.before.alive _ (halive' _ halive))
      have hentry₀ := (hopens.before.table _ (halive' _ halive) _ c hentry).resolve_right
        fun herase => herase
      have hentry₁ : (s₁.owners (s.conns c).owner).connections (s.tcp c).channel.fd = some c := by
        rw [hadd.connections, if_neg]
        · exact hentry₀
        · rintro ⟨ho, hfd⟩
          exact hfree c (hexists c hcn hc) hfd
      exact (hopens.behind.table _ halive _ c hentry₁).resolve_right fun herase => herase
  case channels =>
    intro c hc hstate
    by_cases hcn : c = s.nextConn
    · subst hcn
      have hloop : (s'.tcp s.nextConn).channel.loop = loop := congrArg Standing.loop hnew
      have hconnecting : (s'.tcp s.nextConn).state = state := congrArg Standing.state hnew
      rw [hloop, hfdNew]
      have hnew := hconnecting.symm.trans hstate
      exact hopens.polled hnew (hforgotten hnew)
    · have hloop : (s'.tcp c).channel.loop = (s.tcp c).channel.loop :=
        congrArg Standing.loop (hold c hcn)
      rw [hloop, hfdOld c hcn]
      have hentry := h.channels c (hexists c hcn hc)
        ((congrArg Standing.state (hold c hcn)).symm.trans hstate)
      have hentry₀ := (hopens.before.channels _ _ c hentry).resolve_right fun hremove => hremove
      rw [← hadd.threads] at hentry₀
      exact (hopens.behind.channels _ _ c hentry₀).resolve_right fun hremove => hremove

/-! ## Steps -/

/-- The owner that user code tells to connect. -/
def told : Label → Option ℕ
  | .exec _ (.user (.connectTo o)) => some o
  | _ => none

/-- The thread of a `::connect` that goes on, and its descriptor. -/
def goesOn (s : Sys) : Label → Option (ℕ × ℕ)
  | .exec l (.connect fd false) =>
    match (s.threads l).nextTask with
    | some (.connectTo _) => if s.IsOpen fd then none else some (l, fd)
    | _ => none
  | _ => none

/-- The poller has no entry left under the descriptor of a new connection, and user code tells
only clients to connect. -/
def Forgotten (s : Sys) (label : Label) : Prop :=
  (∀ x ∈ s.goesOn label, (s.threads x.1).channels x.2 = none) ∧
    ∀ o ∈ told label, (s.owners o).kind = .client

instance (s : Sys) (label : Label) : Decidable (Forgotten s label) :=
  inferInstanceAs (Decidable (_ ∧ _))

/-- The destructor leaves everything but `destructed`. -/
theorem Listed.destruct (h : Listed s) (c : ConnId) :
    Listed (s.setConn c { s.conns c with destructed := true }) := by
  -- one connection fewer exists, and the others are what they were
  have hexists : ∀ c', (s.setConn c { s.conns c with destructed := true }).Exists c' →
      s.Exists c' := by
    rintro c' ⟨hborn, hdestructed⟩
    refine ⟨hborn, ?_⟩
    by_cases hc : c' = c
    · subst hc
      rw [setConn_conns, Function.update_self] at hdestructed
      cases hdestructed
    · rwa [setConn_conns, Function.update_of_ne hc] at hdestructed
  have howner : ∀ c', ((s.setConn c { s.conns c with destructed := true }).conns c').owner =
      (s.conns c').owner := by
    intro c'
    by_cases hc : c' = c
    · subst hc
      rw [setConn_conns, Function.update_self]
    · rw [setConn_conns, Function.update_of_ne hc]
  constructor
  case fds =>
    intro c₁ c₂ h₁ h₂ hsame
    rw [destruct_tcp, destruct_tcp] at hsame
    exact h.fds c₁ c₂ (hexists c₁ h₁) (hexists c₂ h₂) hsame
  case closes => exact h.closes
  case connects => exact h.connects
  case client =>
    intro c' hc hstate
    rw [destruct_tcp] at hstate
    rw [howner]
    exact h.client c' (hexists c' hc) hstate
  case table =>
    intro c' hc hstate halive
    rw [destruct_tcp] at hstate ⊢
    rw [howner] at halive ⊢
    exact h.table c' (hexists c' hc) hstate halive
  case channels =>
    intro c' hc hstate
    rw [destruct_tcp] at hstate ⊢
    exact h.channels c' (hexists c' hc) hstate

/-- Every step keeps the tables. -/
theorem step_listed {label : Label} (h : Listed s) (hlabel : Forgotten s label)
    (hok : s.step files label = .ok s') : Listed s' := by
  rcases step_turns hok with ⟨hmoves, -⟩ | ⟨l, input, task, t, rfl, ht, hexec⟩ | ⟨c, -, rfl⟩
  · exact h.of_plain hmoves
  · rcases Moves.take ht with ⟨hmoves, hmem⟩
    have hnext : (s.threads l).nextTask = some task := LoopThread.nextTask_eq.2 ⟨t, ht⟩
    have hconnect : ∀ o, task = .connectTo o → (s.owners o).kind = .client := by
      rintro o rfl
      exact h.connects l o hmem
    have hgiven : ∀ o, input = .user (.connectTo o) →
        ((s.setThread l t).owners o).kind = .client := by
      rintro o rfl
      exact hlabel.2 o rfl
    rcases exec_turns hgiven hexec with hturned | ⟨o, loop, fd, state, s₀, s₁, hopens⟩
    · refine (h.of_plain hmoves).of_turned hturned ?_ hconnect
      rintro o fd rfl
      exact h.closes l o fd hmem
    · refine hopens.listed (h.of_plain hmoves) hconnect fun hconnecting => ?_
      rcases hopens.connects with hconnected | ⟨-, rfl, rfl⟩
      · cases hconnected.symm.trans hconnecting
      · -- the guard speaks of the state before the task is taken
        have hfree : ¬ s.IsOpen fd := hopens.free
        have hgoesOn : s.goesOn (.exec l (.connect fd false)) = some (l, fd) := by
          simp only [goesOn, hnext, if_neg hfree]
        rw [setThread_threads, Function.update_self, LoopThread.take_channels ht]
        exact hlabel.1 (l, fd) hgoesOn
  · exact h.destruct c

/-! ## The two ways -/

/-- The connection that the step connects, and for which it calls the connected callback: at once,
or in `ConnectedToPeer`. -/
def connects (s : Sys) : Label → Option ConnId
  | .exec l (.connect fd true) =>
    match (s.threads l).nextTask with
    | some (.connectTo _) => if s.IsOpen fd then none else some s.nextConn
    | _ => none
  | .exec l (.soError false) =>
    match (s.threads l).nextTask with
    | some (.writeCallback c) =>
      if (s.tcp c).channel.writeCallback = .connectedToPeer then some c else none
    | _ => none
  | _ => none

/-- Connected, in `connections_`, and with both callbacks. -/
structure Established (s : Sys) (c : ConnId) : Prop where
  state : (s.tcp c).state = .kConnected
  /-- it is in the table of its client -/
  table : (s.owners (s.conns c).owner).connections (s.tcp c).channel.fd = some c
  /-- what comes in is read -/
  readCallback : (s.tcp c).channel.readCallback = true
  /-- and what is in the buffer is written -/
  writeCallback : (s.tcp c).channel.writeCallback = .writeToPeer

instance (s : Sys) (c : ConnId) : Decidable (Established s c) :=
  decidable_of_iff ((s.tcp c).state = .kConnected ∧
      (s.owners (s.conns c).owner).connections (s.tcp c).channel.fd = some c ∧
      (s.tcp c).channel.readCallback = true ∧ (s.tcp c).channel.writeCallback = .writeToPeer)
    ⟨fun ⟨h₁, h₂, h₃, h₄⟩ => ⟨h₁, h₂, h₃, h₄⟩, fun ⟨h₁, h₂, h₃, h₄⟩ => ⟨h₁, h₂, h₃, h₄⟩⟩

/-- The poller waits for what can be read. -/
def ReadPolled (s : Sys) (c : ConnId) : Prop :=
  (s.tcp c).channel.events &&& Channel.kReadEvents ≠ 0 ∧
    (s.threads (s.tcp c).channel.loop).channels (s.tcp c).channel.fd = some c

instance (s : Sys) (c : ConnId) : Decidable (ReadPolled s c) :=
  inferInstanceAs (Decidable (_ ∧ _))

/-- At once: nothing is enabled. -/
theorem onConnect_established {o fd : ℕ} (hok : s.onConnect here o fd true = .ok s') :
    s'.nextConn = s.nextConn + 1 ∧ Established s' s.nextConn ∧ ¬ ReadPolled s' s.nextConn ∧
      (s'.threads here).nextTask = some (.user (some s.nextConn)) := by
  rcases bind_ok.1 hok with ⟨_, -, hok⟩
  -- the connection is added, and the callback of the user pushed; no reading is enabled
  rcases bind_ok.1 hok with ⟨s₁, hadd, hok⟩
  cases hok
  have hadded := addConn_ok hadd
  have hnew : s₁.conns s.nextConn = .new o (s.owners o).baseLoop fd .kConnected := by
    rw [hadded.conns, Function.update_self]
  have htable : (s₁.owners o).connections fd = some s.nextConn := by
    rw [hadded.connections, if_pos ⟨rfl, rfl⟩]
  refine ⟨hadded.nextConn, ?_, ?_, ?_⟩
  · constructor
    all_goals simp [tcp, hnew, Conn.new, TcpConnection.new, htable]
  · rintro ⟨hevents, -⟩
    simp [tcp, hnew, Conn.new, TcpConnection.new] at hevents
  · simp [push, LoopThread.nextTask, LoopThread.take]

/-- What is enabled for reading stays so when writing is disabled. -/
theorem enableReading_disableWriting (ch : Channel) :
    ch.enableReading.disableWriting.events &&& Channel.kReadEvents ≠ 0 := by
  intro hzero
  have hbit := congrArg (fun events : Mask => events.getLsbD 0) hzero
  simp [Channel.enableReading, Channel.disableWriting, Channel.kReadEvents, Channel.kWriteEvents,
    epollIn, epollOut] at hbit

/-- A descriptor that has an entry keeps it. -/
theorem updateChannel_entry (hok : s.updateChannel here c = .ok s')
    (hentry : (s.threads here).channels (s.tcp c).channel.fd = some c) :
    s' = s.emit (.channelUpdated c (some c)) := by
  rcases bind_ok.1 hok with ⟨_, -, hok⟩
  rw [hentry] at hok
  cases hok
  rfl

/-- Later: `ConnectedToPeer` enables reading, in the entry that the constructor made. -/
theorem connectedToPeer_established (h : Listed s) (hexists : s.Exists c)
    (hok : s.connectedToPeer here c false = .ok s') :
    (s.tcp c).state = .kConnecting ∧ s'.nextConn = s.nextConn ∧ Established s' c ∧
      ReadPolled s' c ∧ (s'.threads here).nextTask = some (.user (some c)) := by
  rcases bind_ok.1 hok with ⟨_, hstate, hread⟩
  rcases bind_ok.1 hread with ⟨s₁, hupdate, hwrite⟩
  rw [check_ok] at hstate
  -- the entry in the poller that the constructor has made
  have hentry := h.channels c hexists hstate
  have hloop : (s.tcp c).channel.loop = here := by
    rcases bind_ok.1 hupdate with ⟨_, hloop, -⟩
    rw [check_ok] at hloop
    simpa [tcp, setTcp, Channel.enableReading] using hloop
  rw [hloop] at hentry
  -- `EnableReading` finds it, and so does `DisableWriting`
  have h₁ := updateChannel_entry hupdate (by
    simpa [tcp, setTcp, Channel.enableReading] using hentry)
  subst h₁
  rcases bind_ok.1 hwrite with ⟨s₂, hupdate', hcallback⟩
  have h₂ := updateChannel_entry hupdate' (by
    simpa [tcp, setTcp, Channel.enableReading, Channel.disableWriting] using hentry)
  subst h₂
  rcases bind_ok.1 hcallback with ⟨_, halive, hfound⟩
  rcases bind_ok.1 hfound with ⟨_, -, hpushed⟩
  cases hpushed
  rw [checkAlive_ok] at halive
  have htable : (s.owners (s.conns c).owner).connections (s.tcp c).channel.fd = some c :=
    h.table c hexists hstate (by simpa [tcp, setTcp] using halive)
  refine ⟨hstate, rfl, ?_, ⟨?_, ?_⟩, ?_⟩
  · constructor
    · simp [tcp, setTcp]
    · simpa [tcp, setTcp, Channel.enableReading, Channel.disableWriting] using htable
    · simp [tcp, setTcp]
    · simp [tcp, setTcp]
  · simpa [tcp, setTcp] using enableReading_disableWriting (s.tcp c).channel
  · have hloop' : (s.conns c).tcp.channel.loop = here := hloop
    simpa [tcp, setTcp, Channel.enableReading, Channel.disableWriting, push, hloop'] using hentry
  · simp [push, LoopThread.nextTask, LoopThread.take]

/-- What a step does that connects a connection. -/
theorem step_connects {label : Label} (h : Listed s) (hok : s.step files label = .ok s')
    (hc : s.connects label = some c) :
    (∃ l input, label = .exec l input ∧ (s'.threads l).nextTask = some (.user (some c))) ∧
      c < s'.nextConn ∧ (c < s.nextConn → (s.tcp c).state = .kConnecting) ∧ Established s' c ∧
      (ReadPolled s' c ↔ ∀ l fd, label ≠ .exec l (.connect fd true)) := by
  unfold connects at hc
  split at hc
  · -- `connect` succeeds at once
    rename_i l fd
    split at hc
    · rename_i o hnext
      split at hc
      · cases hc
      · rename_i hfd
        cases hc
        rcases LoopThread.nextTask_eq.1 hnext with ⟨t, ht⟩
        have hfd' : ¬ (s.setThread l t).IsOpen fd := hfd
        simp only [step, ht, exec, if_neg hfd'] at hok
        rcases onConnect_established hok with ⟨hborn, hestablished, hreads, hnext⟩
        refine ⟨⟨l, _, rfl, hnext⟩, hborn ▸ Nat.lt_succ_self _, fun hlt => ?_, hestablished, ?_⟩
        · exact absurd hlt (lt_irrefl _)
        · exact iff_of_false hreads fun hne => hne l fd rfl
    · cases hc
  · -- the socket that was connecting can be written to
    rename_i l
    split at hc
    · rename_i c' hnext
      split at hc
      · rename_i hcallback
        cases hc
        rcases LoopThread.nextTask_eq.1 hnext with ⟨t, ht⟩
        simp only [step, ht, exec] at hok
        rcases bind_ok.1 hok with ⟨_, hexists, hok⟩
        rw [checkExists_ok] at hexists
        have hcallback' : ((s.setThread l t).tcp c).channel.writeCallback = .connectedToPeer :=
          hcallback
        simp only [hcallback'] at hok
        rcases connectedToPeer_established (h.of_plain (Moves.take ht).1) hexists hok with
          ⟨hstate, hnextConn, hestablished, hreads, hnext⟩
        refine ⟨⟨l, _, rfl, hnext⟩, hnextConn ▸ hexists.1, fun _ => hstate, hestablished, ?_⟩
        refine iff_of_true hreads fun l' fd hsame => ?_
        cases hsame
      · cases hc
    · cases hc
  · cases hc

/-- What is not connecting does not begin to. -/
theorem step_not_connecting {label : Label} (hlabel : Forgotten s label)
    (hok : s.step files label = .ok s') (hborn : c < s.nextConn)
    (hstate : (s.tcp c).state ≠ .kConnecting) :
    c < s'.nextConn ∧ (s'.tcp c).state ≠ .kConnecting := by
  rcases step_turns hok with ⟨hmoves, -⟩ | ⟨l, input, task, t, rfl, ht, hexec⟩ | ⟨c', -, rfl⟩
  · have hsame : (s'.tcp c).state = (s.tcp c).state :=
      congrArg Standing.state (hmoves.standing c fun hc => hc)
    rw [hmoves.nextConn, hsame]
    exact ⟨hborn, hstate⟩
  · have hgiven : ∀ o, input = .user (.connectTo o) →
        ((s.setThread l t).owners o).kind = .client := by
      rintro o rfl
      exact hlabel.2 o rfl
    rcases exec_turns hgiven hexec with hturned | ⟨o, loop, fd, state, s₀, s₁, hopens⟩
    · rw [hturned.nextConn]
      refine ⟨hborn, fun hconnecting => hstate ?_⟩
      -- no turn leads back to `kConnecting`
      have hsame := (hturned.turn c).of_connecting hconnecting
      exact (congrArg Standing.state hsame).symm.trans hconnecting
    · rw [hopens.nextConn]
      refine ⟨Nat.lt_succ_of_lt hborn, ?_⟩
      -- the connection that is opened is another one
      have hne : c ≠ (s.setThread l t).nextConn := hborn.ne
      have hstanding := hopens.standing c
      rw [if_neg hne] at hstanding
      have hsame : (s'.tcp c).state = (s.tcp c).state := congrArg Standing.state hstanding
      rwa [hsame]
  · rw [destruct_tcp]
    exact ⟨hborn, hstate⟩

/-! ## Runs -/

/-- A step, with the connections for which the connected callback has been called. -/
def applyCalls (files : Files) (x : Sys × List ConnId) (label : Label) :
    Except Fault ((Sys × List ConnId) × Unit) :=
  (x.1.step files label).map fun s => ((s, x.2 ++ (x.1.connects label).toList), ())

/-- In every run of any number of loops, servers and clients, whose new connections find no entry
left in the poller: whenever a connection is connected, the connected callback is called, and
for the first time, the connection is connected, in `connections_` and has both callbacks;
and the poller waits for what can be read if and only if `::connect` did not complete at once. -/
theorem connect_paths_agree_iff (files : Files) (owners : ℕ → Owner) (labels : List Label)
    (hguard : Guarded (applyCalls files) (fun x label => Forgotten x.1 label) (init owners, [])
      labels)
    (s : Sys) (calls : List ConnId) (us : List Unit)
    (hrun : run (applyCalls files) (init owners, []) labels = .ok ((s, calls), us))
    (label : Label) (s' : Sys) (hstep : s.step files label = .ok s') (c : ConnId)
    (hc : s.connects label = some c) :
    (∃ l input, label = .exec l input ∧ (s'.threads l).nextTask = some (.user (some c))) ∧
      c ∉ calls ∧ Established s' c ∧
      (ReadPolled s' c ↔ ∀ l fd, label ≠ .exec l (.connect fd true)) := by
  -- the connections that were called once are not connecting any more, so none is called twice
  have hinv : Listed s ∧ ∀ c ∈ calls, c < s.nextConn ∧ (s.tcp c).state ≠ .kConnecting := by
    refine inv_of_run (fun x : Sys × List ConnId => Listed x.1 ∧
      ∀ c ∈ x.2, c < x.1.nextConn ∧ (x.1.tcp c).state ≠ .kConnecting) ?_
      ⟨init_listed owners, fun c hmem => by cases hmem⟩ hguard hrun
    rintro ⟨s, calls⟩ label ⟨s', calls'⟩ u ⟨hlisted, hcalls⟩ hlabel hok
    rcases map_ok.1 hok with ⟨s₁, hstep, hsame⟩
    cases hsame
    refine ⟨step_listed hlisted hlabel hstep, fun c hmem => ?_⟩
    rcases List.mem_append.1 hmem with hmem | hmem
    · rcases hcalls c hmem with ⟨hborn, hstate⟩
      exact step_not_connecting hlabel hstep hborn hstate
    · rcases step_connects hlisted hstep (Option.mem_toList.1 hmem) with
        ⟨-, hborn, -, hestablished, -⟩
      refine ⟨hborn, fun hconnecting => ?_⟩
      cases hestablished.state.symm.trans hconnecting
  rcases step_connects hinv.1 hstep hc with ⟨hcalled, -, hfirst, hestablished, hreads⟩
  refine ⟨hcalled, fun hmem => ?_, hestablished, hreads⟩
  rcases hinv.2 c hmem with ⟨hborn, hstate⟩
  exact hstate (hfirst hborn)

/-- A client connects; the next step is `::connect`. -/
def connectBegins : List Label := [
  .callUser 0, .exec 0 (.user (.connectTo 0)), .exec 0 (.user .ret), .run 0, .next 0,
  .poll 0 [.wakeUp], .next 0, .next 0, .next 0, .next 0, .next 0]

/-- `::connect` goes on, and the socket becomes writable; the next step is `ConnectedToPeer`. -/
def connectGoesOn : List Label := connectBegins ++ [
  .exec 0 (.connect 7 false), .next 0, .next 0, .next 0, .poll 0 [.events 7 epollOut],
  .exec 0 .none]

/-- A connect that succeeds at once in `SO_ERROR`. -/
theorem connect_paths_agree_run :
    ∃ s s' : Sys, s.step (fun _ _ => 0) (.exec 0 (.soError false)) = .ok s' ∧ Established s' 0 ∧
      ReadPolled s' 0 := by
  have hresult : (run (applyCalls fun _ _ => 0) (init fun _ => .client 0, []) connectGoesOn).map
      (fun r => (r.1.1.connects (.exec 0 (.soError false)),
        (r.1.1.step (fun _ _ => 0) (.exec 0 (.soError false))).toBool)) = .ok (some 0, true) := by
    decide +kernel
  rcases map_ok.1 hresult with ⟨⟨⟨s, calls⟩, us⟩, hrun, hstep⟩
  rw [Prod.mk.injEq] at hstep
  obtain ⟨s', hok⟩ : ∃ s', s.step (fun _ _ => 0) (.exec 0 (.soError false)) = .ok s' := by
    cases hok : s.step (fun _ _ => 0) (.exec 0 (.soError false)) with
    | ok s' => exact ⟨s', rfl⟩
    | error e =>
      rw [hok] at hstep
      cases hstep.2
  obtain ⟨-, -, hestablished, hreads⟩ := connect_paths_agree_iff (fun _ _ => 0)
    (fun _ => .client 0) connectGoesOn (by decide +kernel) s calls us hrun
    (.exec 0 (.soError false)) s' hok 0 hstep.1
  exact ⟨s, s', hok, hestablished, hreads.2 fun l fd hsame => by cases hsame⟩

/-- The same connect: when it completes at once, the connection ends as it does later, but the
poller never hears of it. -/
theorem immediate_connect_reads_nothing :
    (run (apply fun _ _ => 0) (init fun _ => .client 0)
        (connectGoesOn ++ [.exec 0 (.soError false)])).map
        (fun r => (decide (Established r.1 0), decide (ReadPolled r.1 0))) = .ok (true, true) ∧
      (run (apply fun _ _ => 0) (init fun _ => .client 0)
        (connectBegins ++ [.exec 0 (.connect 7 true)])).map
        (fun r => (decide (Established r.1 0), decide (ReadPolled r.1 0))) =
          .ok (true, false) := by
  constructor
  · decide +kernel
  · decide +kernel

end FxServer.Sys
