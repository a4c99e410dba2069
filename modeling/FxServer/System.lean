import Mathlib.Logic.Function.Basic
import Mathlib.Tactic.Simps.Basic
import FxServer.EventLoop
import FxServer.TcpConnection

/-!
# FxServer.System — loops, servers, clients and their connections

The model of `src/src/fx_poller.cc`, `src/src/fx_tcp_server.cc`,
`src/src/fx_tcp_client.cc`, `src/src/fx_connector.cc` and of the rest of
`src/src/fx_tcp_connection.cc`: any number of event loops, each in a thread of its
own, and the servers and clients that live in them.

A thread has a stack of tasks. A task is a functor, a handler of an active channel,
or what is left of a function behind a call that leads to user code. User code is a
task as well; as long as it is on top of the stack, the inputs say which call it makes
next. A step is one task of one thread up to the next call of user code or operation
on a queue, or one step of `EventLoop::Run`.

A connection is named by a number, which stands for its address. It is destroyed by a
step of its own, some time after the last pointer to it is gone.

The inputs carry what the poller reports and in which order, what the system calls return, and
the calls of user code. What `shutdown` returns is one of them: where it fails, the process ends
in a `PCHECK`.
-/

namespace FxServer

abbrev ConnId := ℕ

/-- What a thread does next. -/
inductive Task where
  /-- `Acceptor::NewConnetion` of a server -/
  | newConnection (owner : ℕ)
  /-- `Channel::HandleEvents` -/
  | handleEvents (c : ConnId)
  /-- the write callback of the channel, in `HandleEvents` -/
  | writeCallback (c : ConnId)
  /-- `WriteToPeer` behind its first loop, with `bytes_to_read` and the results left -/
  | sendfile (c : ConnId) (bytesToRead : ℕ) (results : List IoResult)
  /-- `WriteToPeer` behind its second loop -/
  | finishWrite (c : ConnId) (bytesToRead : ℕ)
  /-- the read callback of the channel, in `HandleEvents` -/
  | readCallback (c : ConnId)
  /-- the end of `HandleEvents` -/
  | endEvents (c : ConnId)
  /-- `bind(nccb_, conn)` -/
  | newConnectionCallback (c : ConnId)
  /-- `conn->StartReading()`, in `OnNewConnection` -/
  | startReading (c : ConnId)
  /-- `bind(&Channel::EnableReading, channel_.get())` -/
  | enableReading (c : ConnId)
  /-- `bind(&TcpServer::HandleConnectionClose, this, fd)` -/
  | handleConnectionClose (owner fd : ℕ)
  /-- `bind(cccb_, conn)` -/
  | closeConnectionCallback (c : ConnId)
  /-- the end of `HandleConnectionClose`, which queues `Destroy` -/
  | queueDestroy (c : ConnId)
  /-- `bind(&TcpConnection::Destroy, conn)` -/
  | destroy (c : ConnId)
  /-- `bind(&Connector::ConnectTo, connector_.get(), …)` of a client -/
  | connectTo (owner : ℕ)
  /-- user code, which may have been given a connection -/
  | user (c : Option ConnId)
deriving DecidableEq, Repr

/-- The task has a `TcpConnectionPtr` of the connection. -/
def Task.holds (c : ConnId) : Task → Bool
  | .newConnectionCallback c' | .startReading c' | .closeConnectionCallback c' | .queueDestroy c'
  | .destroy c' => c' = c
  | .user (some c') => c' = c
  | _ => false

/-- What happened, for the history. -/
inductive Event where
  /-- a connection is put into `connections_` -/
  | opened (c : ConnId)
  | readCallback (c : ConnId)
  | writeDoneCallback (c : ConnId)
  /-- the close callback of the connection -/
  | closeCallback (c : ConnId)
  /-- a connection is taken from `connections_` -/
  | handled (c : ConnId)
  /-- `Poller::UpdateChannel`, and the entry behind it -/
  | channelUpdated (c : ConnId) (entry : Option ConnId)
  | destroyed (c : ConnId)
deriving DecidableEq, Repr

/-- An event loop, its poller and the stack of its thread. -/
structure LoopThread where
  loop : EventLoop Task Task
  /-- `Poller::channels_`, for the channels of connections -/
  channels : ℕ → Option ConnId
  stack : List Task

/-- Servers and clients close their connections in different ways. -/
inductive OwnerKind where
  | server
  | client
deriving DecidableEq, Repr

/-- A `TcpServer` or a `TcpClient`. -/
structure Owner where
  kind : OwnerKind
  /-- `base_loop_` of a server, `loop_` of a client -/
  baseLoop : ℕ
  /-- the loops of `loop_threads_`; a client has none -/
  pool : List ℕ
  /-- `next_` of the pool -/
  next : ℕ
  /-- it has not been destroyed -/
  alive : Bool
  /-- `connections_` -/
  connections : ℕ → Option ConnId

/-- A `TcpServer` behind `Start`, with the loops of its threads. -/
def Owner.server (baseLoop : ℕ) (pool : List ℕ) : Owner where
  kind := .server
  baseLoop
  pool
  next := 0
  alive := true
  connections := fun _ => none

/-- A `TcpClient`. -/
def Owner.client (loop : ℕ) : Owner where
  kind := .client
  baseLoop := loop
  pool := []
  next := 0
  alive := true
  connections := fun _ => none

/-- A connection, with what surrounds it. -/
structure Conn where
  tcp : TcpConnection
  /-- whose close callback it has -/
  owner : ℕ
  /-- user code has kept a pointer to it -/
  held : Bool
  /-- `handling_events_` of the channel -/
  handlingEvents : Bool
  /-- the destructor has run -/
  destructed : Bool
  /-- history: bytes were written since `WriteToPeer` last ran -/
  unflushed : Bool

def Conn.new (owner loop fd : ℕ) (state : TcpConnectionState) : Conn where
  tcp := .new loop fd state
  owner
  held := false
  handlingEvents := false
  destructed := false
  unflushed := false

/-- All threads with their loops, all servers and clients, and all connections that have
ever been made. -/
structure Sys where
  threads : ℕ → LoopThread
  owners : ℕ → Owner
  conns : ConnId → Conn
  nextConn : ConnId
  /-- history -/
  log : List Event

/-- The task of a handler; the one of the wake-up channel is none. -/
@[simp] def Handler.task : Handler Task → Option Task
  | .channel task => some task
  | .wakeUp => none

namespace LoopThread

/-- A thread whose loop has not run: no channel, and nothing to do. -/
def new : LoopThread where
  loop := .new
  channels := fun _ => none
  stack := []

/-- What is left of the batch of handlers or functors. -/
def batch (t : LoopThread) : List Task :=
  match t.loop.phase with
  | .handling rest => rest.filterMap Handler.task
  | .calling rest => rest
  | _ => []

/-- Every task that waits in the thread. -/
def tasks (t : LoopThread) : List Task := t.stack ++ t.batch ++ t.loop.functors

/-- The next task, and the thread without it. -/
def take (t : LoopThread) : Option (Task × LoopThread) :=
  match t.stack with
  | task :: stack => some (task, { t with stack })
  | [] =>
    match t.loop.phase with
    | .handling (.channel task :: rest) =>
      some (task, { t with loop := { t.loop with phase := .handling rest } })
    | .calling (task :: rest) =>
      some (task, { t with loop := { t.loop with phase := .calling rest } })
    | _ => none

/-- The task that the thread runs next, if it has one. -/
def nextTask (t : LoopThread) : Option Task := t.take.map Prod.fst

end LoopThread

namespace Sys

/-- The owners as they are given, before any connection has been made. -/
def init (owners : ℕ → Owner) : Sys where
  threads := fun _ => .new
  owners := fun o => { owners o with next := 0, alive := true, connections := fun _ => none }
  conns := fun _ => .new 0 0 0 .kConnected
  nextConn := 0
  log := []

/-! ## Access -/

def tcp (s : Sys) (c : ConnId) : TcpConnection := (s.conns c).tcp

/-- The loop `l` and what its thread has to do. -/
@[simps -fullyApplied]
def setThread (s : Sys) (l : ℕ) (t : LoopThread) : Sys :=
  { s with threads := Function.update s.threads l t }

@[simps -fullyApplied]
def setOwner (s : Sys) (o : ℕ) (owner : Owner) : Sys :=
  { s with owners := Function.update s.owners o owner }

/-- `connections_.erase` -/
def eraseConnection (s : Sys) (o fd : ℕ) : Sys :=
  s.setOwner o { s.owners o with
    connections := Function.update (s.owners o).connections fd none }

/-- The connection `c`. -/
@[simps -fullyApplied]
def setConn (s : Sys) (c : ConnId) (conn : Conn) : Sys :=
  { s with conns := Function.update s.conns c conn }

def setTcp (s : Sys) (c : ConnId) (k : TcpConnection) : Sys :=
  s.setConn c { s.conns c with tcp := k }

/-- An event joins the history. -/
@[simps -fullyApplied]
def emit (s : Sys) (e : Event) : Sys := { s with log := s.log ++ [e] }

/-- The object exists. -/
def Exists (s : Sys) (c : ConnId) : Prop := c < s.nextConn ∧ (s.conns c).destructed = false

instance (s : Sys) (c : ConnId) : Decidable (s.Exists c) :=
  inferInstanceAs (Decidable (c < s.nextConn ∧ (s.conns c).destructed = false))

/-- Access to an object. -/
def checkExists (s : Sys) (c : ConnId) : Except Fault Unit :=
  if s.Exists c then .ok () else .error .useAfterFree

/-- Access to a server or a client. -/
def checkAlive (s : Sys) (o : ℕ) : Except Fault Unit :=
  if (s.owners o).alive then .ok () else .error .useAfterFree

/-- The descriptor belongs to a connection that has not been destroyed. -/
def IsOpen (s : Sys) (fd : ℕ) : Prop :=
  ∃ c < s.nextConn, (s.conns c).destructed = false ∧ (s.tcp c).channel.fd = fd

instance (s : Sys) (fd : ℕ) : Decidable (s.IsOpen fd) :=
  inferInstanceAs (Decidable (∃ c < s.nextConn, (s.conns c).destructed = false ∧
    (s.tcp c).channel.fd = fd))

/-! ## Queues -/

/-- A call that the running task makes: it comes before everything else of the thread. -/
def push (s : Sys) (l : ℕ) (task : Task) : Sys :=
  s.setThread l { s.threads l with stack := task :: (s.threads l).stack }

/-- `QueueInLoop` of the loop `l`, by the thread of the loop `here`. -/
def queueInLoop (s : Sys) (here l : ℕ) (task : Task) : Sys :=
  s.setThread l { s.threads l with
    loop := (s.threads l).loop.queueInLoop (here = l) task }

/-- `RunInLoop`: at once in the thread of the loop, and by way of its queue in another. -/
def runInLoop (s : Sys) (here l : ℕ) (task : Task) : Sys :=
  if here = l then s.push l task else s.queueInLoop here l task

/-! ## Poller -/

/-- What `epoll_wait` reports of a descriptor. -/
inductive Ready where
  /-- the pipe of the wake-up channel can be read -/
  | wakeUp
  /-- a server has a connection to accept -/
  | accept (owner : ℕ)
  /-- the descriptor of a connection has events -/
  | events (fd : ℕ) (revents : Mask)
deriving DecidableEq, Repr

/-- The reports are about one descriptor. -/
def Ready.sameFd : Ready → Ready → Bool
  | .wakeUp, .wakeUp => true
  | .accept o, .accept o' => o = o'
  | .events fd _, .events fd' _ => fd = fd'
  | _, _ => false

/-- `UpdateChannel`, of the channel of `c` -/
def updateChannel (s : Sys) (here : ℕ) (c : ConnId) : Except Fault Sys := do
  let fd := (s.tcp c).channel.fd
  check ((s.tcp c).channel.loop = here)
  match (s.threads here).channels fd with
  | none =>
    let s := s.setThread here { s.threads here with
      channels := Function.update (s.threads here).channels fd (some c) }
    .ok (s.emit (.channelUpdated c (some c)))
  -- `EPOLL_CTL_MOD`: the entry stays as it is, even if it is another channel's
  | some entry => .ok (s.emit (.channelUpdated c (some entry)))

/-- `RemoveChannel`, of the channel of `c` -/
def removeChannel (s : Sys) (here : ℕ) (c : ConnId) : Except Fault Sys := do
  let fd := (s.tcp c).channel.fd
  check ((s.tcp c).channel.loop = here)
  check ((s.threads here).channels fd ≠ none)
  .ok (s.setThread here { s.threads here with
    channels := Function.update (s.threads here).channels fd none })

/-- `FillActiveChannels`: the active channels, in the order in which `epoll_wait` reports
their descriptors -/
def fillActiveChannels (s : Sys) (l : ℕ) :
    List Ready → Except Fault (Sys × List (Handler Task))
  | [] => .ok (s, [])
  | .wakeUp :: ready => do
    let (s', active) ← fillActiveChannels s l ready
    -- the pipe is readable only while a value is in it
    .ok (s', if 0 < (s.threads l).loop.wakeUps then .wakeUp :: active else active)
  | .accept o :: ready => do
    let (s', active) ← fillActiveChannels s l ready
    .ok (s', if (s.owners o).kind = .server ∧ (s.owners o).baseLoop = l then
      .channel (.newConnection o) :: active else active)
  | .events fd revents :: ready =>
    match (s.threads l).channels fd with
    | none => .error .assertion
    | some c => do
      s.checkExists c
      let k := s.tcp c
      let (s, active) ← fillActiveChannels
        (s.setTcp c { k with channel := { k.channel with revents } }) l ready
      .ok (s, .channel (.handleEvents c) :: active)

/-! ## Closing -/

/-- `ccb_(fd_)`: `OnConnectionClosed` of a server, `OnCloseConnection` of a client -/
def closeCallback (s : Sys) (here : ℕ) (c : ConnId) : Except Fault Sys := do
  let o := (s.conns c).owner
  let fd := (s.tcp c).channel.fd
  s.checkAlive o
  let s := s.emit (.closeCallback c)
  match (s.owners o).kind with
  | .server => .ok (s.runInLoop here (s.owners o).baseLoop (.handleConnectionClose o fd))
  | .client =>
    -- a client takes it from its table at once, without a hop to another loop
    match (s.owners o).connections fd with
    | none => .error .assertion
    | some c' =>
      let s := s.eraseConnection o fd
      .ok ((s.emit (.handled c')).queueInLoop here (s.tcp c').channel.loop (.destroy c'))

/-- `ActiveClose`, with whether its `shutdown` succeeds -/
def activeClose (s : Sys) (here : ℕ) (c : ConnId) (shutdown : Bool) : Except Fault Sys := do
  s.checkExists c
  let k ← (s.tcp c).activeClose shutdown
  let s ← (s.setTcp c k).updateChannel here c
  s.closeCallback here c

/-- `PassiveClose`, which does nothing to a connection that is closed already. -/
def passiveClose (s : Sys) (here : ℕ) (c : ConnId) : Except Fault Sys := do
  s.checkExists c
  if (s.tcp c).closed then .ok s
  else
    -- `DisableReading` and `DisableWriting` each update the channel
    let s ← (s.setTcp c (s.tcp c).passiveClose).updateChannel here c
    let s ← s.updateChannel here c
    s.closeCallback here c

/-- The close behind a loop of `WriteToPeer`. -/
def closeFailed (s : Sys) (here : ℕ) (c : ConnId) (failed : Option Bool) : Except Fault Sys :=
  match failed, (s.tcp c).closed with
  | some shutdown, false => s.activeClose here c shutdown
  | _, _ => .ok s

/-- `Destroy`, with whether its `shutdown` succeeds -/
def destroy (s : Sys) (here : ℕ) (c : ConnId) (shutdown : Bool) : Except Fault Sys := do
  s.checkExists c
  check ((s.tcp c).state = .kDisconnected)
  -- the `PCHECK` of `socketop::DisableWriting` ends the process
  check (shutdown = true)
  let s ← s.removeChannel here c
  .ok (s.emit (.destroyed c))

/-! ## New connections -/

/-- `NextLoop`, and the pool behind it -/
def nextLoop (owner : Owner) : Except Fault (ℕ × Owner) :=
  if owner.pool = [] then .ok (owner.baseLoop, owner)
  else
    match owner.pool[owner.next]? with
    | none => .error .assertion
    | some l =>
      let next := if owner.next + 1 = owner.pool.length then 0 else owner.next + 1
      .ok (l, { owner with next })

/-- A new object, in `connections_` under its descriptor. -/
def addConn (s : Sys) (o loop fd : ℕ) (state : TcpConnectionState) : Except Fault Sys := do
  check ((s.owners o).connections fd = none)
  let c := s.nextConn
  let s := s.setConn c (.new o loop fd state)
  let s := { s with nextConn := c + 1 }
  let s := s.setOwner o { s.owners o with
    connections := Function.update (s.owners o).connections fd (some c) }
  .ok (s.emit (.opened c))

/-- `TcpServer::OnNewConnection` -/
def onNewConnection (s : Sys) (here o fd : ℕ) : Except Fault Sys := do
  s.checkAlive o
  let (loop, owner) ← nextLoop (s.owners o)
  let c := s.nextConn
  let s ← (s.setOwner o owner).addConn o loop fd .kConnected
  -- a callback that runs at once comes before `StartReading`, so it is pushed last
  .ok ((s.push here (.startReading c)).runInLoop here loop (.newConnectionCallback c))

/-- `TcpClient::OnConnect`; the constructor of an unconnected connection enables
writing. -/
def onConnect (s : Sys) (here o fd : ℕ) (connected : Bool) : Except Fault Sys := do
  s.checkAlive o
  let c := s.nextConn
  let loop := (s.owners o).baseLoop
  if connected then
    let s ← s.addConn o loop fd .kConnected
    .ok (s.push here (.user (some c)))
  else
    let s ← s.addConn o loop fd .kConnecting
    (s.setTcp c { s.tcp c with channel := (s.tcp c).channel.enableWriting }).updateChannel here c

/-- `ConnectedToPeer`, and `TcpClient::OnConnected` -/
def connectedToPeer (s : Sys) (here : ℕ) (c : ConnId) (failed : Bool) : Except Fault Sys := do
  let k := s.tcp c
  check (k.state = .kConnecting)
  -- a connection that is connecting is not shut down
  if failed then s.activeClose here c true
  else
    let s := s.setTcp c { k with state := .kConnected, channel := k.channel.enableReading }
    let s ← s.updateChannel here c
    let k := s.tcp c
    let s := s.setTcp c { k with
      channel := { k.channel.disableWriting with
        readCallback := true, writeCallback := .writeToPeer } }
    let s ← s.updateChannel here c
    s.checkAlive (s.conns c).owner
    check ((s.owners (s.conns c).owner).connections k.channel.fd ≠ none)
    .ok (s.push here (.user (some c)))

/-! ## Tasks -/

/-- A call that user code makes; `ret` ends the user code. -/
inductive UserCall where
  | write (c : ConnId) (buf : List UInt8)
  | zeroCopyWrite (c : ConnId) (fd : ℤ) (offset len : ℕ)
  | startReading (c : ConnId)
  | activeClose (c : ConnId) (shutdown : Bool)
  | passiveClose (c : ConnId)
  | destroy (c : ConnId) (shutdown : Bool)
  /-- a pointer is copied -/
  | keep (c : ConnId)
  /-- and released -/
  | drop (c : ConnId)
  /-- a functor of the user is queued -/
  | queueInLoop (l : ℕ)
  | connectTo (owner : ℕ)
  | destroyOwner (owner : ℕ)
  | ret
deriving DecidableEq, Repr

/-- What a task gets from outside: results of system calls, or the next call of user
code. -/
inductive Input where
  | none
  | accept (fd : ℕ)
  | connect (fd : ℕ) (connected : Bool)
  | connectFailed
  /-- whether `SO_ERROR` is set -/
  | soError (failed : Bool)
  | results (results : List IoResult)
  | read (result : ReadResult)
  /-- whether `shutdown` succeeds -/
  | shutdown (ok : Bool)
  | user (call : UserCall)
deriving DecidableEq, Repr

/-- Whether the `shutdown` of a task that takes no other input succeeds; it does where
nothing is said of it. -/
def Input.shutdownOk : Input → Bool
  | .shutdown ok => ok
  | _ => true

/-- A call of user code that runs in the thread of the loop `here`. -/
def userCall (files : Files) (s : Sys) (here : ℕ) : UserCall → Except Fault Sys
  | .write c buf => do
    s.checkExists c
    check ((s.tcp c).channel.loop = here)
    let k ← (s.tcp c).write buf
    let conn := s.conns c
    (s.setConn c { conn with
      tcp := k
      unflushed := conn.unflushed || !buf.isEmpty }).updateChannel here c
  | .zeroCopyWrite c fd offset len => do
    s.checkExists c
    .ok (s.setTcp c ((s.tcp c).zeroCopyWrite files fd offset len))
  | .startReading c => do
    s.checkExists c
    .ok (s.runInLoop here (s.tcp c).channel.loop (.enableReading c))
  | .activeClose c shutdown => s.activeClose here c shutdown
  | .passiveClose c => s.passiveClose here c
  | .destroy c shutdown => s.destroy here c shutdown
  | .keep c => do
    s.checkExists c
    .ok (s.setConn c { s.conns c with held := true })
  | .drop c => .ok (s.setConn c { s.conns c with held := false })
  | .queueInLoop l => .ok (s.queueInLoop here l (.user none))
  | .connectTo o => do
    s.checkAlive o
    .ok (s.queueInLoop here (s.owners o).baseLoop (.connectTo o))
  | .destroyOwner o =>
    .ok (s.setOwner o { s.owners o with alive := false, connections := fun _ => none })
  | .ret => .ok s

/-- Run a task that has been taken from the stack of the loop `here`. A task that
waits for an input of another kind stays where it is. -/
def exec (files : Files) (s : Sys) (here : ℕ) : Task → Input → Except Fault Sys
  | .newConnection o, .accept fd =>
    -- the kernel gives out no descriptor that is open
    if s.IsOpen fd then .ok (s.push here (.newConnection o)) else s.onNewConnection here o fd
  | .handleEvents c, _ => do
    s.checkExists c
    -- the write callback comes first, and so goes on the stack last
    let s := s.setConn c { s.conns c with handlingEvents := true }
    let ch := (s.tcp c).channel
    let s := s.push here (.endEvents c)
    let s := if ch.readReady then s.push here (.readCallback c) else s
    .ok (if ch.writeReady then s.push here (.writeCallback c) else s)
  | .writeCallback c, i => do
    s.checkExists c
    match (s.tcp c).channel.writeCallback, i with
    | .connectedToPeer, .soError failed => s.connectedToPeer here c failed
    | .writeToPeer, .results results =>
      check ((s.tcp c).channel.loop = here)
      let (k, failed, rest) ← TcpConnection.writeLoop results (s.tcp c)
      -- `bytes_to_read` is read once, here: user code may write more before the end
      let s := s.setConn c { s.conns c with tcp := k, unflushed := false }
      let s := s.push here (.sendfile c k.writeBuf.bytesToRead rest)
      s.closeFailed here c failed
    | _, _ => .ok (s.push here (.writeCallback c))
  | .sendfile c bytesToRead results, _ => do
    s.checkExists c
    let (k, failed) ← TcpConnection.sendfileLoop files results (s.tcp c)
    let s := (s.setTcp c k).push here (.finishWrite c bytesToRead)
    s.closeFailed here c failed
  | .finishWrite c bytesToRead, _ => do
    s.checkExists c
    if (s.tcp c).writeDone bytesToRead then
      let s ← (s.setTcp c (s.tcp c).finishWrite).updateChannel here c
      .ok ((s.emit (.writeDoneCallback c)).push here (.user none))
    else .ok s
  | .readCallback c, i => do
    s.checkExists c
    if (s.tcp c).channel.readCallback then
      match i with
      | .read result =>
        check ((s.tcp c).channel.loop = here)
        if result.closes then s.passiveClose here c
        else
          let k ← (s.tcp c).readFromPeer result
          .ok (((s.setTcp c k).emit (.readCallback c)).push here (.user (some c)))
      | _ => .ok (s.push here (.readCallback c))
    else .ok s
  | .endEvents c, _ => do
    s.checkExists c
    .ok (s.setConn c { s.conns c with handlingEvents := false })
  | .newConnectionCallback c, _ => .ok (s.push here (.user (some c)))
  | .startReading c, _ => .ok (s.runInLoop here (s.tcp c).channel.loop (.enableReading c))
  | .enableReading c, _ => do
    s.checkExists c
    let k := s.tcp c
    (s.setTcp c { k with channel := k.channel.enableReading }).updateChannel here c
  | .handleConnectionClose o fd, _ => do
    s.checkAlive o
    match (s.owners o).connections fd with
    | none => .error .assertion
    | some c =>
      let s := s.eraseConnection o fd
      let s := (s.emit (.handled c)).push here (.queueDestroy c)
      .ok (s.runInLoop here (s.tcp c).channel.loop (.closeConnectionCallback c))
  | .closeConnectionCallback c, _ => .ok (s.push here (.user (some c)))
  -- queued even when the callback has run at once
  | .queueDestroy c, _ => .ok (s.queueInLoop here (s.tcp c).channel.loop (.destroy c))
  | .destroy c, i => s.destroy here c i.shutdownOk
  | .connectTo o, .connect fd connected =>
    if s.IsOpen fd then .ok (s.push here (.connectTo o)) else s.onConnect here o fd connected
  | .connectTo o, .connectFailed => do
    s.checkAlive o
    .ok s
  | .user _, .user .ret => .ok s
  | .user c, .user call => (s.push here (.user c)).userCall files here call
  | task, _ => .ok (s.push here task)

/-! ## Steps -/

/-- A pointer to the connection is left. -/
def Referenced (s : Sys) (c : ConnId) : Prop :=
  (s.owners (s.conns c).owner).connections (s.tcp c).channel.fd = some c ∨
  (s.conns c).held = true ∨
  (s.threads (s.tcp c).channel.loop).tasks.any (Task.holds c) = true ∨
  (s.threads (s.owners (s.conns c).owner).baseLoop).tasks.any (Task.holds c) = true

instance (s : Sys) (c : ConnId) : Decidable (s.Referenced c) := by
  unfold Referenced
  infer_instance

/-- A step of the system, with its input: one of a thread, one of its poller, or a
destructor. -/
inductive Label where
  /-- the thread of the loop `l` calls `Run` -/
  | run (l : ℕ)
  /-- `Run` goes on, with no task to do -/
  | next (l : ℕ)
  /-- `Poll` returns with these reports -/
  | poll (l : ℕ) (ready : List Ready)
  /-- the period functor, a timer callback, or user code before `Run` -/
  | callUser (l : ℕ)
  /-- the next task -/
  | exec (l : ℕ) (input : Input)
  /-- the destructor of a connection without pointers to it -/
  | destruct (c : ConnId)
deriving DecidableEq, Repr

/-- One step; a step that is not enabled changes nothing. -/
def step (files : Files) (s : Sys) : Label → Except Fault Sys
  | .run l =>
    let t := s.threads l
    match t.stack, t.loop.phase with
    | [], .idle => .ok (s.setThread l { t with loop := t.loop.run })
    | _, _ => .ok s
  | .next l =>
    let t := s.threads l
    match t.stack, t.loop.phase with
    | [], .handling (.wakeUp :: rest) =>
      -- the only handler that is no task
      .ok (s.setThread l { t with loop := { t.loop.processWakeUp with phase := .handling rest } })
    | [], _ => .ok (s.setThread l { t with loop := t.loop.next })
    | _, _ => .ok s
  | .poll l ready =>
    match (s.threads l).loop.phase with
    | .polling =>
      -- a descriptor is reported once
      if ready.Pairwise fun r r' => r.sameFd r' = false then do
        let (s, active) ← s.fillActiveChannels l ready
        .ok (s.setThread l { s.threads l with loop := (s.threads l).loop.poll active })
      else .ok s
    | _ => .ok s
  | .callUser l =>
    let t := s.threads l
    match t.stack, t.loop.phase with
    | [], .idle | [], .period | [], .timers => .ok (s.push l (.user none))
    | _, _ => .ok s
  | .exec l input =>
    match (s.threads l).take with
    | none => .ok s
    | some (task, t) => (s.setThread l t).exec files l task input
  | .destruct c =>
    if s.Exists c ∧ ¬ s.Referenced c then do
      -- asserted by the destructor of the channel
      check ((s.conns c).handlingEvents = false)
      .ok (s.setConn c { s.conns c with destructed := true })
    else .ok s

/-- The steps as a machine; what happened is in the history. -/
def apply (files : Files) (s : Sys) (label : Label) : Except Fault (Sys × Unit) := do
  let s ← s.step files label
  .ok (s, ())

end Sys

end FxServer
