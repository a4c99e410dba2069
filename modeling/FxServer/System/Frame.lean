import Mathlib.Data.List.Count
import FxServer.System

/-!
# FxServer.System.Frame — what a step leaves alone

Most of what a thread does says nothing about the life of a connection: it pushes
tasks, changes buffers and event masks, and registers channels. `Quiet s s'` says that
from `s` to `s'` nothing else has happened, `Frame s s'` allows for a change of states
besides. Both are preorders, and every primitive of the model has its lemma here.

The lemmas of this module say what each function of the model leaves alone. They are proved
function by function, from the bottom up, and used by the name of the function ever after.

* `pending_push`, `pending_queueInLoop`, `pending_runInLoop` — what is waiting, behind
  a new task.
* `step_steps` — the ways a step can go, for a case analysis in one place.
-/

namespace FxServer

/-- The task takes a connection from one stage of its life to the next. -/
def Task.tracked : Task → Bool
  | .handleConnectionClose .. | .queueDestroy _ | .destroy _ => true
  | _ => false

/-- The event is one of the life of a connection. -/
def Event.tracked : Event → Bool
  | .writeDoneCallback _ | .channelUpdated .. => false
  | _ => true

/-! ## Waiting tasks -/

theorem Task.count_cons (task task' : Task) (tasks : List Task) :
    (task :: tasks).count task' = tasks.count task' + if task' = task then 1 else 0 := by
  by_cases h : task' = task
  · subst h
    simp
  · simp [List.count_cons_of_ne (Ne.symm h), h]

namespace EventLoop

variable {H F : Type}

@[simp] theorem queueInLoop_functors (l : EventLoop H F) (b : Bool) (f : F) :
    (l.queueInLoop b f).functors = l.functors ++ [f] := by
  unfold queueInLoop
  split <;> rfl

@[simp] theorem queueInLoop_phase (l : EventLoop H F) (b : Bool) (f : F) :
    (l.queueInLoop b f).phase = l.phase := by
  unfold queueInLoop
  split <;> rfl

end EventLoop

/-- The tasks of a batch are those of its channels. -/
theorem Handler.mem_filterMap_task {task : Task} {handlers : List (Handler Task)} :
    task ∈ handlers.filterMap Handler.task ↔ .channel task ∈ handlers := by
  rw [List.mem_filterMap]
  constructor
  · rintro ⟨handler, hmem, htask⟩
    cases handler with
    | wakeUp => cases htask
    | channel task' =>
      cases htask
      exact hmem
  · intro hmem
    exact ⟨_, hmem, rfl⟩

namespace LoopThread

theorem nextTask_eq {t : LoopThread} {task : Task} :
    t.nextTask = some task ↔ ∃ t', t.take = some (task, t') := by
  simp [nextTask]

/-- The next task is the first of those that wait. -/
theorem take_tasks {t t' : LoopThread} {task : Task} (h : t.take = some (task, t')) :
    t.tasks = task :: t'.tasks := by
  unfold take at h
  split at h
  · rename_i task' stack hs
    cases h
    simp [tasks, batch, hs]
  · rename_i hs
    split at h
    · -- between handlers, the stack is empty: the next one of the batch
      rename_i task' rest hp
      cases h
      simp [tasks, batch, hs, hp]
    · -- or the next functor
      rename_i task' rest hp
      cases h
      simp [tasks, batch, hs, hp]
    · cases h

theorem take_channels {t t' : LoopThread} {task : Task} (h : t.take = some (task, t')) :
    t'.channels = t.channels := by
  unfold take at h
  split at h
  · cases h
    rfl
  · split at h <;> cases h <;> rfl

@[simp] theorem tasks_push (t : LoopThread) (task : Task) :
    tasks { t with stack := task :: t.stack } = task :: t.tasks := rfl

@[simp] theorem tasks_queueInLoop (t : LoopThread) (b : Bool) (task : Task) :
    tasks { t with loop := t.loop.queueInLoop b task } = t.tasks ++ [task] := by
  simp [tasks, batch]

/-- `Run` moves the pending functors to the batch, and loses none. -/
theorem tasks_next (t : LoopThread) : tasks { t with loop := t.loop.next } = t.tasks := by
  unfold tasks batch EventLoop.next
  cases hp : t.loop.phase with
  | head => cases hq : t.loop.quit <;> simp
  | handling rest => cases rest <;> simp [hp]
  | calling rest => cases rest <;> simp [hp]
  | idle | polling | period | timers | exited => simp [hp]

theorem tasks_run {t : LoopThread} (hphase : t.loop.phase = .idle) :
    tasks { t with loop := t.loop.run } = t.tasks := by
  simp [tasks, batch, EventLoop.run, hphase]

/-- The handler of the wake-up channel is no task. -/
theorem tasks_wakeUp {t : LoopThread} {rest : List (Handler Task)}
    (hphase : t.loop.phase = .handling (.wakeUp :: rest)) :
    tasks { t with loop := { t.loop.processWakeUp with phase := .handling rest } } = t.tasks := by
  simp [tasks, batch, EventLoop.processWakeUp, hphase, List.filterMap_cons]

/-- What waits behind `Poll`: the handlers of the active channels, in their order. -/
theorem tasks_poll (t : LoopThread) (active : List (Handler Task)) :
    tasks { t with loop := t.loop.poll active } =
      t.stack ++ active.filterMap Handler.task ++ t.loop.functors := rfl

end LoopThread

/-- What a quiet step keeps of a connection. -/
def Conn.kept (conn : Conn) : ℕ × ℕ × ℕ × Bool × Bool :=
  (conn.owner, conn.tcp.channel.fd, conn.tcp.channel.loop, conn.destructed, conn.tcp.closed)

namespace Sys

/-- How often the task waits in the thread of the loop `l`. -/
def pending (s : Sys) (l : ℕ) (task : Task) : ℕ := (s.threads l).tasks.count task

/-- Setting one loop changes what is pending there. -/
theorem pending_setThread (s : Sys) (l : ℕ) (t : LoopThread) (l' : ℕ) (task : Task) :
    (s.setThread l t).pending l' task =
      if l' = l then t.tasks.count task else s.pending l' task := by
  unfold pending
  by_cases hl : l' = l
  · subst hl
    simp
  · simp [hl]

theorem pending_push (s : Sys) (l : ℕ) (task : Task) (l' : ℕ) (task' : Task) :
    (s.push l task).pending l' task' =
      s.pending l' task' + if l' = l ∧ task' = task then 1 else 0 := by
  unfold push
  rw [pending_setThread]
  by_cases hl : l' = l
  · subst hl
    simp [pending, Task.count_cons]
  · simp [hl]

theorem pending_queueInLoop (s : Sys) (here l : ℕ) (task : Task) (l' : ℕ) (task' : Task) :
    (s.queueInLoop here l task).pending l' task' =
      s.pending l' task' + if l' = l ∧ task' = task then 1 else 0 := by
  unfold queueInLoop
  rw [pending_setThread]
  by_cases hl : l' = l
  · subst hl
    simp [pending, Task.count_cons]
  · simp [hl]

/-- A task for `RunInLoop` is pending once more, wherever it runs. -/
theorem pending_runInLoop (s : Sys) (here l : ℕ) (task : Task) (l' : ℕ) (task' : Task) :
    (s.runInLoop here l task).pending l' task' =
      s.pending l' task' + if l' = l ∧ task' = task then 1 else 0 := by
  unfold runInLoop
  split
  · rename_i hl
    subst hl
    exact pending_push ..
  · exact pending_queueInLoop ..

/-- Taking a task, and nothing else. -/
theorem pending_take {s : Sys} {l : ℕ} {t : LoopThread} {task : Task}
    (h : (s.threads l).take = some (task, t)) (l' : ℕ) (task' : Task) :
    s.pending l' task' =
      (s.setThread l t).pending l' task' + if l' = l ∧ task' = task then 1 else 0 := by
  rw [pending_setThread]
  by_cases hl : l' = l
  · subst hl
    simp [pending, LoopThread.take_tasks h, Task.count_cons]
  · simp [hl]

@[simp] theorem pending_setOwner (s : Sys) (o : ℕ) (owner : Owner) :
    (s.setOwner o owner).pending = s.pending := rfl

@[simp] theorem pending_setConn (s : Sys) (c : ConnId) (conn : Conn) :
    (s.setConn c conn).pending = s.pending := rfl

@[simp] theorem pending_emit (s : Sys) (e : Event) : (s.emit e).pending = s.pending := rfl

/-! ## Frames of the queues -/

section Queues

variable (s : Sys) (here l : ℕ) (task : Task)

@[simp] theorem push_conns : (s.push l task).conns = s.conns := rfl

@[simp] theorem push_owners : (s.push l task).owners = s.owners := rfl

@[simp] theorem push_nextConn : (s.push l task).nextConn = s.nextConn := rfl

@[simp] theorem push_log : (s.push l task).log = s.log := rfl

@[simp] theorem queueInLoop_conns : (s.queueInLoop here l task).conns = s.conns := rfl

@[simp] theorem queueInLoop_owners : (s.queueInLoop here l task).owners = s.owners := rfl

@[simp] theorem queueInLoop_nextConn : (s.queueInLoop here l task).nextConn = s.nextConn := rfl

@[simp] theorem queueInLoop_log : (s.queueInLoop here l task).log = s.log := rfl

@[simp] theorem runInLoop_conns : (s.runInLoop here l task).conns = s.conns := by
  unfold runInLoop
  split <;> rfl

@[simp] theorem runInLoop_owners : (s.runInLoop here l task).owners = s.owners := by
  unfold runInLoop
  split <;> rfl

@[simp] theorem runInLoop_nextConn : (s.runInLoop here l task).nextConn = s.nextConn := by
  unfold runInLoop
  split <;> rfl

@[simp] theorem runInLoop_log : (s.runInLoop here l task).log = s.log := by
  unfold runInLoop
  split <;> rfl

@[simp] theorem push_tcp : (s.push l task).tcp = s.tcp := rfl

@[simp] theorem queueInLoop_tcp : (s.queueInLoop here l task).tcp = s.tcp := rfl

@[simp] theorem runInLoop_tcp : (s.runInLoop here l task).tcp = s.tcp := by
  unfold runInLoop
  split <;> rfl

end Queues

@[simp] theorem setThread_tcp (s : Sys) (l : ℕ) (t : LoopThread) : (s.setThread l t).tcp = s.tcp :=
  rfl

@[simp] theorem emit_tcp (s : Sys) (e : Event) : (s.emit e).tcp = s.tcp := rfl

section EraseConnection

variable (s : Sys) (o fd : ℕ)

@[simp] theorem eraseConnection_conns : (s.eraseConnection o fd).conns = s.conns := rfl

@[simp] theorem eraseConnection_tcp : (s.eraseConnection o fd).tcp = s.tcp := rfl

@[simp] theorem eraseConnection_nextConn : (s.eraseConnection o fd).nextConn = s.nextConn := rfl

@[simp] theorem eraseConnection_log : (s.eraseConnection o fd).log = s.log := rfl

@[simp] theorem eraseConnection_pending : (s.eraseConnection o fd).pending = s.pending := rfl

@[simp] theorem eraseConnection_baseLoop (o' : ℕ) :
    ((s.eraseConnection o fd).owners o').baseLoop = (s.owners o').baseLoop := by
  by_cases ho : o' = o
  · subst ho
    simp [eraseConnection]
  · simp [eraseConnection, ho]

/-- An erased entry is gone, and no other. -/
theorem eraseConnection_connections (o' fd' : ℕ) :
    ((s.eraseConnection o fd).owners o').connections fd' =
      if o' = o ∧ fd' = fd then none else (s.owners o').connections fd' := by
  by_cases ho : o' = o
  · subst ho
    simp [eraseConnection, Function.update_apply]
  · simp [eraseConnection, ho]

end EraseConnection

@[simp] theorem setTcp_conns (s : Sys) (c : ConnId) (k : TcpConnection) :
    (s.setTcp c k).conns = Function.update s.conns c { s.conns c with tcp := k } := rfl

theorem setTcp_tcp (s : Sys) (c : ConnId) (k : TcpConnection) (c' : ConnId) :
    (s.setTcp c k).tcp c' = if c' = c then k else s.tcp c' := by
  unfold tcp
  by_cases hc : c' = c
  · subst hc
    simp
  · simp [hc]

theorem checkAlive_ok {s : Sys} {o : ℕ} {u : Unit} :
    s.checkAlive o = .ok u ↔ (s.owners o).alive = true := by
  unfold checkAlive
  split <;> simp [*]

theorem checkExists_ok {s : Sys} {c : ConnId} {u : Unit} :
    s.checkExists c = .ok u ↔ s.Exists c := by
  unfold checkExists
  split <;> simp [*]

/-- What is new with a connection. -/
structure Added (s : Sys) (o loop fd : ℕ) (state : TcpConnectionState) (s' : Sys) : Prop where
  free : (s.owners o).connections fd = none
  nextConn : s'.nextConn = s.nextConn + 1
  threads : s'.threads = s.threads
  conns : s'.conns = Function.update s.conns s.nextConn (.new o loop fd state)
  log : s'.log = s.log ++ [.opened s.nextConn]
  kind : ∀ o', (s'.owners o').kind = (s.owners o').kind
  baseLoop : ∀ o', (s'.owners o').baseLoop = (s.owners o').baseLoop
  pool : ∀ o', (s'.owners o').pool = (s.owners o').pool
  connections : ∀ o' fd', (s'.owners o').connections fd' =
    if o' = o ∧ fd' = fd then some s.nextConn else (s.owners o').connections fd'

/-- What `AddConnection` adds. -/
theorem addConn_ok {s s' : Sys} {o loop fd : ℕ} {state : TcpConnectionState}
    (hok : s.addConn o loop fd state = .ok s') : Added s o loop fd state s' := by
  rcases bind_ok.1 hok with ⟨_, hfree, hok⟩
  rw [check_ok] at hfree
  cases hok
  refine ⟨hfree, rfl, rfl, rfl, rfl, fun o' => ?_, fun o' => ?_, fun o' => ?_, fun o' fd' => ?_⟩
  all_goals
    by_cases ho : o' = o
    · subst ho
      simp [Function.update_apply]
    · simp [ho]

/-- The new connection is new, and the others are what they were. -/
theorem Added.tcp {s s' : Sys} {o loop fd : ℕ} {state : TcpConnectionState}
    (h : Added s o loop fd state s') (c : ConnId) :
    s'.tcp c = if c = s.nextConn then .new loop fd state else s.tcp c := by
  unfold Sys.tcp
  rw [h.conns]
  by_cases hc : c = s.nextConn
  · subst hc
    simp [Conn.new]
  · simp [hc]

/-! ## Quiet steps -/

/-- Only states may have changed. -/
structure Frame (s s' : Sys) : Prop where
  nextConn : s'.nextConn = s.nextConn
  kind : ∀ o, (s'.owners o).kind = (s.owners o).kind
  baseLoop : ∀ o, (s'.owners o).baseLoop = (s.owners o).baseLoop
  connections : ∀ o, (s'.owners o).connections = (s.owners o).connections
  owner : ∀ c, (s'.conns c).owner = (s.conns c).owner
  fd : ∀ c, (s'.tcp c).channel.fd = (s.tcp c).channel.fd
  loop : ∀ c, (s'.tcp c).channel.loop = (s.tcp c).channel.loop
  destructed : ∀ c, (s'.conns c).destructed = (s.conns c).destructed
  /-- the tasks that matter wait where they waited -/
  pending : ∀ l task, task.tracked = true → s'.pending l task = s.pending l task
  /-- and the new events do not matter -/
  log : ∃ events, s'.log = s.log ++ events ∧ ∀ e ∈ events, e.tracked = false

/-- Nothing has happened to any connection's life. -/
structure Quiet (s s' : Sys) : Prop extends Frame s s' where
  closed : ∀ c, (s'.tcp c).closed = (s.tcp c).closed

variable {s s' s'' : Sys}

theorem log_refl (s : Sys) : ∃ events, s.log = s.log ++ events ∧ ∀ e ∈ events, e.tracked = false :=
  ⟨[], by simp, by simp⟩

theorem Frame.refl (s : Sys) : Frame s s := by
  constructor
  case log => exact log_refl s
  all_goals
    intros
    rfl

theorem Frame.trans (h : Frame s s') (h' : Frame s' s'') : Frame s s'' where
  nextConn := h'.nextConn.trans h.nextConn
  kind o := (h'.kind o).trans (h.kind o)
  baseLoop o := (h'.baseLoop o).trans (h.baseLoop o)
  connections o := (h'.connections o).trans (h.connections o)
  owner c := (h'.owner c).trans (h.owner c)
  fd c := (h'.fd c).trans (h.fd c)
  loop c := (h'.loop c).trans (h.loop c)
  destructed c := (h'.destructed c).trans (h.destructed c)
  pending l task ht := (h'.pending l task ht).trans (h.pending l task ht)
  log := by
    rcases h.log with ⟨events, hlog, hall⟩
    rcases h'.log with ⟨events', hlog', hall'⟩
    exact ⟨events ++ events', by rw [hlog', hlog, List.append_assoc], fun e he =>
      (List.mem_append.1 he).elim (hall e) (hall' e)⟩

theorem Quiet.refl (s : Sys) : Quiet s s := ⟨.refl s, fun _ => rfl⟩

theorem Quiet.trans (h : Quiet s s') (h' : Quiet s' s'') : Quiet s s'' :=
  ⟨h.toFrame.trans h'.toFrame, fun c => (h'.closed c).trans (h.closed c)⟩

/-- A state in which only the threads differ, by untracked tasks. -/
theorem Quiet.of_threads {threads : ℕ → LoopThread}
    (h : ∀ l task, task.tracked = true →
      (threads l).tasks.count task = (s.threads l).tasks.count task) :
    Quiet s { s with threads } := by
  refine ⟨⟨rfl, ?_, ?_, ?_, ?_, ?_, ?_, ?_, h, log_refl s⟩, ?_⟩ <;> intros <;> rfl

/-- A loop may change in what is not tracked. -/
theorem Quiet.setThread {l : ℕ} {t : LoopThread} (h : Quiet s s')
    (ht : ∀ task, task.tracked = true →
      t.tasks.count task = (s'.threads l).tasks.count task) :
    Quiet s (s'.setThread l t) := by
  refine h.trans (.of_threads fun l' task htask => ?_)
  by_cases hl : l' = l
  · subst hl
    simpa using ht task htask
  · simp [hl]

theorem Quiet.push {l : ℕ} {task : Task} (h : Quiet s s')
    (ht : task.tracked = false) : Quiet s (s'.push l task) := by
  refine h.setThread fun task' ht' => ?_
  have hne : task' ≠ task := by
    rintro rfl
    simp_all
  simp [Task.count_cons, hne]

theorem Quiet.queueInLoop {here l : ℕ} {task : Task} (h : Quiet s s')
    (ht : task.tracked = false) : Quiet s (s'.queueInLoop here l task) := by
  refine h.setThread fun task' ht' => ?_
  have hne : task' ≠ task := by
    rintro rfl
    simp_all
  simp [Task.count_cons, hne]

theorem Quiet.runInLoop {here l : ℕ} {task : Task} (h : Quiet s s')
    (ht : task.tracked = false) : Quiet s (s'.runInLoop here l task) := by
  unfold Sys.runInLoop
  split
  · exact h.push ht
  · exact h.queueInLoop ht

/-- An untracked task is taken. -/
theorem Quiet.take {l : ℕ} {t : LoopThread} {task : Task}
    (ht : (s.threads l).take = some (task, t)) (huntracked : task.tracked = false) :
    Quiet s (s.setThread l t) := by
  refine (Quiet.refl s).setThread fun task' ht' => ?_
  have hne : task' ≠ task := by
    rintro rfl
    simp_all
  simp [LoopThread.take_tasks ht, Task.count_cons, hne]

theorem Quiet.emit {e : Event} (h : Quiet s s') (he : e.tracked = false) :
    Quiet s (s'.emit e) := by
  refine h.trans ⟨⟨rfl, ?_, ?_, ?_, ?_, ?_, ?_, ?_, ?_, ?_⟩, ?_⟩
  case refine_9 => exact ⟨[e], rfl, by simp [he]⟩
  all_goals
    intros
    rfl

/-- The same server or client is destroyed on both sides. -/
theorem Quiet.disown (h : Quiet s s') (o : ℕ) :
    Quiet (s.setOwner o { s.owners o with alive := false, connections := fun _ => none })
      (s'.setOwner o { s'.owners o with alive := false, connections := fun _ => none }) := by
  refine ⟨⟨h.nextConn, fun o' => ?_, fun o' => ?_, fun o' => ?_, h.owner, h.fd, h.loop,
    h.destructed, h.pending, h.log⟩, h.closed⟩
  all_goals
    by_cases ho : o' = o
    · subst ho
      simp [h.kind, h.baseLoop]
    · simp [ho, h.kind, h.baseLoop, h.connections]

/-- An owner keeps its kind, base loop and table. -/
theorem Quiet.setOwner {o : ℕ} {owner : Owner} (h : Quiet s s')
    (hkind : owner.kind = (s'.owners o).kind) (hbase : owner.baseLoop = (s'.owners o).baseLoop)
    (htable : owner.connections = (s'.owners o).connections) : Quiet s (s'.setOwner o owner) := by
  refine h.trans ⟨⟨rfl, fun o' => ?_, fun o' => ?_, fun o' => ?_, ?_, ?_, ?_, ?_, ?_,
    log_refl s'⟩, ?_⟩
  case refine_1 | refine_2 | refine_3 =>
    by_cases ho : o' = o
    · subst ho
      simpa
    · simp [ho]
  all_goals
    intros
    rfl

/-- A server or client without connections is destroyed. -/
theorem Quiet.disown_empty {o : ℕ} (h : ∀ fd, (s.owners o).connections fd = none) :
    Quiet s (s.setOwner o { s.owners o with alive := false, connections := fun _ => none }) :=
  (Quiet.refl s).setOwner rfl rfl (funext fun fd => (h fd).symm)

/-- A connection keeps its owner, descriptor, loop and life. -/
theorem Frame.setConn {c : ConnId} {conn : Conn} (h : Frame s s')
    (howner : conn.owner = (s'.conns c).owner)
    (hfd : conn.tcp.channel.fd = (s'.tcp c).channel.fd)
    (hloop : conn.tcp.channel.loop = (s'.tcp c).channel.loop)
    (hdestructed : conn.destructed = (s'.conns c).destructed) : Frame s (s'.setConn c conn) := by
  refine h.trans ⟨rfl, fun _ => rfl, fun _ => rfl, fun _ => rfl, fun c' => ?_, fun c' => ?_,
    fun c' => ?_, fun c' => ?_, fun _ _ _ => rfl, log_refl s'⟩
  all_goals
    by_cases hc : c' = c
    · subst hc
      simpa [tcp]
    · simp [tcp, hc]

/-- A quiet change of a connection keeps what is kept. -/
theorem Quiet.setConn {c : ConnId} {conn : Conn} (h : Quiet s s')
    (hkept : conn.kept = (s'.conns c).kept) : Quiet s (s'.setConn c conn) := by
  simp only [Conn.kept, Prod.mk.injEq] at hkept
  rcases hkept with ⟨howner, hfd, hloop, hdestructed, hclosed⟩
  refine ⟨h.toFrame.setConn howner hfd hloop hdestructed, fun c' => ?_⟩
  rw [← h.closed c']
  by_cases hc : c' = c
  · subst hc
    simpa [tcp]
  · simp [tcp, hc]

theorem Frame.setTcp {c : ConnId} {k : TcpConnection} (h : Frame s s')
    (hfd : k.channel.fd = (s'.tcp c).channel.fd)
    (hloop : k.channel.loop = (s'.tcp c).channel.loop) : Frame s (s'.setTcp c k) :=
  h.setConn rfl hfd hloop rfl

theorem Quiet.setTcp {c : ConnId} {k : TcpConnection} (h : Quiet s s')
    (hkept : Conn.kept { s'.conns c with tcp := k } = (s'.conns c).kept) :
    Quiet s (s'.setTcp c k) :=
  h.setConn hkept

theorem Quiet.updateChannel {here : ℕ} {c : ConnId} (h : Quiet s s')
    (hok : s'.updateChannel here c = .ok s'') : Quiet s s'' := by
  rcases bind_ok.1 hok with ⟨-, -, hok⟩
  split at hok
  · cases hok
    exact Quiet.emit (h.setThread fun _ _ => rfl) rfl
  · cases hok
    exact h.emit rfl

/-! ## Steps -/

/-- What `Destroy` asserts, and what it does. -/
theorem destroy_ok {here : ℕ} {c : ConnId} {shutdown : Bool}
    (hok : s.destroy here c shutdown = .ok s') :
    s.Exists c ∧ (s.tcp c).state = .kDisconnected ∧ (s.tcp c).channel.loop = here ∧
      (s.threads here).channels (s.tcp c).channel.fd ≠ none ∧
      s' = (s.setThread here { s.threads here with
        channels := Function.update (s.threads here).channels (s.tcp c).channel.fd none }).emit
          (.destroyed c) := by
  rcases bind_ok.1 hok with ⟨_, hexists, hok⟩
  rcases bind_ok.1 hok with ⟨_, hstate, hok⟩
  rcases bind_ok.1 hok with ⟨_, -, hok⟩
  rcases bind_ok.1 hok with ⟨s₁, hremove, hok⟩
  rcases bind_ok.1 hremove with ⟨_, hloop, hremove⟩
  rcases bind_ok.1 hremove with ⟨_, hentry, hremove⟩
  cases hremove
  cases hok
  exact ⟨checkExists_ok.1 hexists, check_ok.1 hstate, check_ok.1 hloop, check_ok.1 hentry, rfl⟩

/-- What setting the events of a channel keeps, the poller keeps. -/
theorem fillActiveChannels_keeps {P : Sys → Prop} {l : ℕ} {ready : List Ready}
    {active : List (Handler Task)}
    (hset : ∀ s c revents, P s →
      P (s.setTcp c { s.tcp c with channel := { (s.tcp c).channel with revents } }))
    (h : P s) (hok : s.fillActiveChannels l ready = .ok (s', active)) : P s' := by
  induction ready generalizing s active with
  | nil =>
    cases hok
    exact h
  | cons report ready ih =>
    cases report with
    | wakeUp =>
      rcases bind_ok.1 hok with ⟨⟨s₁, active'⟩, hrest, hok⟩
      cases hok
      exact ih h hrest
    | accept o =>
      rcases bind_ok.1 hok with ⟨⟨s₁, active'⟩, hrest, hok⟩
      cases hok
      exact ih h hrest
    | events fd revents =>
      unfold fillActiveChannels at hok
      split at hok
      · cases hok
      · rcases bind_ok.1 hok with ⟨_, -, hok⟩
        rcases bind_ok.1 hok with ⟨⟨s₁, active'⟩, hrest, hok⟩
        cases hok
        exact ih (hset _ _ _ h) hrest

theorem fillActiveChannels_threads {l : ℕ} {ready : List Ready} {active : List (Handler Task)}
    (hok : s.fillActiveChannels l ready = .ok (s', active)) : s'.threads = s.threads :=
  fillActiveChannels_keeps (P := fun s₁ => s₁.threads = s.threads) (fun _ _ _ h => h) rfl hok

/-- A task that the poller brings: an accept, or the handler of a channel that is registered. -/
inductive Polled (s : Sys) (l : ℕ) : Task → Prop
  | accept (o : ℕ) : Polled s l (.newConnection o)
  | events {fd : ℕ} {c : ConnId} (hc : (s.threads l).channels fd = some c) :
    Polled s l (.handleEvents c)

/-- The poller brings no task of a close. -/
theorem Polled.tracked {l : ℕ} {task : Task} (h : Polled s l task) : task.tracked = false := by
  cases h with
  | accept => rfl
  | events => rfl

/-- Whatever the order of the reports, the poller brings accepts and handlers of channels that
are registered. -/
theorem fillActiveChannels_polled {l : ℕ} {ready : List Ready} {active : List (Handler Task)}
    (hok : s.fillActiveChannels l ready = .ok (s', active)) :
    ∀ task ∈ active.filterMap Handler.task, Polled s l task := by
  induction ready generalizing s active with
  | nil =>
    cases hok
    simp
  | cons report ready ih =>
    cases report with
    | wakeUp =>
      rcases bind_ok.1 hok with ⟨⟨s₁, active'⟩, hrest, hok⟩
      cases hok
      have hactive := ih hrest
      -- the handler of the wake-up channel is no task
      split
      · exact hactive
      · exact hactive
    | accept o =>
      rcases bind_ok.1 hok with ⟨⟨s₁, active'⟩, hrest, hok⟩
      cases hok
      split
      · exact List.forall_mem_cons.2 ⟨.accept o, ih hrest⟩
      · exact ih hrest
    | events fd revents =>
      unfold fillActiveChannels at hok
      split at hok
      · cases hok
      · rename_i c hc
        rcases bind_ok.1 hok with ⟨_, -, hok⟩
        rcases bind_ok.1 hok with ⟨⟨s₁, active'⟩, hrest, hok⟩
        cases hok
        have hactive : ∀ task ∈ active'.filterMap Handler.task, Polled s l task :=
          fun task htask => by
            cases ih hrest task htask with
            | accept o => exact .accept o
            | events hc' => exact .events hc'
        exact List.forall_mem_cons.2 ⟨.events hc, hactive⟩

/-- All that a step can do; `idle` is one that is not enabled. -/
inductive Steps (files : Files) (s : Sys) : Label → Sys → Prop
  | idle (label : Label) (hidle : ∀ l input, label = .exec l input → (s.threads l).take = none) :
    Steps files s label s
  | run (l : ℕ) (hstack : (s.threads l).stack = []) (hphase : (s.threads l).loop.phase = .idle) :
    Steps files s (.run l) (s.setThread l { s.threads l with loop := (s.threads l).loop.run })
  | wakeUp (l : ℕ) (rest : List (Handler Task)) (hstack : (s.threads l).stack = [])
      (hphase : (s.threads l).loop.phase = .handling (.wakeUp :: rest)) :
    Steps files s (.next l) (s.setThread l { s.threads l with
      loop := { (s.threads l).loop.processWakeUp with phase := .handling rest } })
  | next (l : ℕ) (hstack : (s.threads l).stack = []) :
    Steps files s (.next l) (s.setThread l { s.threads l with loop := (s.threads l).loop.next })
  | poll (l : ℕ) (ready : List Ready) (s₁ : Sys) (active : List (Handler Task))
      (hphase : (s.threads l).loop.phase = .polling)
      (hfill : s.fillActiveChannels l ready = .ok (s₁, active)) :
    Steps files s (.poll l ready) (s₁.setThread l { s₁.threads l with
      loop := (s₁.threads l).loop.poll active })
  | callUser (l : ℕ) (hstack : (s.threads l).stack = [])
      (hphase : (s.threads l).loop.phase = .idle ∨ (s.threads l).loop.phase = .period ∨
        (s.threads l).loop.phase = .timers) :
    Steps files s (.callUser l) (s.push l (.user none))
  | exec (l : ℕ) (input : Input) (task : Task) (t : LoopThread) (s' : Sys)
      (ht : (s.threads l).take = some (task, t))
      (hexec : (s.setThread l t).exec files l task input = .ok s') :
    Steps files s (.exec l input) s'
  | destruct (c : ConnId) (hexists : s.Exists c) (hunreferenced : ¬ s.Referenced c)
      (hhandling : (s.conns c).handlingEvents = false) :
    Steps files s (.destruct c) (s.setConn c { s.conns c with destructed := true })

/-- What one step of the system can do. -/
theorem step_steps {files : Files} {label : Label} (hok : s.step files label = .ok s') :
    Steps files s label s' := by
  have hidle : (∀ l input, label ≠ .exec l input) → Steps files s label s := fun hlabel =>
    .idle label fun l input heq => absurd heq (hlabel l input)
  cases label with
  | run l =>
    simp only [step] at hok
    split at hok
    · rename_i hstack hphase
      cases hok
      exact .run l hstack hphase
    · cases hok
      exact hidle (by simp)
  | next l =>
    simp only [step] at hok
    split at hok
    · rename_i rest hstack hphase
      cases hok
      -- the handler of the wake-up reads the event fd, and is no task
      exact .wakeUp l rest hstack hphase
    · rename_i hstack _
      cases hok
      exact .next l hstack
    · cases hok
      exact hidle (by simp)
  | poll l ready =>
    simp only [step] at hok
    split at hok
    · rename_i hphase
      split at hok
      · rcases bind_ok.1 hok with ⟨⟨s₁, active⟩, hfill, hok⟩
        cases hok
        exact .poll l ready s₁ active hphase hfill
      · cases hok
        exact hidle (by simp)
    · cases hok
      exact hidle (by simp)
  | callUser l =>
    simp only [step] at hok
    split at hok
    · rename_i hstack hphase
      cases hok
      exact .callUser l hstack (.inl hphase)
    · rename_i hstack hphase
      cases hok
      exact .callUser l hstack (.inr (.inl hphase))
    · rename_i hstack hphase
      cases hok
      exact .callUser l hstack (.inr (.inr hphase))
    · cases hok
      exact hidle (by simp)
  | exec l input =>
    simp only [step] at hok
    split at hok
    · rename_i ht
      cases hok
      -- nothing is there to execute
      refine .idle _ fun l' input' heq => ?_
      cases heq
      exact ht
    · rename_i task t ht
      exact .exec l input task t s' ht hok
  | destruct c =>
    simp only [step] at hok
    split at hok
    · rename_i hc
      rcases bind_ok.1 hok with ⟨_, hhandling, hok⟩
      cases hok
      exact .destruct c hc.1 hc.2 (check_ok.1 hhandling)
    · cases hok
      exact hidle (by simp)

end Sys

end FxServer
