import FxServer.Machine
import FxServer.System.Effect

/-!
# FxServer.System.Lifecycle — the stages of a connection

Behind the tables, queues and histories of all threads, every connection is in one
stage of its life, and goes from each to the next only once:

  unborn → live → closing → handled → leaving → destroyed

A stage is what the history says of a connection, and it says where the connection
is to be found: in the table or not, and in which queue the task waits that takes it
to the next stage. As each stage waits for one task, and each task belongs to one
connection, no step can take a connection twice.

* `Stage`, `Lifecycle` — where a connection of each stage is to be found.
* `Lifecycle.advance` — a connection goes to another stage; `exec_lifecycle` — so does
  whatever a task does.
* `table_consistent` — the table of a server holds the connections that are live or
  closing, under any interleaving.
-/

namespace FxServer

/-- How far a connection has come. -/
inductive Stage where
  | unborn
  | live
  /-- closed, with `HandleConnectionClose` to come -/
  | closing
  /-- taken from `connections_`, with `Destroy` to be queued -/
  | handled
  /-- with `Destroy` to come -/
  | leaving
  | destroyed
deriving DecidableEq, Repr

/-- The event is one of the life of `c` that leads from one stage to another. -/
def Event.marks (c : ConnId) : Event → Bool
  | .opened c' | .closeCallback c' | .handled c' | .destroyed c' => c' = c
  | .readCallback _ | .writeDoneCallback _ | .channelUpdated .. => false

/-- The events that mark a stage are tracked. -/
theorem Event.tracked_of_marks {c : ConnId} {e : Event} (h : e.marks c = true) :
    e.tracked = true := by
  cases e <;> first | rfl | cases h

namespace Stage

/-- Whether a connection of this stage is in the table of its owner. -/
def inTable : Stage → Bool
  | .live | .closing => true
  | _ => false

/-- The history of a connection of this stage. -/
def history (c : ConnId) : Stage → List Event
  | .unborn => []
  | .live => [.opened c]
  | .closing => [.opened c, .closeCallback c]
  | .handled | .leaving => [.opened c, .closeCallback c, .handled c]
  | .destroyed => [.opened c, .closeCallback c, .handled c, .destroyed c]

/-- The task that will take the connection to the next stage, and where it waits. -/
def waits (s : Sys) (c : ConnId) : Stage → Option (ℕ × Task)
  | .closing => some ((s.owners (s.conns c).owner).baseLoop,
      .handleConnectionClose (s.conns c).owner (s.tcp c).channel.fd)
  | .handled => some ((s.owners (s.conns c).owner).baseLoop, .queueDestroy c)
  | .leaving => some ((s.tcp c).channel.loop, .destroy c)
  | _ => none

/-- A task waits for one connection only; those of a table wait by descriptor. -/
theorem waits_inj {s : Sys} {c c' : ConnId} {x x' : Stage} {l : ℕ} {task : Task}
    (h : x.waits s c = some (l, task)) (h' : x'.waits s c' = some (l, task)) :
    c = c' ∨ x = .closing ∧ x' = .closing ∧ (s.conns c).owner = (s.conns c').owner ∧
      (s.tcp c).channel.fd = (s.tcp c').channel.fd := by
  cases x <;> cases x' <;> simp [waits] at h h' <;> grind

/-- Who waits for `HandleConnectionClose` is closing. -/
theorem waits_handleConnectionClose {s : Sys} {c : ConnId} {x : Stage} {l o fd : ℕ}
    (h : x.waits s c = some (l, .handleConnectionClose o fd)) :
    x = .closing ∧ o = (s.conns c).owner ∧ fd = (s.tcp c).channel.fd ∧
      l = (s.owners (s.conns c).owner).baseLoop := by
  cases x <;> simp [waits] at h
  rcases h with ⟨rfl, rfl, rfl⟩
  exact ⟨rfl, rfl, rfl, rfl⟩

/-- Who waits for `QueueDestroy` was handled. -/
theorem waits_queueDestroy {s : Sys} {c c' : ConnId} {x : Stage} {l : ℕ}
    (h : x.waits s c = some (l, .queueDestroy c')) :
    x = .handled ∧ c = c' ∧ l = (s.owners (s.conns c).owner).baseLoop := by
  cases x <;> simp [waits] at h
  exact ⟨rfl, h.2, h.1.symm⟩

/-- Who waits for `Destroy` is leaving. -/
theorem waits_destroy {s : Sys} {c c' : ConnId} {x : Stage} {l : ℕ}
    (h : x.waits s c = some (l, .destroy c')) :
    x = .leaving ∧ c = c' ∧ l = (s.tcp c).channel.loop := by
  cases x <;> simp [waits] at h
  exact ⟨rfl, h.2, h.1.symm⟩

end Stage

namespace Sys

open Machine

/-- Every connection is where its stage says. -/
structure Books (s : Sys) (stage : ConnId → Stage) : Prop where
  /-- the connections without a stage are those that have not been made -/
  born : ∀ c, stage c = .unborn ↔ s.nextConn ≤ c
  /-- in the table are the connections that are live or closing, each under its owner and
  descriptor -/
  table : ∀ o fd c, (s.owners o).connections fd = some c ↔
    (s.conns c).owner = o ∧ (s.tcp c).channel.fd = fd ∧ (stage c).inTable = true
  /-- the tasks that matter are those that the stages wait for, each of them once -/
  waiting : ∀ l task, task.tracked = true →
    s.pending l task ≤ 1 ∧ (0 < s.pending l task ↔ ∃ c, (stage c).waits s c = some (l, task))
  /-- the history of a connection is that of its stage -/
  history : ∀ c, s.log.filter (Event.marks c) = (stage c).history c
  /-- only destroyed connections are freed -/
  destructed : ∀ c < s.nextConn, (s.conns c).destructed = true → stage c = .destroyed

/-- The books are in order, and the live connections are those that are open. -/
structure Lifecycle (s : Sys) (stage : ConnId → Stage) : Prop extends Books s stage where
  /-- a connection is open exactly while it is live -/
  closed : ∀ c < s.nextConn, (s.tcp c).closed = false ↔ stage c = .live

variable {s s' : Sys} {stage : ConnId → Stage}

theorem init_lifecycle (owners : ℕ → Owner) : Lifecycle (init owners) fun _ => .unborn := by
  refine ⟨⟨?_, ?_, ?_, ?_, ?_⟩, ?_⟩
  · simp [init]
  · simp [init, Stage.inTable]
  · simp [init, pending, LoopThread.tasks, LoopThread.new, LoopThread.batch, EventLoop.new,
      Stage.waits]
  · simp [init, Stage.history]
  · simp [init]
  · simp [init]

/-! ## Frames -/

theorem Frame.waits (h : Frame s s') (c : ConnId) (x : Stage) : x.waits s' c = x.waits s c := by
  cases x <;> simp [Stage.waits, h.owner, h.fd, h.loop, h.baseLoop]

/-- A frame logs nothing that marks a stage. -/
theorem Frame.marks (h : Frame s s') (c : ConnId) :
    s'.log.filter (Event.marks c) = s.log.filter (Event.marks c) := by
  rcases h.log with ⟨events, hlog, hall⟩
  have hnone : events.filter (Event.marks c) = [] := List.filter_eq_nil_iff.2 fun e he hm => by
    have := hall e he
    rw [Event.tracked_of_marks hm] at this
    cases this
  rw [hlog, List.filter_append, hnone, List.append_nil]

/-- Within a frame the books stay in order. -/
theorem Books.of_frame (h : Books s stage) (hframe : Frame s s') : Books s' stage where
  born c := by rw [h.born, hframe.nextConn]
  table o fd c := by rw [hframe.connections, h.table, hframe.owner, hframe.fd]
  waiting l task htask := by
    rw [hframe.pending l task htask]
    simpa only [hframe.waits] using h.waiting l task htask
  history c := by rw [hframe.marks, h.history]
  destructed c hc := by
    rw [hframe.nextConn] at hc
    rw [hframe.destructed]
    exact h.destructed c hc

theorem Lifecycle.of_quiet (h : Lifecycle s stage) (hquiet : Quiet s s') : Lifecycle s' stage where
  toBooks := h.toBooks.of_frame hquiet.toFrame
  closed c hc := by
    rw [hquiet.nextConn] at hc
    rw [hquiet.closed, h.closed c hc]

/-! ## From stage to stage -/

variable {c : ConnId}

/-- What the history says of a connection, its stage says. -/
theorem Books.mem_log (h : Books s stage) (c : ConnId) (e : Event) (he : e.marks c = true) :
    e ∈ s.log ↔ e ∈ (stage c).history c := by
  rw [← h.history, List.mem_filter, and_iff_left he]

/-- A connection is destroyed exactly at its last stage. -/
theorem Books.destroyed_iff (h : Books s stage) (c : ConnId) :
    .destroyed c ∈ s.log ↔ stage c = .destroyed := by
  rw [h.mem_log c _ (by simp [Event.marks])]
  cases stage c <;> simp [Stage.history]

/-- Only connections that were opened have a stage. -/
theorem Books.lt_nextConn (h : Books s stage) (hne : stage c ≠ .unborn) : c < s.nextConn := by
  rwa [← not_le, ← h.born]

/-- The other connections wait for other tasks. -/
theorem Books.waits_ne (h : Books s stage) {x : Stage} {c' : ConnId} {l : ℕ} {task : Task}
    (hx : x.inTable = true → (stage c).inTable = true) (hc : x.waits s c = some (l, task))
    (hne : c' ≠ c) : (stage c').waits s c' ≠ some (l, task) := by
  intro hc'
  rcases Stage.waits_inj hc hc' with heq | ⟨rfl, hclosing, howner, hfd⟩
  · exact hne heq.symm
  · have htable := (h.table _ _ c).2 ⟨rfl, rfl, hx rfl⟩
    have htable' := (h.table _ _ c').2 ⟨rfl, rfl, by rw [hclosing]; rfl⟩
    rw [howner, hfd, htable'] at htable
    exact hne (Option.some.inj htable)

/-- The connection `c` goes to the stage `x`: the task that brought it there is gone, the
task of the new stage waits, and the history has grown by the new events. -/
theorem Books.advance {x : Stage} (h : Books s stage) (hborn : stage c ≠ .unborn)
    (hlive : stage c ≠ .destroyed) (hx : x ≠ .unborn)
    (hin : x.inTable = true → (stage c).inTable = true)
    (hnext : s'.nextConn = s.nextConn) (hconns : s'.conns = s.conns)
    (hbase : ∀ o, (s'.owners o).baseLoop = (s.owners o).baseLoop)
    (htable : ∀ o fd, (s'.owners o).connections fd =
      if (stage c).inTable = true ∧ x.inTable = false ∧ o = (s.conns c).owner ∧
        fd = (s.tcp c).channel.fd then none else (s.owners o).connections fd)
    (hpending : ∀ l task, task.tracked = true →
      s'.pending l task + (if (stage c).waits s c = some (l, task) then 1 else 0) =
        s.pending l task + if x.waits s c = some (l, task) then 1 else 0)
    (hhistory : ∀ c', s'.log.filter (Event.marks c') =
      if c' = c then x.history c else s.log.filter (Event.marks c')) :
    Books s' (Function.update stage c x) := by
  have htcp : s'.tcp = s.tcp := by
    funext c'
    simp [tcp, hconns]
  have hwaits : ∀ c' (x' : Stage), x'.waits s' c' = x'.waits s c' := fun c' x' => by
    cases x' <;> simp [Stage.waits, hconns, htcp, hbase]
  refine ⟨fun c' => ?_, fun o fd c' => ?_, fun l task htask => ?_, fun c' => ?_,
    fun c' hc' hdead => ?_⟩
  · rw [hnext, ← h.born]
    by_cases hc : c' = c
    · subst hc
      simp [hx, hborn]
    · simp [hc]
  · rw [htable, hconns, htcp]
    by_cases heq : c' = c
    · subst heq
      rw [Function.update_self]
      split
      · rename_i hgone
        simp [hgone.2.1]
      · rename_i hkept
        rw [h.table]
        refine and_congr_right fun howner => and_congr_right fun hfd => ⟨fun hlisted => ?_, hin⟩
        by_contra hout
        exact hkept ⟨hlisted, by simpa using hout, howner.symm, hfd.symm⟩
    · rw [Function.update_of_ne heq]
      split
      · -- the entry that is erased was that of `c`
        rename_i hgone
        rcases hgone with ⟨hlisted, -, rfl, rfl⟩
        refine ⟨fun hnone => (by cases hnone), fun hc' => ?_⟩
        have hentry := (h.table _ _ c).2 ⟨rfl, rfl, hlisted⟩
        rw [(h.table _ _ c').2 hc'] at hentry
        exact absurd (Option.some.inj hentry) heq
      · exact h.table o fd c'
  · simp only [hwaits]
    rcases h.waiting l task htask with ⟨hle, hiff⟩
    have hp := hpending l task htask
    have hsplit : ∀ P : ConnId → Prop, (∃ c', P c') ↔ P c ∨ ∃ c' ≠ c, P c' := fun P => by
      constructor
      · rintro ⟨c', hc'⟩
        by_cases heq : c' = c
        · exact .inl (heq ▸ hc')
        · exact .inr ⟨c', heq, hc'⟩
      · rintro (hc | ⟨c', -, hc'⟩)
        · exact ⟨c, hc⟩
        · exact ⟨c', hc'⟩
    have hothers : (∃ c' ≠ c, (Function.update stage c x c').waits s c' = some (l, task)) ↔
        ∃ c' ≠ c, (stage c').waits s c' = some (l, task) :=
      exists_congr fun c' => and_congr_right fun heq => by rw [Function.update_of_ne heq]
    -- nothing else waits for the old task or the new one
    have hold : (stage c).waits s c = some (l, task) →
        ¬ ∃ c' ≠ c, (stage c').waits s c' = some (l, task) := by
      rintro hc ⟨c', heq, hc'⟩
      exact h.waits_ne id hc heq hc'
    have hnew : x.waits s c = some (l, task) →
        ¬ ∃ c' ≠ c, (stage c').waits s c' = some (l, task) := by
      rintro hc ⟨c', heq, hc'⟩
      exact h.waits_ne hin hc heq hc'
    rw [hsplit] at hiff ⊢
    rw [hothers, Function.update_self]
    by_cases hc : (stage c).waits s c = some (l, task) <;>
      by_cases hc' : x.waits s c = some (l, task) <;>
      simp only [hc, hc', if_true, if_false, true_or, false_or, iff_true] at hp hiff ⊢
    · omega
    · have := hold hc
      simp only [this, iff_false]
      omega
    · have := hnew hc'
      simp only [this, iff_false] at hiff
      omega
    · rw [← hiff]
      omega
  · rw [hhistory]
    by_cases hc : c' = c
    · subst hc
      simp
    · simp [hc, h.history]
  · rw [hnext] at hc'
    rw [hconns] at hdead
    have hdestroyed := h.destructed c' hc' hdead
    rw [Function.update_of_ne, hdestroyed]
    rintro rfl
    exact hlive hdestroyed

/-- Before its last stage a connection still exists. -/
theorem Books.not_destructed (h : Books s stage) (hborn : c < s.nextConn)
    (hlive : stage c ≠ .destroyed) : (s.conns c).destructed = false := by
  by_contra hdead
  exact hlive (h.destructed c hborn (by simpa using hdead))

/-- The close callback of a connection that was live. -/
theorem Books.closeCallback {here : ℕ} (h : Books s stage) (hc : stage c = .live)
    (hok : s.closeCallback here c = .ok s') :
    ∃ x, x ≠ .unborn ∧ x ≠ .live ∧ s'.conns = s.conns ∧ s'.nextConn = s.nextConn ∧
      Books s' (Function.update stage c x) := by
  rcases bind_ok.1 hok with ⟨_, -, hok⟩
  have htable := (h.table _ _ c).2 ⟨rfl, rfl, by rw [hc]; rfl⟩
  have hhistory := h.history c
  rw [hc] at hhistory
  simp only at hok
  split at hok
  · -- a server takes it from the table in its own loop
    cases hok
    refine ⟨.closing, by decide, by decide, by simp, by simp, h.advance (by simp [hc])
      (by simp [hc]) (by decide) (by simp [hc, Stage.inTable]) (by simp) (by simp) (by simp)
      (by simp [Stage.inTable]) (fun l task _ => ?_) fun c' => ?_⟩
    · simp [pending_runInLoop, hc, Stage.waits, and_comm, eq_comm]
    · by_cases heq : c' = c
      · subst heq
        simp [Event.marks, Stage.history, hhistory]
      · simp [Event.marks, heq, Ne.symm heq]
  · -- a client does so at once
    split at hok
    · cases hok
    · rename_i c₁ hc₁
      have heq : c₁ = c := Option.some.inj (hc₁.symm.trans htable)
      subst heq
      cases hok
      refine ⟨.leaving, by decide, by decide, by simp, by simp, h.advance (by simp [hc])
        (by simp [hc]) (by decide) (by simp [Stage.inTable]) (by simp) (by simp) (by simp)
        (by simp [eraseConnection_connections, hc, Stage.inTable]) (fun l task _ => ?_)
        fun c' => ?_⟩
      · simp [pending_queueInLoop, hc, Stage.waits, eq_comm]
      · by_cases heq : c' = c₁
        · subst heq
          simp [Event.marks, Stage.history, hhistory]
        · simp [Event.marks, heq, Ne.symm heq]

/-- A closing takes a live connection to its next stage. -/
theorem Lifecycle.closes {here : ℕ} (h : Lifecycle s stage) (hc : Closes s here c s') :
    ∃ stage', Lifecycle s' stage' := by
  rcases hc with ⟨s₁, s₂, hexists, hopen, hframe, hclosed, hclose, hquiet⟩
  have hlive := (h.closed c hexists.1).1 hopen
  rcases (h.toBooks.of_frame hframe).closeCallback hlive hclose with
    ⟨x, hborn, hx, hconns, hnext, hbooks⟩
  refine ⟨_, Lifecycle.of_quiet ⟨hbooks, fun c' hc' => ?_⟩ hquiet⟩
  rw [hnext, hframe.nextConn] at hc'
  rw [show s₂.tcp c' = s₁.tcp c' by simp [tcp, hconns], hclosed]
  by_cases heq : c' = c
  · subst heq
    simp [hx]
  · simp [heq, h.closed c' hc']

/-- A new connection is live. -/
theorem Lifecycle.addConn {o loop fd : ℕ} {state : TcpConnectionState} (h : Lifecycle s stage)
    (hstate : state ≠ .kDisconnected) (hok : s.addConn o loop fd state = .ok s') :
    Lifecycle s' (Function.update stage s.nextConn .live) := by
  have hadd := addConn_ok hok
  have hunborn := (h.born s.nextConn).2 (le_refl _)
  have hpending : s'.pending = s.pending := by
    funext l task
    rw [pending, pending, hadd.threads]
  refine ⟨⟨fun c => ?_, fun o' fd' c => ?_, fun l task htask => ?_, fun c => ?_, fun c hc => ?_⟩,
    fun c hc => ?_⟩
  · -- the new connection is the first that was not born
    rw [hadd.nextConn]
    by_cases heq : c = s.nextConn
    · subst heq
      simp
    · rw [Function.update_of_ne heq, h.born, Nat.succ_le_iff, Nat.lt_iff_le_and_ne]
      exact (and_iff_left (Ne.symm heq)).symm
  · -- its descriptor was not in the table
    rw [hadd.connections, hadd.conns, hadd.tcp]
    have hold := h.table o' fd' c
    by_cases heq : c = s.nextConn
    · subst heq
      have hnot : (s.owners o').connections fd' ≠ some s.nextConn := fun hsome => by
        have hin := (hold.1 hsome).2.2
        rw [hunborn] at hin
        cases hin
      simp only [Function.update_self, if_true, Conn.new, TcpConnection.new, Stage.inTable,
        and_true]
      grind
    · simp only [Function.update_of_ne heq, heq, if_false]
      have hfree := hadd.free
      grind
  · -- it waits for no task, and no task is about it
    rw [hpending]
    rcases h.waiting l task htask with ⟨hle, hiff⟩
    refine ⟨hle, hiff.trans (exists_congr fun c => ?_)⟩
    by_cases heq : c = s.nextConn
    · subst heq
      simp [hunborn, Stage.waits]
    · rw [Function.update_of_ne heq]
      cases stage c <;> simp [Stage.waits, hadd.conns, hadd.tcp, hadd.baseLoop, heq]
  · -- its history begins
    rw [hadd.log, List.filter_append]
    by_cases heq : c = s.nextConn
    · subst heq
      simp [h.history, hunborn, Stage.history, Event.marks]
    · simp [h.history, Event.marks, heq, Ne.symm heq]
  · rw [hadd.conns]
    rw [hadd.nextConn, Nat.lt_succ_iff, le_iff_lt_or_eq] at hc
    rcases hc with hc | rfl
    · simpa [hc.ne] using h.destructed c hc
    · simp [Conn.new]
  · rw [hadd.tcp]
    rw [hadd.nextConn, Nat.lt_succ_iff, le_iff_lt_or_eq] at hc
    rcases hc with hc | rfl
    · simpa [hc.ne] using h.closed c hc
    · simpa [TcpConnection.closed, TcpConnection.new] using hstate

/-! ## Steps -/

variable {l : ℕ} {task : Task} {t : LoopThread} {files : Files} {input : Input}

/-- A tracked task that is next is what some connection waits for. -/
theorem Books.next (h : Books s stage) (ht : (s.threads l).take = some (task, t))
    (htask : task.tracked = true) : ∃ c, (stage c).waits s c = some (l, task) := by
  refine (h.waiting l task htask).2.1 ?_
  have hpending := pending_take ht l task
  simp only [true_and, if_true] at hpending
  omega

/-- The books decide, where the connection that moves on is not live. -/
theorem Lifecycle.of_books {x : Stage} (h : Lifecycle s stage) (hx : x ≠ .live)
    (hc : stage c ≠ .live) (hbooks : Books s' (Function.update stage c x))
    (hnext : s'.nextConn = s.nextConn) (htcp : s'.tcp = s.tcp) :
    Lifecycle s' (Function.update stage c x) where
  toBooks := hbooks
  closed c' hc' := by
    rw [hnext] at hc'
    rw [htcp, h.closed c' hc']
    by_cases heq : c' = c
    · subst heq
      simp [hx, hc]
    · simp [heq]

theorem Lifecycle.emit {e : Event} (h : Lifecycle s stage) (he : ∀ c, e.marks c = false) :
    Lifecycle (s.emit e) stage :=
  ⟨⟨h.born, h.table, h.waiting, fun c => by simp [h.history, he], h.destructed⟩, h.closed⟩

/-- A task that runs takes at most one connection to another stage. -/
theorem exec_lifecycle (h : Lifecycle s stage) (ht : (s.threads l).take = some (task, t))
    (hdestroy : ∀ c shutdown, input ≠ .user (.destroy c shutdown))
    (hdisown : ∀ o, input = .user (.destroyOwner o) → ∀ fd, (s.owners o).connections fd = none)
    (hok : (s.setThread l t).exec files l task input = .ok s') :
    ∃ stage', Lifecycle s' stage' := by
  cases exec_effect hok with
  | quiet htask hquiet => exact ⟨stage, (h.of_quiet (.take ht htask)).of_quiet hquiet⟩
  | reads _ _ h₁ hquiet =>
    exact ⟨stage, (((h.of_quiet (.take ht rfl)).of_quiet h₁).emit fun _ => rfl).of_quiet hquiet⟩
  | opens htask _ hstate h₁ hadd hquiet =>
    exact ⟨_, (((h.of_quiet (.take ht htask)).of_quiet h₁).addConn hstate hadd).of_quiet hquiet⟩
  | closes htask hcloses => exact (h.of_quiet (.take ht htask)).closes hcloses
  | handles hc hquiet =>
    rcases h.next ht rfl with ⟨c₁, hwaits⟩
    rcases Stage.waits_handleConnectionClose hwaits with ⟨hstage, rfl, rfl, rfl⟩
    -- the entry that the task takes out is the one of the connection that waits for it
    have htable := (h.table _ _ c₁).2 ⟨rfl, rfl, by rw [hstage]; rfl⟩
    obtain rfl := Option.some.inj (htable.symm.trans hc)
    refine ⟨_, (h.of_books (c := c₁) (x := .handled) (by decide) (by simp [hstage])
      (h.advance (by simp [hstage]) (by simp [hstage]) (by decide) (by simp [Stage.inTable])
        (by simp) (by simp) (by simp)
      (by simp [eraseConnection_connections, hstage, Stage.inTable]) (fun l' task' _ => ?_)
      fun c' => ?_) (by simp) (by simp)).of_quiet hquiet⟩
    · -- the callback and `queueDestroy` are next
      rw [pending_take ht, pending_push, pending_emit, eraseConnection_pending]
      simp only [hstage, Stage.waits]
      grind
    · by_cases heq : c' = c₁
      · subst heq
        simp [Event.marks, h.history, hstage, Stage.history]
      · simp [Event.marks, heq, Ne.symm heq]
  | queues =>
    rcases h.next ht rfl with ⟨c₁, hwaits⟩
    rcases Stage.waits_queueDestroy hwaits with ⟨hstage, rfl, rfl⟩
    refine ⟨_, h.of_books (c := c₁) (x := .leaving) (by decide) (by simp [hstage])
      (h.advance (by simp [hstage]) (by simp [hstage]) (by decide) (by simp [Stage.inTable])
        (by simp) (by simp) (by simp) (by simp [hstage, Stage.inTable]) (fun l' task' _ => ?_)
        fun c' => ?_) (by simp) (by simp)⟩
    · -- `Destroy` is next
      rw [pending_take ht, pending_queueInLoop]
      simp only [hstage, Stage.waits, setThread_tcp]
      grind
    · by_cases heq : c' = c₁
      · subst heq
        simp [h.history, hstage, Stage.history]
      · simp [heq]
  | destroys hquiet =>
    rcases h.next ht rfl with ⟨c₁, hwaits⟩
    rcases Stage.waits_destroy hwaits with ⟨hstage, rfl, rfl⟩
    refine ⟨_, (h.of_books (c := c₁) (x := .destroyed) (by decide) (by simp [hstage])
      (h.advance (by simp [hstage]) (by simp [hstage]) (by decide) (by simp [Stage.inTable])
        (by simp) (by simp) (by simp) (by simp [hstage, Stage.inTable]) (fun l' task' _ => ?_)
        fun c' => ?_) (by simp) (by simp)).of_quiet hquiet⟩
    · -- nothing is left to wait for
      rw [pending_take ht, pending_emit]
      simp only [hstage, Stage.waits]
      grind
    · by_cases heq : c' = c₁
      · subst heq
        simp [Event.marks, h.history, hstage, Stage.history]
      · simp [Event.marks, heq, Ne.symm heq]
  | userDestroys => exact absurd rfl (hdestroy _ _)
  | disowns hquiet =>
    have hempty : ∀ fd, ((s.setThread l t).owners _).connections fd = none := hdisown _ rfl
    exact ⟨stage, ((h.of_quiet (.take ht rfl)).of_quiet (.disown_empty hempty)).of_quiet hquiet⟩

/-- A connection without pointers to it has been destroyed: until then there is one in
the table, or in the task that it waits for. -/
theorem Books.unreferenced (h : Books s stage) (hborn : c < s.nextConn) (hc : ¬ s.Referenced c) :
    stage c = .destroyed := by
  have hany : ∀ l task, 0 < s.pending l task → task.holds c = true →
      (s.threads l).tasks.any (Task.holds c) = true := fun l task hpos hholds =>
    List.any_eq_true.2 ⟨task, List.count_pos_iff.1 hpos, hholds⟩
  simp only [Referenced, not_or] at hc
  cases hx : stage c with
  | unborn => exact absurd ((h.born c).1 hx) (not_le.2 hborn)
  | live | closing => exact absurd ((h.table _ _ c).2 ⟨rfl, rfl, by rw [hx]; rfl⟩) hc.1
  | handled =>
    refine absurd (hany _ (.queueDestroy c) ((h.waiting _ _ rfl).2.2 ⟨c, ?_⟩) ?_) hc.2.2.2
    · rw [hx]
      rfl
    · simp [Task.holds]
  | leaving =>
    -- a queued `Destroy` holds the connection too
    refine absurd (hany _ (.destroy c) ((h.waiting _ _ rfl).2.2 ⟨c, ?_⟩) ?_) hc.2.2.1
    · rw [hx]
      rfl
    · simp [Task.holds]
  | destroyed => rfl

/-- Freeing a destroyed connection changes no stage. -/
theorem Lifecycle.destruct (h : Lifecycle s stage) (hc : stage c = .destroyed)
    (hs' : s' = s.setConn c { s.conns c with destructed := true }) : Lifecycle s' stage := by
  have howners : s'.owners = s.owners := by rw [hs', setConn_owners]
  have hnext : s'.nextConn = s.nextConn := by rw [hs', setConn_nextConn]
  have howner : ∀ c', (s'.conns c').owner = (s.conns c').owner := fun c' => by
    by_cases heq : c' = c
    · subst heq
      simp [hs']
    · simp [hs', heq]
  -- freeing a connection leaves the data that the model keeps of it
  have htcp : s'.tcp = s.tcp := by
    funext c'
    unfold tcp
    by_cases heq : c' = c
    · subst heq
      simp [hs']
    · simp [hs', heq]
  have hwaits : ∀ c' (x : Stage), x.waits s' c' = x.waits s c' := fun c' x => by
    cases x <;> simp [Stage.waits, howners, howner, htcp]
  refine ⟨⟨fun c' => ?_, fun o fd c' => ?_, fun l task htask => ?_, fun c' => ?_,
    fun c' hborn hdead => ?_⟩, fun c' hborn => ?_⟩
  · rw [hnext, h.born]
  · rw [howners, howner, htcp, h.table]
  · rw [hs', pending_setConn, ← hs']
    simpa only [hwaits] using h.waiting l task htask
  · rw [hs', setConn_log, h.history]
  · rw [hnext] at hborn
    by_cases heq : c' = c
    · rw [heq, hc]
    · exact h.destructed c' hborn (by simpa [hs', heq] using hdead)
  · rw [hnext] at hborn
    rw [htcp, h.closed c' hborn]

/-- Every step keeps every connection in its stage, or takes one to the next, as long as
`Destroy` is left to the server and owners die without connections. -/
theorem step_lifecycle {label : Label} (h : Lifecycle s stage)
    (hdestroy : ∀ l c shutdown, label ≠ .exec l (.user (.destroy c shutdown)))
    (hdisown : ∀ l o, label = .exec l (.user (.destroyOwner o)) →
      ∀ fd, (s.owners o).connections fd = none)
    (hok : s.step files label = .ok s') : ∃ stage', Lifecycle s' stage' := by
  rcases step_cases hok with ⟨hquiet, -⟩ | ⟨l, input, task, t, rfl, ht, hexec⟩ |
    ⟨c, rfl, hexists, hunreferenced, hs'⟩
  · exact ⟨stage, h.of_quiet hquiet⟩
  · exact exec_lifecycle h ht (fun c shutdown hi => hdestroy l c shutdown (by rw [hi]))
      (fun o hi => hdisown l o (by rw [hi])) hexec
  · exact ⟨stage, h.destruct (h.unreferenced hexists.1 hunreferenced) hs'⟩

/-! ## Runs -/

theorem apply_ok {label : Label} {u : Unit} :
    s.apply files label = .ok (s', u) ↔ s.step files label = .ok s' := by
  unfold apply
  rw [bind_ok]
  simp

/-- `Destroy` is left to the servers and clients, and these are not destroyed. -/
def Label.Orderly : Label → Prop
  | .exec _ (.user (.destroy _ _)) | .exec _ (.user (.destroyOwner _)) => False
  | _ => True

/-- In every orderly run each connection is at one stage. -/
theorem run_lifecycle {owners : ℕ → Owner} {labels : List Label} {us : List Unit}
    (horderly : ∀ label ∈ labels, label.Orderly)
    (hrun : run (apply files) (init owners) labels = .ok (s, us)) : ∃ stage, Lifecycle s stage := by
  refine inv_of_run (fun s => ∃ stage, Lifecycle s stage) ?_ ⟨_, init_lifecycle owners⟩
    (Guarded.of_forall (fun label hlabel _ => horderly label hlabel) _) hrun
  rintro s label s' u ⟨stage, h⟩ hlabel hstep
  refine step_lifecycle h ?_ ?_ (apply_ok.1 hstep)
  · rintro l c shutdown rfl
    exact hlabel.elim
  · rintro l o rfl
    exact hlabel.elim

/-- Under any interleaving, whatever the connections do: the table of a server or client
holds exactly the connections that were opened and whose close has not been handled; a
close that is to be handled finds its descriptor, a new connection does not find its
own; and `Destroy` runs once at most. -/
theorem table_consistent (files : Files) (owners : ℕ → Owner) (labels : List Label)
    (horderly : ∀ label ∈ labels, label.Orderly) (s : Sys) (us : List Unit)
    (hrun : run (apply files) (init owners) labels = .ok (s, us)) :
    (∀ o fd c, (s.owners o).connections fd = some c ↔ (s.conns c).owner = o ∧
      (s.tcp c).channel.fd = fd ∧ .opened c ∈ s.log ∧ .handled c ∉ s.log) ∧
    (∀ l o fd, (s.threads l).nextTask = some (.handleConnectionClose o fd) →
      (s.owners o).connections fd ≠ none) ∧
    (∀ l o fd, (s.threads l).nextTask = some (.newConnection o) → ¬ s.IsOpen fd →
      (s.owners o).connections fd = none) ∧
    ∀ c, s.log.count (.destroyed c) ≤ 1 ∧
      ∀ l, (s.threads l).nextTask = some (.destroy c) → .destroyed c ∉ s.log := by
  rcases run_lifecycle horderly hrun with ⟨stage, h⟩
  refine ⟨fun o fd c => ?_, fun l o fd hnext => ?_, fun l o fd _ hfd => ?_, fun c => ⟨?_, ?_⟩⟩
  · -- in the table from `opened` until `handled`
    rw [h.table, h.mem_log c (.opened c) (by simp [Event.marks]),
      h.mem_log c (.handled c) (by simp [Event.marks])]
    cases stage c <;> simp [Stage.inTable, Stage.history]
  · rcases LoopThread.nextTask_eq.1 hnext with ⟨t, ht⟩
    rcases h.next ht rfl with ⟨c, hwaits⟩
    rcases Stage.waits_handleConnectionClose hwaits with ⟨hstage, rfl, rfl, -⟩
    rw [(h.table _ _ c).2 ⟨rfl, rfl, by rw [hstage]; rfl⟩]
    simp
  · -- the assertion of `AddConnection`: the descriptor is free, so no entry is left under it
    by_contra hne
    rcases Option.ne_none_iff_exists'.1 hne with ⟨c, hc⟩
    rcases (h.table o fd c).1 hc with ⟨-, hfd', hin⟩
    have hborn : c < s.nextConn := h.lt_nextConn fun hx => by simp [hx, Stage.inTable] at hin
    have hlive := h.not_destructed hborn fun hx => by simp [hx, Stage.inTable] at hin
    exact hfd ⟨c, hborn, hlive, hfd'⟩
  · -- the history of a stage has at most one `Destroy`
    rw [← List.count_filter (p := Event.marks c) (by simp [Event.marks]), h.history]
    cases stage c <;> simp [Stage.history]
  · intro l hnext
    rcases LoopThread.nextTask_eq.1 hnext with ⟨t, ht⟩
    rcases h.next ht rfl with ⟨c', hwaits⟩
    rcases Stage.waits_destroy hwaits with ⟨hstage, rfl, -⟩
    rw [h.mem_log c' _ (by simp [Event.marks]), hstage]
    simp [Stage.history]

/-- A server with a loop thread: the connection of descriptor 7 meets the end of its
stream, and the next connection gets its descriptor. -/
theorem table_consistent_run :
    ∃ s : Sys, (s.owners 0).connections 7 = some 1 ∧ (s.owners 0).connections 7 ≠ some 0 ∧
      s.log.count (.destroyed 0) ≤ 1 := by
  let owners : ℕ → Owner := fun _ => .server 0 [1]
  let labels : List Label := [
    .run 0, .next 0, .poll 0 [.accept 0], .exec 0 (.accept 7), .exec 0 .none,
    .run 1, .next 1, .poll 1 [.wakeUp], .next 1, .next 1, .next 1, .exec 1 .none,
    .exec 1 (.user .ret), .exec 1 .none, .next 1, .next 1, .next 1, .poll 1 [.events 7 1],
    .exec 1 .none, .exec 1 (.read (.data [])), .exec 1 .none,
    .next 0, .next 0, .exec 0 .none, .exec 0 .none,
    .next 1, .next 1, .exec 1 .none, .exec 1 (.user .ret), .exec 1 .none, .destruct 0,
    .next 0, .next 0, .next 0, .poll 0 [.accept 0], .exec 0 (.accept 7)]
  have hresult : (run (apply fun _ _ => 0) (init owners) labels).map (fun r =>
      (r.1.log, (r.1.conns 1).owner, (r.1.tcp 1).channel.fd)) =
      .ok ([.opened 0, .channelUpdated 0 (some 0), .channelUpdated 0 (some 0),
        .channelUpdated 0 (some 0), .closeCallback 0, .handled 0, .destroyed 0, .opened 1],
        0, 7) := by
    decide +kernel
  rcases map_ok.1 hresult with ⟨⟨s, us⟩, hrun, hfinal⟩
  simp only [Prod.mk.injEq] at hfinal
  rcases hfinal with ⟨hlog, howner, hfd⟩
  obtain ⟨htable, -, -, honce⟩ := table_consistent (fun _ _ => 0) owners labels
    (by simp [labels, Label.Orderly]) s us hrun
  refine ⟨s, (htable 0 7 1).2 ⟨howner, hfd, ?_, ?_⟩, fun h0 => ?_, (honce 0).1⟩
  · simp [hlog]
  · simp [hlog]
  · have := ((htable 0 7 0).1 h0).2.2.2
    simp [hlog] at this

end Sys

end FxServer
