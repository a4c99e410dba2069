import FxServer.Machine
import FxServer.System.Posted

/-!
# FxServer.System.Callbacks — the order of the callbacks of a connection

A server posts the new-connection callback to the loop of the connection, and behind it, by
way of `StartReading`, the functor that enables reading. When it handles a close, it posts the
close-connection callback, and then `Destroy`. Each time the second is posted behind the first
to the same loop, on its stack or in its queue.

The argument is about queues, not about loops. Two functors are in order when the second is
posted only while the first is ahead of it in the same queue, or has run; `Posted` follows this
across the two threads that may be involved.

* `Ordered` — the invariant: what is posted, what has run, and that nothing is done for a
  connection before its new-connection callback.
* `exec_ordered`, `step_ordered` — every task and every step keep it.
* `callbacks_in_order` — under any interleaving, the new-connection callback runs before
  `ReadFromPeer`, and the close-connection callback before `Destroy`.
-/

namespace FxServer

/-- The connection that a task is about; user code is about any. -/
def Task.conn : Task → Option ConnId
  | .handleEvents c | .writeCallback c | .sendfile c _ _ | .finishWrite c _ | .readCallback c
  | .endEvents c | .newConnectionCallback c | .startReading c | .enableReading c
  | .closeConnectionCallback c | .queueDestroy c | .destroy c => some c
  | .newConnection _ | .handleConnectionClose _ _ | .connectTo _ | .user _ => none

/-- The task is a part of `HandleEvents`. -/
def Task.inEvents : Task → Bool
  | .handleEvents _ | .writeCallback _ | .sendfile _ _ _ | .finishWrite _ _ | .readCallback _
  | .endEvents _ => true
  | _ => false

/-- The task is one of those that a close posts. -/
def Task.closing : Task → Bool
  | .closeConnectionCallback _ | .queueDestroy _ | .destroy _ => true
  | _ => false

namespace Sys

open Machine

variable {s s' s'' : Sys} {files : Files} {here l loop : ℕ} {c : ConnId} {task : Task}

/-! ## What has begun and ended -/

/-- The connection belongs to a client, or its new-connection callback has run, in its loop. -/
def Begun (s : Sys) (ran : List (ℕ × Task)) (c : ConnId) : Prop :=
  c < s.nextConn ∧ ((s.owners (s.conns c).owner).kind = .client ∨
    ((s.tcp c).channel.loop, .newConnectionCallback c) ∈ ran)

/-- The same of the close-connection callback. -/
def Ended (s : Sys) (ran : List (ℕ × Task)) (c : ConnId) : Prop :=
  (s.owners (s.conns c).owner).kind = .client ∨
    ((s.tcp c).channel.loop, .closeConnectionCallback c) ∈ ran

/-- The task may be posted at any time: the connection has begun, and the task is none of those
that a server posts at its close. -/
def Free (s : Sys) (ran : List (ℕ × Task)) (task : Task) : Prop :=
  (∀ o, task = .connectTo o → (s.owners o).kind = .client) ∧
  ∀ c, task.conn = some c → s.Begun ran c ∧
    (task.closing = true → (s.owners (s.conns c).owner).kind = .client)

variable {ran : List (ℕ × Task)}

instance (s : Sys) (ran : List (ℕ × Task)) (c : ConnId) : Decidable (s.Begun ran c) := by
  unfold Begun
  infer_instance

/-- A task of no connection may be queued at any time. -/
theorem free_of_conn (hconn : task.conn = none) (hconnect : ∀ o, task ≠ .connectTo o) :
    s.Free ran task := by
  refine ⟨fun o ho => absurd ho (hconnect o), fun c hc => ?_⟩
  rw [hconn] at hc
  cases hc

/-- Once the establishing callback has run, the connection's other tasks may be queued. -/
theorem Begun.free (h : s.Begun ran c) (hconn : task.conn = some c)
    (hclosing : task.closing = false) : s.Free ran task := by
  constructor
  · rintro o rfl
    cases hconn
  · intro c' hc'
    obtain rfl := Option.some.inj (hconn.symm.trans hc')
    refine ⟨h, fun hclose => ?_⟩
    rw [hclosing] at hclose
    cases hclose

/-! ## The invariant -/

/-- What has been posted and what has run, up to now. -/
structure Ordered (s : Sys) (ran : List (ℕ × Task)) : Prop where
  /-- the connections in the table of an owner are its own, in its loop -/
  entry : ∀ o fd c, (s.owners o).connections fd = some c →
    (s.conns c).owner = o ∧ c < s.nextConn
  /-- only clients are told to connect -/
  connects : ∀ l o, .connectTo o ∈ s.tasks l → (s.owners o).kind = .client
  /-- tasks are about connections that have been made -/
  born : ∀ l, ∀ task ∈ s.tasks l, ∀ c, task.conn = some c → c < s.nextConn
  /-- and so were those that have run -/
  bornRan : ∀ x ∈ ran, ∀ c, x.2.conn = some c → c < s.nextConn
  /-- nothing is done for a connection before its new-connection callback -/
  events : ∀ l, ∀ task ∈ s.tasks l, task.inEvents = true → ∀ c, task.conn = some c →
    s.Begun ran c
  /-- the poller holds channels of connections that have begun -/
  channels : ∀ l fd c, (s.threads l).channels fd = some c → s.Begun ran c
  /-- until the new-connection callback has run it is ahead of what enables reading -/
  opening : ∀ c, ¬ s.Begun ran c → s.Posted (s.tcp c).channel.loop (.newConnectionCallback c)
    (.startReading c) (.enableReading c)
  /-- until the close-connection callback has run it is ahead of `Destroy` -/
  closing : ∀ c, ¬ s.Ended ran c → s.Posted (s.tcp c).channel.loop (.closeConnectionCallback c)
    (.queueDestroy c) (.destroy c)
  /-- so nothing has been read before the one -/
  reads : ∀ c, (s.owners (s.conns c).owner).kind = .server →
    Fifo.Ahead ((s.tcp c).channel.loop, .newConnectionCallback c)
      (fun x => x.2 = .readCallback c) ran
  /-- and nothing destroyed before the other -/
  destroys : ∀ c, (s.owners (s.conns c).owner).kind = .server →
    Fifo.Ahead ((s.tcp c).channel.loop, .closeConnectionCallback c)
      (fun x => x.2 = .destroy c) ran

theorem init_ordered (owners : ℕ → Owner) : Ordered (init owners) [] := by
  have htasks : ∀ l, (init owners).tasks l = [] := fun _ => rfl
  constructor
  case opening =>
    intro c _
    exact .of_absent (by simp [htasks]) (by simp [htasks]) (by simp [htasks])
  case closing =>
    intro c _
    exact .of_absent (by simp [htasks]) (by simp [htasks]) (by simp [htasks])
  case reads => exact fun _ _ => trivial
  case destroys => exact fun _ _ => trivial
  case entry => simp [init]
  case channels => simp [init, LoopThread.new]
  all_goals simp [htasks]

section Ordered

/-- What spares the tasks that are not free begins no connection. -/
theorem Spares.begun {A : Task → Prop} (h : Spares A s s') (c : ConnId) :
    s'.Begun ran c ↔ s.Begun ran c := by
  unfold Begun
  rw [h.nextConn, h.owner, h.kind, h.loop]

theorem Spares.ended {A : Task → Prop} (h : Spares A s s') (c : ConnId) :
    s'.Ended ran c ↔ s.Ended ran c := by
  unfold Ended
  rw [h.owner, h.kind, h.loop]

/-- The tasks of `Free` can be posted, and channels registered when `Free` allows their events.
Other tasks about the connections in `B` are posted in order. -/
theorem Ordered.of_posts {B : ConnId → Prop} (h : Ordered s ran)
    (hspares : Spares (fun task => s.Free ran task ∨
      ∃ c, B c ∧ task.conn = some c ∧ task.inEvents = false ∧ c < s.nextConn) s s')
    (hopening : ∀ c, B c → ¬ s.Begun ran c → s'.Posted (s.tcp c).channel.loop
      (.newConnectionCallback c) (.startReading c) (.enableReading c))
    (hclosing : ∀ c, B c → ¬ s.Ended ran c → s'.Posted (s.tcp c).channel.loop
      (.closeConnectionCallback c) (.queueDestroy c) (.destroy c)) : Ordered s' ran := by
  constructor
  case entry =>
    intro o fd c hc
    rw [hspares.owner, hspares.nextConn]
    exact h.entry o fd c (hspares.connections o fd c hc)
  case connects =>
    intro l o hmem
    rw [hspares.kind]
    by_contra hkind
    refine hkind (h.connects l o (hspares.mem ?_ hmem))
    rintro (hfree | ⟨c, -, hc, -⟩)
    · exact hkind (hfree.1 o rfl)
    · cases hc
  case born =>
    intro l task hmem c hc
    rw [hspares.nextConn]
    by_contra hnew
    refine hnew (h.born l task (hspares.mem ?_ hmem) c hc)
    rintro (hfree | ⟨c', -, hc', -, hborn⟩)
    · exact hnew (hfree.2 c hc).1.1
    · obtain rfl := Option.some.inj (hc.symm.trans hc')
      exact hnew hborn
  case bornRan =>
    intro x hx c hc
    rw [hspares.nextConn]
    exact h.bornRan x hx c hc
  case events =>
    intro l task hmem hevents c hc
    rw [hspares.begun]
    by_contra hbegun
    refine hbegun (h.events l task (hspares.mem ?_ hmem) hevents c hc)
    rintro (hfree | ⟨c', -, -, hnone, -⟩)
    · exact hbegun (hfree.2 c hc).1
    · rw [hevents] at hnone
      cases hnone
  case channels =>
    intro l fd c hc
    rw [hspares.begun]
    rcases hspares.channels l fd c hc with hc | hfree | ⟨c', -, -, hnone, -⟩
    · exact h.channels l fd c hc
    · exact (hfree.2 c rfl).1
    · cases hnone
  case opening =>
    intro c hc
    rw [hspares.begun] at hc
    rw [hspares.loop]
    by_cases hB : B c
    · exact hopening c hB hc
    · -- none of the tasks that may be posted is about `c`
      have hnot : ∀ task, task.conn = some c → ¬ (s.Free ran task ∨
          ∃ c, B c ∧ task.conn = some c ∧ task.inEvents = false ∧ c < s.nextConn) := by
        rintro task htask (hfree | ⟨c', hB', hc', -⟩)
        · exact hc (hfree.2 c htask).1
        · exact hB (Option.some.inj (htask.symm.trans hc') ▸ hB')
      exact (h.opening c hc).of_spares hspares (hnot _ rfl) (hnot _ rfl) (hnot _ rfl)
  case closing =>
    intro c hc
    rw [hspares.ended] at hc
    rw [hspares.loop]
    by_cases hB : B c
    · exact hclosing c hB hc
    · -- none of the closing tasks that may be posted is about `c`
      have hnot : ∀ task, task.conn = some c → task.closing = true → ¬ (s.Free ran task ∨
          ∃ c, B c ∧ task.conn = some c ∧ task.inEvents = false ∧ c < s.nextConn) := by
        rintro task htask hclosing (hfree | ⟨c', hB', hc', -⟩)
        · exact hc (.inl ((hfree.2 c htask).2 hclosing))
        · exact hB (Option.some.inj (htask.symm.trans hc') ▸ hB')
      exact (h.closing c hc).of_spares hspares (hnot _ rfl rfl) (hnot _ rfl rfl) (hnot _ rfl rfl)
  case reads =>
    intro c hc
    rw [hspares.owner, hspares.kind] at hc
    rw [hspares.loop]
    exact h.reads c hc
  case destroys =>
    intro c hc
    rw [hspares.owner, hspares.kind] at hc
    rw [hspares.loop]
    exact h.destroys c hc

/-- What spares the tasks that are not free keeps the order. -/
theorem Ordered.of_spares (h : Ordered s ran) (hspares : Spares (s.Free ran) s s') :
    Ordered s' ran :=
  h.of_posts (B := fun _ => False) (hspares.mono fun _ => .inl) (fun _ => False.elim)
    fun _ => False.elim

/-! ## Closing -/

/-- A connection of a client is destroyed by the close callback itself. -/
theorem Ordered.closeCallback (h : Ordered s ran) (hspares : Spares (s.Free ran) s s')
    (hok : s'.closeCallback here c = .ok s'') : Spares (s.Free ran) s s'' := by
  rcases bind_ok.1 hok with ⟨_, -, hok⟩
  simp only at hok
  split at hok
  · cases hok
    -- a server hears of it through a task that names no connection
    exact hspares.emit.runInLoop (free_of_conn rfl (by simp))
  · rename_i hclient
    split at hok
    · cases hok
    · rename_i c' hc'
      cases hok
      rw [emit_owners, hspares.kind] at hclient
      -- a client has its one connection in its table
      rcases h.entry _ _ _ (hspares.connections _ _ _ hc') with ⟨howner, hborn⟩
      have hkind : (s.owners (s.conns c').owner).kind = .client := by rw [howner, ← hclient]
      refine hspares.emit.eraseConnection.emit.queueInLoop ⟨by simp, ?_⟩
      rintro c'' hc''
      obtain rfl := Option.some.inj hc''
      exact ⟨⟨hborn, .inl hkind⟩, fun _ => hkind⟩

/-- Closing queues free tasks only. -/
theorem Ordered.activeClose {shutdown : Bool} (h : Ordered s ran)
    (hspares : Spares (s.Free ran) s s') (hc : s.Begun ran c)
    (hok : s'.activeClose here c shutdown = .ok s'') :
    Spares (s.Free ran) s s'' := by
  rcases bind_ok.1 hok with ⟨_, -, hok⟩
  rcases bind_ok.1 hok with ⟨k, hk, hok⟩
  rcases bind_ok.1 hok with ⟨s₁, hupdate, hclose⟩
  rcases TcpConnection.activeClose_frame hk with ⟨-, events, rfl⟩
  exact h.closeCallback ((hspares.setTcp (by rfl)).updateChannel (hc.free rfl rfl) hupdate) hclose

theorem Ordered.passiveClose (h : Ordered s ran) (hspares : Spares (s.Free ran) s s')
    (hc : s.Begun ran c) (hok : s'.passiveClose here c = .ok s'') :
    Spares (s.Free ran) s s'' := by
  rcases bind_ok.1 hok with ⟨_, -, hok⟩
  split at hok
  · cases hok
    exact hspares
  · rcases bind_ok.1 hok with ⟨s₁, hupdate, hok⟩
    rcases bind_ok.1 hok with ⟨s₂, hupdate', hclose⟩
    have h₁ : Spares (s.Free ran) s s₁ :=
      (hspares.setTcp (by rfl)).updateChannel (hc.free rfl rfl) hupdate
    exact h.closeCallback (h₁.updateChannel (hc.free rfl rfl) hupdate') hclose

theorem Ordered.closeFailed {failed : Option Bool} (h : Ordered s ran)
    (hspares : Spares (s.Free ran) s s') (hc : s.Begun ran c)
    (hok : s'.closeFailed here c failed = .ok s'') : Spares (s.Free ran) s s'' := by
  unfold Sys.closeFailed at hok
  split at hok
  · exact h.activeClose hspares hc hok
  · cases hok
    exact hspares

theorem Ordered.connectedToPeer {failed : Bool} (h : Ordered s ran)
    (hspares : Spares (s.Free ran) s s') (hc : s.Begun ran c)
    (hok : s'.connectedToPeer here c failed = .ok s'') : Spares (s.Free ran) s s'' := by
  rcases bind_ok.1 hok with ⟨_, -, hok⟩
  split at hok
  · exact h.activeClose hspares hc hok
  · rcases bind_ok.1 hok with ⟨s₁, hupdate, hok⟩
    rcases bind_ok.1 hok with ⟨s₂, hupdate', hok⟩
    rcases bind_ok.1 hok with ⟨_, -, hok⟩
    rcases bind_ok.1 hok with ⟨_, -, hok⟩
    cases hok
    have h₁ : Spares (s.Free ran) s s₁ :=
      (hspares.setTcp (by rfl)).updateChannel (hc.free rfl rfl) hupdate
    exact ((h₁.setTcp (by rfl)).updateChannel (hc.free rfl rfl) hupdate').push
      (free_of_conn rfl (by simp))

/-! ## Posting -/

/-- The tasks that are posted are about the connection `c`. -/
theorem Ordered.of_posts_for {A : Task → Prop} (h : Ordered s ran) (hborn : c < s.nextConn)
    (hspares : Spares A s s') (hA : ∀ task, A task → task.conn = some c ∧ task.inEvents = false)
    (hopening : ¬ s.Begun ran c → s'.Posted (s.tcp c).channel.loop
      (.newConnectionCallback c) (.startReading c) (.enableReading c))
    (hclosing : ¬ s.Ended ran c → s'.Posted (s.tcp c).channel.loop
      (.closeConnectionCallback c) (.queueDestroy c) (.destroy c)) : Ordered s' ran := by
  refine h.of_posts (B := (· = c)) (hspares.mono fun task htask => ?_) ?_ ?_
  · exact .inr ⟨c, rfl, (hA task htask).1, (hA task htask).2, hborn⟩
  · rintro _ rfl
    exact hopening
  · rintro _ rfl
    exact hclosing

/-- The new-connection callback, and `StartReading` behind it. -/
theorem Ordered.postOpening (here : ℕ) (h : Ordered s ran) (hborn : c < s.nextConn) :
    Ordered ((s.push here (.startReading c)).runInLoop here (s.tcp c).channel.loop
      (.newConnectionCallback c)) ran := by
  have hspares : Spares (fun task => task = .startReading c ∨ task = .newConnectionCallback c) s
      ((s.push here (.startReading c)).runInLoop here (s.tcp c).channel.loop
        (.newConnectionCallback c)) :=
    ((Spares.refl _ s).push (.inl rfl)).runInLoop (.inr rfl)
  refine h.of_posts_for hborn hspares (by rintro _ (rfl | rfl) <;> exact ⟨rfl, rfl⟩) ?_ ?_
  · intro hbegun
    exact (h.opening c hbegun).post (by simp) (by simp) (by simp)
  · intro hended
    exact (h.closing c hended).of_spares hspares (by simp) (by simp) (by simp)

/-- The close-connection callback, and behind it what queues `Destroy`. -/
theorem Ordered.postClosing (h : Ordered s ran) (hborn : c < s.nextConn) :
    Ordered ((s.push here (.queueDestroy c)).runInLoop here (s.tcp c).channel.loop
      (.closeConnectionCallback c)) ran := by
  have hspares : Spares (fun task => task = .queueDestroy c ∨ task = .closeConnectionCallback c)
      s ((s.push here (.queueDestroy c)).runInLoop here (s.tcp c).channel.loop
        (.closeConnectionCallback c)) :=
    ((Spares.refl _ s).push (.inl rfl)).runInLoop (.inr rfl)
  refine h.of_posts_for hborn hspares (by rintro _ (rfl | rfl) <;> exact ⟨rfl, rfl⟩) ?_ ?_
  · intro hbegun
    exact (h.opening c hbegun).of_spares hspares (by simp) (by simp) (by simp)
  · intro hended
    exact (h.closing c hended).post (by simp) (by simp) (by simp)

/-- `Destroy` is queued behind the close callback. -/
theorem Ordered.queueDestroy (h : Ordered s ran) (hborn : c < s.nextConn)
    (hwaits : ¬ s.Ended ran c →
      .closeConnectionCallback c ∈ s.tasks (s.tcp c).channel.loop) :
    Ordered (s.queueInLoop here (s.tcp c).channel.loop (.destroy c)) ran := by
  have hspares : Spares (· = .destroy c) s
      (s.queueInLoop here (s.tcp c).channel.loop (.destroy c)) :=
    (Spares.refl _ s).queueInLoop rfl
  refine h.of_posts_for hborn hspares (by rintro _ rfl; exact ⟨rfl, rfl⟩) ?_ ?_
  · intro hbegun
    exact (h.opening c hbegun).of_spares hspares (by simp) (by simp) (by simp)
  · intro hended
    exact (h.closing c hended).queueInLoop (hwaits hended)

/-- `StartReading`, by the thread that has accepted the connection or by user code. -/
theorem Ordered.startReading (h : Ordered s ran) (hborn : c < s.nextConn)
    (hwaits : ¬ s.Begun ran c → here ≠ (s.tcp c).channel.loop ∧
      .newConnectionCallback c ∈ s.tasks (s.tcp c).channel.loop) :
    Ordered (s.runInLoop here (s.tcp c).channel.loop (.enableReading c)) ran := by
  have hspares : Spares (· = .enableReading c) s
      (s.runInLoop here (s.tcp c).channel.loop (.enableReading c)) :=
    (Spares.refl _ s).runInLoop rfl
  refine h.of_posts_for hborn hspares (by rintro _ rfl; exact ⟨rfl, rfl⟩) ?_ ?_
  · intro hbegun
    rw [runInLoop_of_ne (hwaits hbegun).1]
    exact (h.opening c hbegun).queueInLoop (hwaits hbegun).2
  · intro hended
    exact (h.closing c hended).of_spares hspares (by simp) (by simp) (by simp)

/-! ## Opening -/

/-- Nothing is known of the new connection. -/
theorem Ordered.addConn {o fd : ℕ} {state : TcpConnectionState} (h : Ordered s ran)
    (hok : s.addConn o loop fd state = .ok s') :
    Ordered s' ran ∧ s.nextConn < s'.nextConn ∧
      (s'.tcp s.nextConn).channel.loop = loop ∧ (s'.conns s.nextConn).owner = o := by
  have hadd := addConn_ok hok
  have htasks : ∀ l, s'.tasks l = s.tasks l := fun l => by rw [tasks, hadd.threads, tasks]
  have hnew : s'.conns s.nextConn = .new o loop fd state := by
    rw [hadd.conns, Function.update_self]
  have hold : ∀ c, c ≠ s.nextConn → s'.conns c = s.conns c := fun c hc => by
    rw [hadd.conns, Function.update_of_ne hc]
  have htcp : ∀ c, c ≠ s.nextConn → s'.tcp c = s.tcp c := fun c hc => by rw [tcp, hold c hc, tcp]
  have hborn : ∀ c, c < s.nextConn → c < s'.nextConn := fun c hc => by
    rw [hadd.nextConn]
    exact Nat.lt_succ_of_lt hc
  have hbegun : ∀ c, s.Begun ran c → s'.Begun ran c := fun c hc => by
    refine ⟨hborn c hc.1, ?_⟩
    rw [hold c hc.1.ne, htcp c hc.1.ne, hadd.kind]
    exact hc.2
  -- no task is about the new connection
  have habsent : ∀ l task, task.conn = some s.nextConn → task ∉ s'.tasks l := by
    intro l task hc hmem
    rw [htasks] at hmem
    exact (h.born l task hmem _ hc).ne rfl
  have hposted : ∀ c first mid last, first.conn = some c → mid.conn = some c →
      last.conn = some c → (c ≠ s.nextConn → s.Posted (s.tcp c).channel.loop first mid last) →
      s'.Posted (s'.tcp c).channel.loop first mid last := by
    intro c first mid last hfirst hmid hlast hposted
    by_cases hc : c = s.nextConn
    · subst hc
      exact .of_absent (fun l => habsent l _ hfirst) (fun l => habsent l _ hmid)
        fun l => habsent l _ hlast
    · rw [htcp c hc]
      exact (hposted hc).congr fun p _ l => by rw [htasks]
  have hran : ∀ (first : Task) (later : Task → Prop),
      (∀ task, later task → task.conn = some s.nextConn) →
      Fifo.Ahead ((s'.tcp s.nextConn).channel.loop, first) (fun x => later x.2) ran := by
    intro first later hlater
    have hnone : ∀ x ∈ ran, ¬ later x.2 := fun x hx hlate =>
      (h.bornRan x hx _ (hlater _ hlate)).ne rfl
    exact Fifo.ahead_of_forall hnone
  refine ⟨?_, by rw [hadd.nextConn]; exact Nat.lt_succ_self _, by rw [tcp, hnew]; rfl,
    by rw [hnew]; rfl⟩
  constructor
  case entry =>
    intro o' fd' c hc
    rw [hadd.connections] at hc
    split at hc
    · rename_i heq
      obtain rfl := Option.some.inj hc
      rw [hnew, heq.1, hadd.nextConn]
      exact ⟨rfl, Nat.lt_succ_self _⟩
    · rcases h.entry o' fd' c hc with ⟨howner, hlt⟩
      rw [hold c hlt.ne]
      exact ⟨howner, hborn c hlt⟩
  case connects =>
    intro l o' hmem
    rw [hadd.kind]
    exact h.connects l o' (htasks l ▸ hmem)
  case born => exact fun l task hmem c hc => hborn c (h.born l task (htasks l ▸ hmem) c hc)
  case bornRan => exact fun x hx c hc => hborn c (h.bornRan x hx c hc)
  case events =>
    intro l task hmem hevents c hc
    exact hbegun c (h.events l task (htasks l ▸ hmem) hevents c hc)
  case channels =>
    intro l fd' c hc
    rw [hadd.threads] at hc
    exact hbegun c (h.channels l fd' c hc)
  case opening =>
    exact fun c hc => hposted c _ _ _ rfl rfl rfl fun _ => h.opening c fun hc' => hc (hbegun c hc')
  case closing =>
    refine fun c hc => hposted c _ _ _ rfl rfl rfl fun hne => h.closing c fun hc' => hc ?_
    rw [Ended, hold c hne, htcp c hne, hadd.kind]
    exact hc'
  case reads =>
    intro c hc
    by_cases hne : c = s.nextConn
    · subst hne
      exact hran _ (· = .readCallback s.nextConn) (by rintro _ rfl; rfl)
    · rw [hold c hne, hadd.kind] at hc
      rw [htcp c hne]
      exact h.reads c hc
  case destroys =>
    intro c hc
    by_cases hne : c = s.nextConn
    · subst hne
      exact hran _ (· = .destroy s.nextConn) (by rintro _ rfl; rfl)
    · rw [hold c hne, hadd.kind] at hc
      rw [htcp c hne]
      exact h.destroys c hc

/-! ## Tasks -/

theorem Begun.append (h : s.Begun ran c) (ran' : List (ℕ × Task)) : s.Begun (ran ++ ran') c :=
  ⟨h.1, h.2.imp_right (List.mem_append_left _)⟩

/-- What is known of a task that the loop `here` runs. -/
structure Taken (s : Sys) (ran : List (ℕ × Task)) (here : ℕ) (task : Task) : Prop where
  born : ∀ c, task.conn = some c → c < s.nextConn
  connects : ∀ o, task = .connectTo o → (s.owners o).kind = .client
  /-- a handler, or what enables reading, belongs to a connection that has begun -/
  begun : ∀ c, task.conn = some c → task.inEvents = true ∨ task = .enableReading c →
    s.Begun ran c
  /-- `StartReading` of a connection that has not begun comes behind its callback -/
  starts : ∀ c, task = .startReading c → ¬ s.Begun ran c →
    here ≠ (s.tcp c).channel.loop ∧ .newConnectionCallback c ∈ s.tasks (s.tcp c).channel.loop
  /-- and so does what queues `Destroy` -/
  queues : ∀ c, task = .queueDestroy c → ¬ s.Ended ran c →
    .closeConnectionCallback c ∈ s.tasks (s.tcp c).channel.loop

/-- Taking the next task of a loop moves it from the queue to what has run. -/
theorem Ordered.take {t : LoopThread} (h : Ordered s ran)
    (ht : (s.threads here).take = some (task, t)) :
    Ordered (s.setThread here t) (ran ++ [(here, task)]) ∧
      Taken (s.setThread here t) (ran ++ [(here, task)]) here task := by
  have htasks : s.tasks here = task :: t.tasks := LoopThread.take_tasks ht
  have htask : task ∈ s.tasks here := by rw [htasks]; exact List.mem_cons_self
  have hmem : ∀ l task', task' ∈ (s.setThread here t).tasks l → task' ∈ s.tasks l := by
    intro l task' hmem
    rw [tasks_setThread] at hmem
    split at hmem
    · rename_i hl
      rw [hl, htasks]
      exact List.mem_cons_of_mem _ hmem
    · exact hmem
  -- until a callback has run it is another task that runs
  have hopening : ∀ c, ¬ s.Begun (ran ++ [(here, task)]) c →
      ¬ s.Begun ran c ∧ task ≠ .newConnectionCallback c := by
    intro c hc
    have hnot : ¬ s.Begun ran c := fun hbegun => hc (hbegun.append _)
    refine ⟨hnot, ?_⟩
    rintro rfl
    have hl := (h.opening c hnot).firstLoop here htask
    exact hc ⟨h.born here _ htask c rfl, .inr (by simp [hl])⟩
  have hclosing : ∀ c, ¬ s.Ended (ran ++ [(here, task)]) c →
      ¬ s.Ended ran c ∧ task ≠ .closeConnectionCallback c := by
    intro c hc
    have hnot : ¬ s.Ended ran c := fun hended => hc (hended.imp_right (List.mem_append_left _))
    refine ⟨hnot, ?_⟩
    rintro rfl
    have hl := (h.closing c hnot).firstLoop here htask
    exact hc (.inr (by simp [hl]))
  have hbegun : ∀ c, task.conn = some c → task.inEvents = true ∨ task = .enableReading c →
      s.Begun ran c := by
    rintro c hc (hevents | rfl)
    · exact h.events here task htask hevents c hc
    · by_contra hnot
      exact ((h.opening c hnot).take ht (by simp)).2.1 rfl
  have hended : ∀ c, task = .destroy c → s.Ended ran c := by
    rintro c rfl
    by_contra hnot
    exact ((h.closing c hnot).take ht (by simp)).2.1 rfl
  constructor
  · constructor
    case entry => exact h.entry
    case connects => exact fun l o ho => h.connects l o (hmem l _ ho)
    case born => exact fun l task' htask' => h.born l task' (hmem l _ htask')
    case bornRan =>
      intro x hx c hc
      rcases List.mem_append.1 hx with hx | hx
      · exact h.bornRan x hx c hc
      · obtain rfl := List.mem_singleton.1 hx
        exact h.born here _ htask c hc
    case events =>
      intro l task' htask' hevents c hc
      exact (h.events l task' (hmem l _ htask') hevents c hc).append _
    case channels =>
      intro l fd c hc
      have hentry : (s.threads l).channels fd = some c := by
        by_cases hl : l = here
        · subst hl
          rw [setThread_threads, Function.update_self, LoopThread.take_channels ht] at hc
          exact hc
        · rwa [setThread_threads, Function.update_of_ne hl] at hc
      exact (h.channels l fd c hentry).append _
    case opening =>
      intro c hc
      rcases hopening c hc with ⟨hnot, hne⟩
      exact ((h.opening c hnot).take ht hne).1
    case closing =>
      intro c hc
      rcases hclosing c hc with ⟨hnot, hne⟩
      exact ((h.closing c hnot).take ht hne).1
    case reads =>
      intro c hc
      refine (h.reads c hc).append ?_
      rintro rfl
      have hserver : (s.owners (s.conns c).owner).kind ≠ .client := fun hk => by
        cases hc.symm.trans hk
      exact (hbegun c rfl (.inl rfl)).2.resolve_left hserver
    case destroys =>
      intro c hc
      refine (h.destroys c hc).append ?_
      rintro rfl
      have hserver : (s.owners (s.conns c).owner).kind ≠ .client := fun hk => by
        cases hc.symm.trans hk
      exact (hended c rfl).resolve_left hserver
  · constructor
    case born => exact fun c hc => h.born here task htask c hc
    case connects =>
      rintro o rfl
      exact h.connects here o htask
    case begun => exact fun c hc hwhich => (hbegun c hc hwhich).append _
    case starts =>
      rintro c rfl hc
      rcases hopening c hc with ⟨hnot, hne⟩
      exact ((h.opening c hnot).take ht hne).2.2 rfl
    case queues =>
      rintro c rfl hc
      rcases hclosing c hc with ⟨hnot, hne⟩
      exact (((h.closing c hnot).take ht hne).2.2 rfl).2

end Ordered

/-- The connection that a call of user code is given. -/
def UserCall.conn : UserCall → Option ConnId
  | .write c _ | .zeroCopyWrite c _ _ _ | .startReading c | .activeClose c _ | .passiveClose c
  | .destroy c _ | .keep c | .drop c => some c
  | .queueInLoop _ | .connectTo _ | .destroyOwner _ | .ret => none

/-- User code has a pointer to a connection from one of its callbacks, the first of which is
the new-connection callback; and it is clients that it tells to connect. -/
def GivenCall (s : Sys) (ran : List (ℕ × Task)) (call : UserCall) : Prop :=
  (∀ c, call.conn = some c → s.Begun ran c) ∧
  ∀ o, call = .connectTo o → (s.owners o).kind = .client

/-- A call that the user was given the connection for queues free tasks. -/
theorem Ordered.userCall {call : UserCall} (h : Ordered s ran)
    (hspares : Spares (s.Free ran) s s') (hgiven : s.GivenCall ran call)
    (hok : s'.userCall files here call = .ok s'') : Spares (s.Free ran) s s'' := by
  cases call with
  | write c buf =>
    have hc : s.Begun ran c := hgiven.1 c rfl
    rcases bind_ok.1 hok with ⟨_, -, hok⟩
    rcases bind_ok.1 hok with ⟨_, -, hok⟩
    rcases bind_ok.1 hok with ⟨k, hk, hok⟩
    rcases TcpConnection.write_frame hk with ⟨writeBuf, rfl⟩
    -- the channel of a connection that has begun is registered again
    exact (hspares.setConn (by rfl) (by rfl)).updateChannel (hc.free rfl rfl) hok
  | zeroCopyWrite c fd offset len =>
    rcases bind_ok.1 hok with ⟨_, -, hok⟩
    cases hok
    exact hspares.setTcp rfl
  | startReading c =>
    have hc : s.Begun ran c := hgiven.1 c rfl
    rcases bind_ok.1 hok with ⟨_, -, hok⟩
    cases hok
    exact hspares.runInLoop (hc.free rfl rfl)
  | activeClose c shutdown => exact h.activeClose hspares (hgiven.1 c rfl) hok
  | passiveClose c => exact h.passiveClose hspares (hgiven.1 c rfl) hok
  | destroy c shutdown => exact hspares.destroy hok
  | keep c =>
    rcases bind_ok.1 hok with ⟨_, -, hok⟩
    cases hok
    exact hspares.setConn rfl rfl
  | drop c =>
    cases hok
    exact hspares.setConn rfl rfl
  | queueInLoop l =>
    cases hok
    exact hspares.queueInLoop (free_of_conn rfl (by simp))
  | connectTo o =>
    rcases bind_ok.1 hok with ⟨_, -, hok⟩
    cases hok
    -- a connect names no connection yet, only its client
    refine hspares.queueInLoop ⟨?_, fun c hc => by cases hc⟩
    rintro o' ho'
    cases ho'
    exact hgiven.2 o rfl
  | destroyOwner o =>
    cases hok
    exact hspares.setOwner rfl fun fd c hc => by cases hc
  | ret =>
    cases hok
    exact hspares

theorem nextLoop_spares {A : Task → Prop} {o : ℕ} {owner : Owner}
    (hnext : nextLoop (s.owners o) = .ok (l, owner)) : Spares A s (s.setOwner o owner) := by
  rcases nextLoop_ok hnext with ⟨hkind, -, htable⟩
  exact (Spares.refl A s).setOwner hkind fun fd c hc => htable ▸ hc

/-- Running a task in its place keeps the order. -/
theorem exec_ordered {input : Input} (h : Ordered s ran) (htaken : Taken s ran here task)
    (hgiven : ∀ call, input = .user call → s.GivenCall ran call)
    (hok : s.exec files here task input = .ok s') : Ordered s' ran := by
  have hrefl := Spares.refl (s.Free ran) s
  cases task with
  | newConnection o =>
    cases input with
    | accept fd =>
      simp only [exec] at hok
      split at hok
      · cases hok
        exact h.of_spares (hrefl.push (free_of_conn rfl (by simp)))
      · rcases bind_ok.1 hok with ⟨_, -, hok⟩
        rcases bind_ok.1 hok with ⟨⟨l, owner⟩, hnext, hok⟩
        rcases bind_ok.1 hok with ⟨s₁, hadd, hok⟩
        cases hok
        rcases (h.of_spares (nextLoop_spares hnext)).addConn hadd with ⟨h₁, hborn, hloop, -⟩
        have hpost := h₁.postOpening here hborn
        rw [hloop] at hpost
        exact hpost
    | _ =>
      cases hok
      exact h.of_spares (hrefl.push (free_of_conn rfl (by simp)))
  | handleEvents c =>
    have hc : s.Begun ran c := htaken.begun c rfl (.inl rfl)
    rcases bind_ok.1 hok with ⟨_, -, hok⟩
    have hpushed : Spares (s.Free ran) s ((s.setConn c { s.conns c with
        handlingEvents := true }).push here (.endEvents c)) :=
      (hrefl.setConn (by rfl) (by rfl)).push (hc.free rfl rfl)
    simp only at hok
    split at hok <;> split at hok <;> cases hok
    · exact h.of_spares ((hpushed.push (hc.free rfl rfl)).push (hc.free rfl rfl))
    · exact h.of_spares (hpushed.push (hc.free rfl rfl))
    · exact h.of_spares (hpushed.push (hc.free rfl rfl))
    · exact h.of_spares hpushed
  | writeCallback c =>
    have hc : s.Begun ran c := htaken.begun c rfl (.inl rfl)
    rcases bind_ok.1 hok with ⟨_, -, hok⟩
    split at hok
    · exact h.of_spares (h.connectedToPeer hrefl hc hok)
    · rcases bind_ok.1 hok with ⟨_, -, hok⟩
      rcases bind_ok.1 hok with ⟨⟨k, failed, rest⟩, hk, hok⟩
      rcases TcpConnection.writeLoop_frame hk with ⟨writeBuf, sent, rfl⟩
      exact h.of_spares (h.closeFailed ((hrefl.setConn (by rfl) (by rfl)).push
        (hc.free (by rfl) (by rfl))) hc hok)
    · cases hok
      exact h.of_spares (hrefl.push (hc.free rfl rfl))
  | sendfile c bytesToRead results =>
    have hc : s.Begun ran c := htaken.begun c rfl (.inl rfl)
    rcases bind_ok.1 hok with ⟨_, -, hok⟩
    rcases bind_ok.1 hok with ⟨⟨k, failed⟩, hk, hok⟩
    rcases TcpConnection.sendfileLoop_frame hk with ⟨offset, writed, sent, rfl⟩
    exact h.of_spares (h.closeFailed ((hrefl.setTcp (by rfl)).push (hc.free rfl rfl)) hc hok)
  | finishWrite c bytesToRead =>
    have hc : s.Begun ran c := htaken.begun c rfl (.inl rfl)
    rcases bind_ok.1 hok with ⟨_, -, hok⟩
    split at hok
    · rcases bind_ok.1 hok with ⟨s₁, hupdate, hok⟩
      cases hok
      have hfinished : Spares (s.Free ran) s (s.setTcp c (s.tcp c).finishWrite) := by
        rcases (s.tcp c).finishWrite_frame with ⟨offset, len, writed, -, hframe⟩
        exact hrefl.setTcp (by rw [hframe]; rfl)
      exact h.of_spares ((hfinished.updateChannel (hc.free rfl rfl) hupdate).emit.push
        (free_of_conn rfl (by simp)))
    · cases hok
      exact h
  | readCallback c =>
    have hc : s.Begun ran c := htaken.begun c rfl (.inl rfl)
    rcases bind_ok.1 hok with ⟨_, -, hok⟩
    split at hok
    · split at hok
      · rcases bind_ok.1 hok with ⟨_, -, hok⟩
        split at hok
        · exact h.of_spares (h.passiveClose hrefl hc hok)
        · rcases bind_ok.1 hok with ⟨k, hk, hok⟩
          cases hok
          rcases TcpConnection.readFromPeer_frame hk with ⟨readBuf, rfl⟩
          exact h.of_spares ((hrefl.setTcp (by rfl)).emit.push (free_of_conn rfl (by simp)))
      · cases hok
        exact h.of_spares (hrefl.push (hc.free rfl rfl))
    · cases hok
      exact h
  | endEvents c =>
    rcases bind_ok.1 hok with ⟨_, -, hok⟩
    cases hok
    exact h.of_spares (hrefl.setConn rfl rfl)
  | newConnectionCallback c =>
    cases hok
    exact h.of_spares (hrefl.push (free_of_conn rfl (by simp)))
  | startReading c =>
    cases hok
    exact h.startReading (htaken.born c rfl) (htaken.starts c rfl)
  | enableReading c =>
    have hc : s.Begun ran c := htaken.begun c rfl (.inr rfl)
    rcases bind_ok.1 hok with ⟨_, -, hok⟩
    exact h.of_spares ((hrefl.setTcp (by rfl)).updateChannel (hc.free rfl rfl) hok)
  | handleConnectionClose o fd =>
    rcases bind_ok.1 hok with ⟨_, -, hok⟩
    split at hok
    · cases hok
    · rename_i c hentry
      cases hok
      have herased : Ordered ((s.eraseConnection o fd).emit (.handled c)) ran :=
        h.of_spares hrefl.eraseConnection.emit
      exact herased.postClosing (h.entry o fd c hentry).2
  | closeConnectionCallback c =>
    cases hok
    exact h.of_spares (hrefl.push (free_of_conn rfl (by simp)))
  | queueDestroy c =>
    cases hok
    exact h.queueDestroy (htaken.born c rfl) (htaken.queues c rfl)
  | destroy c => exact h.of_spares (hrefl.destroy hok)
  | connectTo o =>
    have hclient := htaken.connects o rfl
    have hfree : s.Free ran (.connectTo o) := by
      refine ⟨?_, fun c hc => by cases hc⟩
      rintro o' ho'
      cases ho'
      exact hclient
    cases input with
    | connect fd connected =>
      simp only [exec] at hok
      split at hok
      · cases hok
        exact h.of_spares (hrefl.push hfree)
      · rcases bind_ok.1 hok with ⟨_, -, hok⟩
        split at hok
        · rcases bind_ok.1 hok with ⟨s₁, hadd, hok⟩
          cases hok
          exact (h.addConn hadd).1.of_spares ((Spares.refl _ s₁).push (free_of_conn rfl (by simp)))
        · rcases bind_ok.1 hok with ⟨s₁, hadd, hok⟩
          rcases h.addConn hadd with ⟨h₁, hborn, -, howner⟩
          -- the constructor registers the channel, which a server's never does
          have hbegun : s₁.Begun ran s.nextConn := by
            refine ⟨hborn, .inl ?_⟩
            rw [howner, (addConn_ok hadd).kind]
            exact hclient
          exact h₁.of_spares (((Spares.refl _ s₁).setTcp (by rfl)).updateChannel
            (hbegun.free rfl rfl) hok)
    | connectFailed =>
      rcases bind_ok.1 hok with ⟨_, -, hok⟩
      cases hok
      exact h
    | _ =>
      cases hok
      exact h.of_spares (hrefl.push hfree)
  | user u =>
    cases input with
    | user call =>
      by_cases hret : call = .ret
      · subst hret
        cases hok
        exact h
      · rw [exec_user hret] at hok
        have hpushed : Spares (s.Free ran) s (s.push here (.user u)) :=
          hrefl.push (free_of_conn rfl (by simp))
        exact h.of_spares (h.userCall hpushed (hgiven call rfl) hok)
    | _ =>
      cases hok
      exact h.of_spares (hrefl.push (free_of_conn rfl (by simp)))

/-! ## Steps -/

/-- The same tasks in another order of calls and phases. -/
theorem Ordered.setThread {t : LoopThread} (h : Ordered s ran) (htasks : t.tasks = s.tasks l)
    (hchannels : t.channels = (s.threads l).channels) : Ordered (s.setThread l t) ran := by
  refine h.of_spares ((Spares.refl _ s).setThread (fun p _ => by rw [htasks]) fun fd c hc => ?_)
  rw [hchannels] at hc
  exact .inl hc

/-- What the next step runs. -/
def runs (s : Sys) : Label → List (ℕ × Task)
  | .exec l _ => (s.threads l).nextTask.toList.map fun task => (l, task)
  | _ => []

/-- A step, and behind what has run the task that it runs. -/
def applyRan (files : Files) (x : Sys × List (ℕ × Task)) (label : Label) :
    Except Fault ((Sys × List (ℕ × Task)) × Unit) := do
  let s ← x.1.step files label
  .ok ((s, x.2 ++ x.1.runs label), ())

instance (s : Sys) (ran : List (ℕ × Task)) (call : UserCall) :
    Decidable (s.GivenCall ran call) :=
  have : Decidable (∀ o, call = .connectTo o → (s.owners o).kind = .client) :=
    match call with
    | .connectTo o => decidable_of_iff ((s.owners o).kind = .client) (by simp)
    | .write .. | .zeroCopyWrite .. | .startReading _ | .activeClose .. | .passiveClose _
    | .destroy .. | .keep _ | .drop _ | .queueInLoop _ | .destroyOwner _ | .ret =>
      .isTrue (by simp)
  have : Decidable (∀ c, call.conn = some c → s.Begun ran c) :=
    decidable_of_iff (∀ c ∈ call.conn, s.Begun ran c) Iff.rfl
  inferInstanceAs (Decidable (_ ∧ _))

/-- User code makes only calls that it can make. -/
def Given (x : Sys × List (ℕ × Task)) : Label → Prop
  | .exec _ (.user call) => x.1.GivenCall x.2 call
  | _ => True

instance : ∀ x label, Decidable (Given x label)
  | _, .exec _ (.user _) => inferInstanceAs (Decidable (GivenCall _ _ _))
  | _, .exec _ .none | _, .exec _ (.accept _) | _, .exec _ (.connect ..)
  | _, .exec _ .connectFailed | _, .exec _ (.soError _) | _, .exec _ (.results _)
  | _, .exec _ (.read _) | _, .exec _ (.shutdown _) | _, .run _ | _, .next _ | _, .poll ..
  | _, .callUser _ | _, .destruct _ => .isTrue trivial

/-- The poller brings no new-connection callback and no close, whatever the order of its
reports. -/
theorem Ordered.poll {active : List (Handler Task)} (h : Ordered s ran)
    (hphase : (s.threads l).loop.phase = .polling)
    (hactive : ∀ task ∈ active.filterMap Handler.task, s.Free ran task) :
    Ordered (s.setThread l { s.threads l with loop := (s.threads l).loop.poll active }) ran := by
  refine h.of_spares ((Spares.refl _ s).setThread (fun p hp => ?_) fun fd c hc => .inl hc)
  have hnone : (active.filterMap Handler.task).filter p = [] := by
    rw [List.filter_eq_nil_iff]
    intro task hmem
    simp [hp task (hactive task hmem)]
  rw [LoopThread.tasks_poll, List.filter_append, List.filter_append, hnone]
  simp [tasks, LoopThread.tasks, LoopThread.batch, hphase]

/-- Every step of every loop does. -/
theorem step_ordered {label : Label} (h : Ordered s ran) (hgiven : Given (s, ran) label)
    (hok : s.step files label = .ok s') : Ordered s' (ran ++ s.runs label) := by
  cases step_steps hok with
  | idle _ hidle =>
    have hnone : s.runs label = [] := by
      cases label with
      | exec l input => simp [runs, LoopThread.nextTask, hidle l input rfl]
      | _ => rfl
    rwa [hnone, List.append_nil]
  | run l _ hphase =>
    show Ordered _ (ran ++ [])
    rw [List.append_nil]
    exact h.setThread (LoopThread.tasks_run hphase) rfl
  | wakeUp l rest _ hphase =>
    show Ordered _ (ran ++ [])
    rw [List.append_nil]
    exact h.setThread (LoopThread.tasks_wakeUp hphase) rfl
  | next l =>
    show Ordered _ (ran ++ [])
    rw [List.append_nil]
    exact h.setThread (LoopThread.tasks_next _) rfl
  | poll l ready s₁ active hphase hfill =>
    show Ordered _ (ran ++ [])
    rw [List.append_nil]
    have hspares : Spares (s.Free ran) s s₁ := fillActiveChannels_spares hfill
    have h₁ : Ordered s₁ ran := h.of_spares hspares
    refine h₁.poll ?_ fun task hmem => ?_
    · rw [fillActiveChannels_threads hfill]
      exact hphase
    · cases fillActiveChannels_polled hfill task hmem with
      | accept o => exact free_of_conn rfl (by simp)
      | events hc =>
        have hbegun := (hspares.begun _).2 (h.channels l _ _ hc)
        exact hbegun.free rfl rfl
  | callUser l =>
    show Ordered _ (ran ++ [])
    rw [List.append_nil]
    exact h.of_spares ((Spares.refl _ s).push (free_of_conn rfl (by simp)))
  | exec l input task t _ ht hexec =>
    -- the task is the next in the order
    have hruns : s.runs (.exec l input) = [(l, task)] := by
      simp [runs, LoopThread.nextTask, ht]
    rw [hruns]
    rcases h.take ht with ⟨h₀, htaken⟩
    refine exec_ordered h₀ htaken ?_ hexec
    rintro call rfl
    exact ⟨fun c hc => (hgiven.1 c hc).append _, hgiven.2⟩
  | destruct c =>
    show Ordered _ (ran ++ [])
    rw [List.append_nil]
    exact h.of_spares ((Spares.refl _ s).setConn rfl rfl)

/-! ## Runs -/

/-- In every run of any number of loops and servers, in which user code has its pointers to
connections from callbacks: when the channel of a server's connection reads, the new-connection
callback has run in the loop of the connection, and when `Destroy` runs, so has the
close-connection callback. -/
theorem callbacks_in_order (files : Files) (owners : ℕ → Owner) (labels : List Label)
    (hgiven : Guarded (applyRan files) Given (init owners, []) labels) (s : Sys)
    (ran : List (ℕ × Task)) (us : List Unit)
    (hrun : run (applyRan files) (init owners, []) labels = .ok ((s, ran), us)) (c : ConnId)
    (hserver : (s.owners (s.conns c).owner).kind = .server) :
    Fifo.Ahead ((s.tcp c).channel.loop, .newConnectionCallback c)
      (fun x => x.2 = .readCallback c) ran ∧
    Fifo.Ahead ((s.tcp c).channel.loop, .closeConnectionCallback c)
      (fun x => x.2 = .destroy c) ran := by
  have h : Ordered s ran := by
    refine inv_of_run (fun x => Ordered x.1 x.2) ?_ (init_ordered owners) hgiven hrun
    rintro ⟨s, ran⟩ label ⟨s', ran'⟩ u h hlabel hstep
    rcases bind_ok.1 hstep with ⟨s₁, hok, hstep⟩
    cases hstep
    exact step_ordered h hlabel hok
  exact ⟨h.reads c hserver, h.destroys c hserver⟩

/-- A server accepts a connection for the loop of a thread. It is answered in the read callback,
and comes to the end of its stream. -/
theorem callbacks_in_order_run :
    ∃ ran : List (ℕ × Task), (1, .readCallback 0) ∈ ran ∧ (1, .destroy 0) ∈ ran ∧
      Fifo.Ahead (1, .newConnectionCallback 0) (fun x => x.2 = .readCallback 0) ran ∧
      Fifo.Ahead (1, .closeConnectionCallback 0) (fun x => x.2 = .destroy 0) ran := by
  let owners : ℕ → Owner := fun _ => .server 0 [1]
  -- loop 0 accepts and closes, loop 1 establishes, reads, writes and destroys
  let labels : List Label := [
    .run 0, .next 0, .poll 0 [.accept 0], .exec 0 (.accept 7), .exec 0 .none,
    .run 1, .next 1, .poll 1 [.wakeUp], .next 1, .next 1, .next 1, .exec 1 .none,
    .exec 1 (.user (.keep 0)), .exec 1 (.user .ret), .exec 1 .none, .next 1, .next 1, .next 1,
    .poll 1 [.events 7 1], .exec 1 .none, .exec 1 (.read (.data [104])),
    .exec 1 (.user (.write 0 [105])), .exec 1 (.user .ret), .exec 1 .none,
    .next 1, .next 1, .next 1, .next 1, .next 1,
    .poll 1 [.events 7 1], .exec 1 .none, .exec 1 (.read (.data [])), .exec 1 .none,
    .next 0, .next 0, .exec 0 .none, .exec 0 .none,
    .next 1, .next 1, .exec 1 .none, .exec 1 (.user .ret), .exec 1 .none]
  have hgiven : Guarded (applyRan fun _ _ => 0) Given (init owners, []) labels := by
    decide +kernel
  have hresult : (run (applyRan fun _ _ => 0) (init owners, []) labels).map (fun r =>
      decide ((1, .readCallback 0) ∈ r.1.2 ∧ (1, .destroy 0) ∈ r.1.2 ∧
        (r.1.1.owners (r.1.1.conns 0).owner).kind = .server ∧
        (r.1.1.tcp 0).channel.loop = 1)) = .ok true := by
    decide +kernel
  rcases map_ok.1 hresult with ⟨⟨⟨s, ran⟩, us⟩, hrun, hfinal⟩
  rcases of_decide_eq_true hfinal with ⟨hread, hdestroy, hserver, hloop⟩
  have horder := callbacks_in_order (fun _ _ => 0) owners labels hgiven s ran us hrun 0 hserver
  rw [show (s.tcp 0).channel.loop = 1 from hloop] at horder
  exact ⟨ran, hread, hdestroy, horder⟩

end Sys

end FxServer
