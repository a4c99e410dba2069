import FxServer.EventLoopThreadPool
import FxServer.System.Refused

/-!
# FxServer.System.Dispatch — which loop a connection gets

A server asks its pool for the loop of each connection that it accepts. Between two of these
calls any number of other tasks run, in any thread.

Most tasks do not come near the pool. That is one statement about `rota`, with a lemma for each
function of the model, and the invariant has to be kept only by the task that accepts.

* `rota` — what `NextLoop` depends on; nothing but `OnNewConnection` changes it.
* `server_pools`, `nextLoop_refines` — a server that is made has the pool that `Start` leaves, and
  the server's `nextLoop` is that of the pool.
* `accepts_in_turn` — in every run, the loops of a server's connections are those of its pool, in
  turn.
-/

namespace FxServer.Sys

open Machine

variable {files : Files} {s s' : Sys} {task : Task} {input : Input} {here l o : ℕ} {c : ConnId}

/-- The loops that an owner gives its connections, and whose turn it is. -/
def rotaOf (owner : Owner) : OwnerKind × ℕ × List ℕ × ℕ :=
  (owner.kind, owner.baseLoop, owner.pool, owner.next)

/-- The number of connections, and what their owners give the next ones. -/
def rota (s : Sys) : ConnId × (ℕ → OwnerKind × ℕ × List ℕ × ℕ) :=
  (s.nextConn, fun o => rotaOf (s.owners o))

@[simp] theorem rota_setThread (s : Sys) (l : ℕ) (t : LoopThread) :
    (s.setThread l t).rota = s.rota := rfl

@[simp] theorem rota_setConn (s : Sys) (c : ConnId) (conn : Conn) :
    (s.setConn c conn).rota = s.rota := rfl

@[simp] theorem rota_setTcp (s : Sys) (c : ConnId) (k : TcpConnection) :
    (s.setTcp c k).rota = s.rota := rfl

@[simp] theorem rota_emit (s : Sys) (e : Event) : (s.emit e).rota = s.rota := rfl

@[simp] theorem rota_push (s : Sys) (l : ℕ) (task : Task) : (s.push l task).rota = s.rota := rfl

@[simp] theorem rota_queueInLoop (s : Sys) (here l : ℕ) (task : Task) :
    (s.queueInLoop here l task).rota = s.rota := rfl

@[simp] theorem rota_runInLoop (s : Sys) (here l : ℕ) (task : Task) :
    (s.runInLoop here l task).rota = s.rota := by
  unfold runInLoop
  split <;> rfl

/-- An owner whose pool is as it was. -/
theorem rota_setOwner {owner : Owner} (h : rotaOf owner = rotaOf (s.owners o)) :
    (s.setOwner o owner).rota = s.rota := by
  refine Prod.ext rfl (funext fun o' => ?_)
  by_cases ho : o' = o
  · subst ho
    simpa [rota] using h
  · simp [rota, ho]

@[simp] theorem rota_eraseConnection (s : Sys) (o fd : ℕ) :
    (s.eraseConnection o fd).rota = s.rota := rota_setOwner rfl

theorem updateChannel_rota (hok : s.updateChannel here c = .ok s') : s'.rota = s.rota := by
  rcases bind_ok.1 hok with ⟨_, -, hok⟩
  split at hok <;> (cases hok; rfl)

theorem closeCallback_rota (hok : s.closeCallback here c = .ok s') : s'.rota = s.rota := by
  rcases bind_ok.1 hok with ⟨_, -, hok⟩
  simp only at hok
  split at hok
  · cases hok
    simp
  · split at hok
    · cases hok
    · cases hok
      simp

theorem activeClose_rota {shutdown : Bool} (hok : s.activeClose here c shutdown = .ok s') :
    s'.rota = s.rota := by
  rcases bind_ok.1 hok with ⟨_, -, hok⟩
  rcases bind_ok.1 hok with ⟨k, -, hok⟩
  rcases bind_ok.1 hok with ⟨s₁, hupdate, hclose⟩
  rw [closeCallback_rota hclose, updateChannel_rota hupdate, rota_setTcp]

theorem passiveClose_rota (hok : s.passiveClose here c = .ok s') : s'.rota = s.rota := by
  rcases bind_ok.1 hok with ⟨_, -, hok⟩
  split at hok
  · cases hok
    rfl
  · rcases bind_ok.1 hok with ⟨s₁, hupdate, hok⟩
    rcases bind_ok.1 hok with ⟨s₂, hupdate', hclose⟩
    rw [closeCallback_rota hclose, updateChannel_rota hupdate', updateChannel_rota hupdate,
      rota_setTcp]

theorem closeFailed_rota {failed : Option Bool}
    (hok : s.closeFailed here c failed = .ok s') : s'.rota = s.rota := by
  unfold closeFailed at hok
  split at hok
  · exact activeClose_rota hok
  · cases hok
    rfl

theorem destroy_rota {shutdown : Bool} (hok : s.destroy here c shutdown = .ok s') :
    s'.rota = s.rota := by
  rcases destroy_ok hok with ⟨-, -, -, -, rfl⟩
  rfl

theorem connectedToPeer_rota {failed : Bool} (hok : s.connectedToPeer here c failed = .ok s') :
    s'.rota = s.rota := by
  rcases bind_ok.1 hok with ⟨_, -, hok⟩
  split at hok
  · exact activeClose_rota hok
  · rcases bind_ok.1 hok with ⟨s₁, hupdate, hok⟩
    rcases bind_ok.1 hok with ⟨s₂, hupdate', hok⟩
    rcases bind_ok.1 hok with ⟨_, -, hok⟩
    rcases bind_ok.1 hok with ⟨_, -, hok⟩
    cases hok
    rw [rota_push, updateChannel_rota hupdate', rota_setTcp, updateChannel_rota hupdate,
      rota_setTcp]

theorem userCall_rota {call : UserCall} (hok : s.userCall files here call = .ok s') :
    s'.rota = s.rota := by
  cases call with
  | write c buf =>
    rcases bind_ok.1 hok with ⟨_, -, hok⟩
    rcases bind_ok.1 hok with ⟨_, -, hok⟩
    rcases bind_ok.1 hok with ⟨k, -, hok⟩
    rw [updateChannel_rota hok, rota_setConn]
  | zeroCopyWrite | keep =>
    rcases bind_ok.1 hok with ⟨_, -, hok⟩
    cases hok
    rfl
  | startReading | connectTo =>
    rcases bind_ok.1 hok with ⟨_, -, hok⟩
    cases hok
    simp
  | activeClose c shutdown => exact activeClose_rota hok
  | passiveClose c => exact passiveClose_rota hok
  | destroy c shutdown => exact destroy_rota hok
  | destroyOwner o =>
    cases hok
    exact rota_setOwner rfl
  | drop | queueInLoop | ret =>
    cases hok
    rfl

/-- Every task but those that open a connection. -/
theorem exec_rota (haccept : ∀ o, task ≠ .newConnection o) (hconnect : ∀ o, task ≠ .connectTo o)
    (hok : s.exec files here task input = .ok s') : s'.rota = s.rota := by
  cases task with
  | newConnection o => exact absurd rfl (haccept o)
  | connectTo o => exact absurd rfl (hconnect o)
  | handleEvents c =>
    rcases bind_ok.1 hok with ⟨_, -, hok⟩
    simp only at hok
    split at hok <;> split at hok <;> (cases hok; rfl)
  | writeCallback c =>
    rcases bind_ok.1 hok with ⟨_, -, hok⟩
    split at hok
    · -- the write callback of a connection that is connecting, and that of a connected one
      exact connectedToPeer_rota hok
    · rcases bind_ok.1 hok with ⟨_, -, hok⟩
      rcases bind_ok.1 hok with ⟨⟨k, failed, rest⟩, -, hok⟩
      rw [closeFailed_rota hok, rota_push, rota_setConn]
    · cases hok
      rfl
  | sendfile c bytesToRead results =>
    rcases bind_ok.1 hok with ⟨_, -, hok⟩
    rcases bind_ok.1 hok with ⟨⟨k, failed⟩, -, hok⟩
    rw [closeFailed_rota hok, rota_push, rota_setTcp]
  | finishWrite c bytesToRead =>
    rcases bind_ok.1 hok with ⟨_, -, hok⟩
    split at hok
    · rcases bind_ok.1 hok with ⟨s₁, hupdate, hok⟩
      cases hok
      rw [rota_push, rota_emit, updateChannel_rota hupdate, rota_setTcp]
    · cases hok
      rfl
  | readCallback c =>
    rcases bind_ok.1 hok with ⟨_, -, hok⟩
    split at hok
    · split at hok
      · rcases bind_ok.1 hok with ⟨_, -, hok⟩
        split at hok
        · -- the peer closed, or sent bytes
          exact passiveClose_rota hok
        · rcases bind_ok.1 hok with ⟨k, -, hok⟩
          cases hok
          rfl
      · cases hok
        rfl
    · cases hok
      rfl
  | endEvents c =>
    rcases bind_ok.1 hok with ⟨_, -, hok⟩
    cases hok
    rfl
  | enableReading c =>
    rcases bind_ok.1 hok with ⟨_, -, hok⟩
    rw [updateChannel_rota hok, rota_setTcp]
  | handleConnectionClose o fd =>
    rcases bind_ok.1 hok with ⟨_, -, hok⟩
    split at hok
    · cases hok
    · cases hok
      simp
  | destroy c => exact destroy_rota hok
  | newConnectionCallback | closeConnectionCallback | queueDestroy =>
    cases hok
    rfl
  | startReading c =>
    cases hok
    simp
  | user u =>
    cases input with
    | user call =>
      -- the user returns, or makes a call and stays
      by_cases hret : call = .ret
      · subst hret
        cases hok
        rfl
      · rw [exec_user hret] at hok
        rw [userCall_rota hok, rota_push]
    | _ =>
      cases hok
      rfl

/-- A new connection is counted, and no pool is asked. -/
theorem addConn_rota {loop fd : ℕ} {state : TcpConnectionState}
    (hok : s.addConn o loop fd state = .ok s') : s'.rota.2 = s.rota.2 := by
  rcases bind_ok.1 hok with ⟨_, -, hok⟩
  cases hok
  rw [rota_emit]
  refine (congrArg Prod.snd (rota_setOwner ?_)).trans rfl
  rfl

/-- A client's connection goes to its own loop. -/
theorem onConnect_rota {fd : ℕ} {connected : Bool}
    (hok : s.onConnect here o fd connected = .ok s') : s'.rota.2 = s.rota.2 := by
  rcases bind_ok.1 hok with ⟨_, -, hok⟩
  split at hok
  · rcases bind_ok.1 hok with ⟨s₁, hadd, hok⟩
    cases hok
    rw [rota_push, addConn_rota hadd]
  · rcases bind_ok.1 hok with ⟨s₁, hadd, hok⟩
    rw [updateChannel_rota hok, rota_setTcp, addConn_rota hadd]

/-- The connection gets the loop whose turn it is. -/
theorem onNewConnection_rota {fd : ℕ} (hok : s.onNewConnection here o fd = .ok s') :
    ∃ loop owner, nextLoop (s.owners o) = .ok (loop, owner) ∧
      (s'.tcp s.nextConn).channel.loop = loop ∧ s'.rota.2 = (s.setOwner o owner).rota.2 := by
  rcases bind_ok.1 hok with ⟨_, -, hok⟩
  rcases bind_ok.1 hok with ⟨⟨loop, owner⟩, hnext, hok⟩
  rcases bind_ok.1 hok with ⟨s₁, hadd, hok⟩
  cases hok
  refine ⟨loop, owner, hnext, ?_, ?_⟩
  · rw [tcp, runInLoop_conns, push_conns, (addConn_ok hadd).conns]
    simp [Conn.new, TcpConnection.new]
  · rw [rota_runInLoop, rota_push, addConn_rota hadd]

/-- A step that runs no task asks no pool and opens no connection. -/
theorem step_rota {label : Label} (hok : s.step files label = .ok s')
    (hidle : ∀ l input, label = .exec l input → (s.threads l).take = none) :
    s'.rota = s.rota := by
  cases step_steps hok with
  | idle | run | wakeUp | next | callUser | destruct => rfl
  | poll l ready s₁ active _ hfill =>
    rw [rota_setThread]
    exact fillActiveChannels_keeps (P := fun s₁ => s₁.rota = s.rota) (fun _ _ _ h => h) rfl hfill
  | exec l input task t _ ht =>
    cases ht.symm.trans (hidle l input rfl)

/-! ## The connections of a server -/

/-- The loops of the connections of the owner, in the order in which they were made. -/
def accepted (s : Sys) (o : ℕ) : List ℕ :=
  ((List.range s.nextConn).filter fun c => (s.conns c).owner = o).map fun c =>
    (s.tcp c).channel.loop

/-- Whose connection it is, and in which loop. -/
def place (s : Sys) (c : ConnId) : ℕ × ℕ := ((s.conns c).owner, (s.tcp c).channel.loop)

/-- The accepted connections are read off their places. -/
theorem accepted_eq (s : Sys) (o : ℕ) :
    s.accepted o = (((List.range s.nextConn).map s.place).filter (·.1 = o)).map Prod.snd := by
  rw [List.filter_map, List.map_map]
  rfl

theorem accepted_same (hnext : s'.nextConn = s.nextConn) (hplace : s'.place = s.place) :
    s'.accepted = s.accepted := by
  funext o
  rw [accepted_eq, accepted_eq, hnext, hplace]

/-- A new connection adds its loop to those of its owner. -/
theorem accepted_opens {loop : ℕ} (hnext : s'.nextConn = s.nextConn + 1)
    (hplace : ∀ c < s.nextConn, s'.place c = s.place c)
    (hnew : s'.place s.nextConn = (o, loop)) (o' : ℕ) :
    s'.accepted o' = s.accepted o' ++ if o' = o then [loop] else [] := by
  have hmap : (List.range s.nextConn).map s'.place = (List.range s.nextConn).map s.place :=
    List.map_congr_left fun c hc => hplace c (List.mem_range.1 hc)
  rw [accepted_eq, accepted_eq, hnext, List.range_succ, List.map_append, hmap,
    List.filter_append, List.map_append, List.map_singleton, hnew]
  by_cases ho : o' = o
  · simp [ho]
  · simp [ho, Ne.symm ho]

/-! ## Whose turn it is -/

/-- The loop that the connection number `i` of a server is to get. -/
def turnOf (owner : Owner) (i : ℕ) : Option ℕ :=
  if owner.pool = [] then some owner.baseLoop else owner.pool[i % owner.pool.length]?

/-- The server and its pool, as two objects. -/
structure Pools (owner : Owner) (p : EventLoopThreadPool) : Prop where
  baseLoop : p.baseLoop = owner.baseLoop
  loops : p.loops = owner.pool.map some
  /-- the number of threads that was set last is that of the loops -/
  count : p.loopThreadCount.toNat = owner.pool.length
  next : p.next.toNat = owner.next

/-- A server whose pool is that of the threads behind `Start`. -/
theorem server_pools (baseLoop : ℕ) (count : UInt32) :
    Pools (.server baseLoop (List.range count.toNat))
      { (EventLoopThreadPool.new baseLoop).setLoopThreadCount count with
        loops := (List.range count.toNat).map some } where
  baseLoop := rfl
  loops := rfl
  count := (List.length_range).symm
  next := rfl

/-- `NextLoop` of the pool gives the server the loop that the server's model says. -/
theorem nextLoop_refines {owner : Owner} {p : EventLoopThreadPool} (h : Pools owner p) :
    match nextLoop owner with
    | .error e => p.nextLoop = .error e
    | .ok (loop, owner') => ∃ p', p.nextLoop = .ok (p', some loop) ∧ Pools owner' p' := by
  have hcount : p.loopThreadCount = 0 ↔ owner.pool = [] := by
    rw [← List.length_eq_zero_iff, ← h.count, ← UInt32.toNat_inj]
    rfl
  unfold nextLoop EventLoopThreadPool.nextLoop
  simp only [h.next, h.loops, List.getElem?_map]
  by_cases hpool : owner.pool = []
  · rw [if_pos hpool, if_pos (hcount.2 hpool)]
    exact ⟨p, by rw [h.baseLoop], h⟩
  · rw [if_neg hpool, if_neg (mt hcount.1 hpool)]
    cases hget : owner.pool[owner.next]? with
    | none => rfl
    | some loop =>
      refine ⟨_, rfl, h.baseLoop, rfl, h.count, ?_⟩
      have hlt : owner.next < owner.pool.length := (List.getElem?_eq_some_iff.1 hget).1
      -- below the number of threads the counter of 32 bits does not wrap
      have hmod : (p.next.toNat + 1) % 2 ^ 32 = p.next.toNat + 1 := by
        have := p.loopThreadCount.toNat_lt
        have := h.count
        have := h.next
        exact Nat.mod_eq_of_lt (by omega)
      have hiff := EventLoopThreadPool.succ_eq_iff p
      rw [hmod, h.next, h.count] at hiff
      simp only [hiff]
      split
      · rfl
      · rw [UInt32.toNat_add]
        exact hmod.trans (by rw [h.next])

/-! ## The invariant -/

/-- Each connection of a server has got the loop whose turn it was, and the pool stands
where the number of connections says. -/
structure Dispatched (owners : ℕ → Owner) (s : Sys) : Prop where
  /-- only clients are told to connect -/
  connects : ∀ l o, .connectTo o ∈ s.tasks l → (s.owners o).kind = .client
  /-- the loops of a server do not change -/
  fixed : ∀ o, ((s.owners o).kind, (s.owners o).baseLoop, (s.owners o).pool) =
    ((owners o).kind, (owners o).baseLoop, (owners o).pool)
  /-- the pool stands where the number of connections says -/
  next : ∀ o, (owners o).kind = .server → (owners o).pool ≠ [] →
    (s.owners o).next = (s.accepted o).length % (owners o).pool.length
  /-- and each connection has got its loop in turn -/
  accepted : ∀ o, (owners o).kind = .server →
    (s.accepted o).map some = (List.range (s.accepted o).length).map (turnOf (owners o))

theorem init_dispatched (owners : ℕ → Owner) : Dispatched owners (init owners) where
  connects l o hmem := by cases hmem
  fixed _ := rfl
  next o _ _ := (Nat.zero_mod _).symm
  accepted _ _ := rfl

/-- Nothing has been asked and nothing opened. -/
theorem Dispatched.same {owners : ℕ → Owner} (h : Dispatched owners s)
    (hrota : s'.rota = s.rota) (hplace : s'.place = s.place)
    (htasks : ∀ l o, .connectTo o ∈ s'.tasks l → (s.owners o).kind = .client) :
    Dispatched owners s' := by
  have howner : ∀ o, rotaOf (s'.owners o) = rotaOf (s.owners o) :=
    fun o => congrFun (congrArg Prod.snd hrota) o
  simp only [rotaOf, Prod.mk.injEq] at howner
  have haccepted := accepted_same (congrArg Prod.fst hrota) hplace
  constructor
  · intro l o hmem
    rw [(howner o).1]
    exact htasks l o hmem
  · intro o
    rw [(howner o).1, (howner o).2.1, (howner o).2.2.1]
    exact h.fixed o
  · intro o hserver hpool
    rw [(howner o).2.2.2, haccepted]
    exact h.next o hserver hpool
  · intro o hserver
    rw [haccepted]
    exact h.accepted o hserver

/-- A turn leaves a connection in its place. -/
theorem Turn.place {x : Standing} (h : s.Turn task input c x) :
    (x.owner, x.loop) = s.place c := by
  cases h with
  | stands h | connects _ _ _ _ h | fails _ _ _ _ _ h | closes _ _ _ h =>
    rw [h]
    rfl

theorem Turned.place (h : s.Turned task input s') : s'.place = s.place :=
  funext fun c => (h.turn c).place

/-- A client's connection, which gets no loop of a pool. -/
theorem Dispatched.connects_to {owners : ℕ → Owner} {loop : ℕ} (h : Dispatched owners s)
    (hclient : (s.owners o).kind = .client) (hrota : s'.rota.2 = s.rota.2)
    (hnext : s'.nextConn = s.nextConn + 1) (hplace : ∀ c < s.nextConn, s'.place c = s.place c)
    (hnew : s'.place s.nextConn = (o, loop))
    (htasks : ∀ l o, .connectTo o ∈ s'.tasks l → (s.owners o).kind = .client) :
    Dispatched owners s' := by
  have howner : ∀ o, rotaOf (s'.owners o) = rotaOf (s.owners o) := fun o => congrFun hrota o
  simp only [rotaOf, Prod.mk.injEq] at howner
  -- a client is no server, so no server's connections change
  have hother : ∀ o', (owners o').kind = .server → s'.accepted o' = s.accepted o' := by
    intro o' hserver
    have hne : o' ≠ o := by
      rintro rfl
      have hkind := congrArg Prod.fst (h.fixed o')
      simp only [hclient, hserver] at hkind
      cases hkind
    rw [accepted_opens hnext hplace hnew, if_neg hne, List.append_nil]
  constructor
  · intro l o hmem
    rw [(howner o).1]
    exact htasks l o hmem
  · intro o
    rw [(howner o).1, (howner o).2.1, (howner o).2.2.1]
    exact h.fixed o
  · intro o hserver hpool
    rw [(howner o).2.2.2, hother o hserver]
    exact h.next o hserver hpool
  · intro o hserver
    rw [hother o hserver]
    exact h.accepted o hserver

/-- Counting up to `m` and starting again is counting modulo `m`. -/
theorem succ_mod (n m : ℕ) (hm : 0 < m) :
    (if n % m + 1 = m then 0 else n % m + 1) = (n + 1) % m := by
  have hlt := Nat.mod_lt n hm
  have hmod : (n % m + 1) % m = (n + 1) % m := Nat.mod_add_mod ..
  rw [← hmod]
  by_cases hlast : n % m + 1 = m
  · rw [if_pos hlast, hlast, Nat.mod_self]
  · rw [if_neg hlast, Nat.mod_eq_of_lt (show n % m + 1 < m by omega)]

/-- A server's connection, which gets the loop whose turn it is. -/
theorem Dispatched.accepts {owners : ℕ → Owner} {loop : ℕ} {owner : Owner}
    (h : Dispatched owners s) (hturn : nextLoop (s.owners o) = .ok (loop, owner))
    (hrota : s'.rota.2 = (s.setOwner o owner).rota.2) (hnext : s'.nextConn = s.nextConn + 1)
    (hplace : ∀ c < s.nextConn, s'.place c = s.place c)
    (hnew : s'.place s.nextConn = (o, loop))
    (htasks : ∀ l o, .connectTo o ∈ s'.tasks l → (s.owners o).kind = .client) :
    Dispatched owners s' := by
  have hothers : ∀ o', o' ≠ o → rotaOf (s'.owners o') = rotaOf (s.owners o') := fun o' ho =>
    (congrFun hrota o').trans (by simp [rota, ho])
  have hself : rotaOf (s'.owners o) = rotaOf owner := (congrFun hrota o).trans (by simp [rota])
  -- the call changes nothing but `next_`
  obtain ⟨hkept, hnone, hsome⟩ : (owner.kind, owner.baseLoop, owner.pool) =
        ((s.owners o).kind, (s.owners o).baseLoop, (s.owners o).pool) ∧
      ((s.owners o).pool = [] → loop = (s.owners o).baseLoop) ∧
      ((s.owners o).pool ≠ [] → (s.owners o).pool[(s.owners o).next]? = some loop ∧
        owner.next = if (s.owners o).next + 1 = (s.owners o).pool.length then 0
          else (s.owners o).next + 1) := by
    unfold nextLoop at hturn
    split at hturn
    · rename_i hpool
      cases hturn
      exact ⟨rfl, fun _ => rfl, fun hne => absurd hpool hne⟩
    · rename_i hpool
      split at hturn
      · cases hturn
      · rename_i l hget
        cases hturn
        exact ⟨rfl, fun hnil => absurd hnil hpool, fun _ => ⟨hget, rfl⟩⟩
  have haccepted := accepted_opens hnext hplace hnew
  have hfixed := h.fixed o
  simp only [rotaOf, Prod.mk.injEq] at hothers hself hkept hfixed
  constructor
  · intro l o' hmem
    by_cases ho : o' = o
    · subst ho
      rw [hself.1, hkept.1]
      exact htasks l o' hmem
    · rw [(hothers o' ho).1]
      exact htasks l o' hmem
  · intro o'
    by_cases ho : o' = o
    · subst ho
      rw [hself.1, hself.2.1, hself.2.2.1, hkept.1, hkept.2.1, hkept.2.2]
      exact h.fixed o'
    · rw [(hothers o' ho).1, (hothers o' ho).2.1, (hothers o' ho).2.2.1]
      exact h.fixed o'
  · intro o' hserver hpool
    rw [haccepted]
    by_cases ho : o' = o
    · subst ho
      have hpool' : (s.owners o').pool ≠ [] := hfixed.2.2 ▸ hpool
      rw [hself.2.2.2, (hsome hpool').2, if_pos rfl, List.length_append, List.length_singleton,
        h.next o' hserver hpool, hfixed.2.2]
      exact succ_mod _ _ (List.length_pos_of_ne_nil hpool)
    · rw [(hothers o' ho).2.2.2, if_neg ho, List.append_nil]
      exact h.next o' hserver hpool
  · intro o' hserver
    rw [haccepted]
    by_cases ho : o' = o
    · subst ho
      have hlast : some loop = turnOf (owners o') (s.accepted o').length := by
        unfold turnOf
        split
        · rename_i hpool
          rw [hnone (hfixed.2.2.trans hpool), hfixed.2.1]
        · rename_i hpool
          rw [← h.next o' hserver hpool, ← hfixed.2.2]
          exact (hsome (hfixed.2.2 ▸ hpool)).1.symm
      rw [if_pos rfl, List.map_append, List.length_append, List.length_singleton, List.range_succ,
        List.map_append, h.accepted o' hserver, List.map_singleton, List.map_singleton, hlast]
    · rw [if_neg ho, List.append_nil]
      exact h.accepted o' hserver

/-! ## Steps -/

/-- User code tells a client to connect, not a server. -/
def ClientsConnect (s : Sys) : Label → Prop
  | .exec _ (.user (.connectTo o)) => (s.owners o).kind = .client
  | _ => True

/-- What is new behind a task: nothing, or a connection of the owner that the task is about. -/
theorem Opens.place {o loop fd : ℕ} {state : TcpConnectionState} {s₀ s₁ : Sys}
    (h : s.Opens here task input s' o loop fd state s₀ s₁) :
    (∀ c < s.nextConn, s'.place c = s.place c) ∧ s'.place s.nextConn = (o, loop) := by
  have hplace : ∀ (s : Sys) c, s.place c =
      ((s.conns c).standing.owner, (s.conns c).standing.loop) := fun _ _ => rfl
  constructor
  · intro c hc
    rw [hplace, hplace, h.standing, if_neg (Nat.ne_of_lt hc)]
  · rw [hplace, h.standing, if_pos rfl]
    rfl

/-- A task that waits for another input stays where it is. -/
theorem Dispatched.waits {owners : ℕ → Owner} (h : Dispatched owners s)
    (hfresh : s.Fresh task) : Dispatched owners (s.push here task) := by
  refine h.same rfl rfl fun l o hmem => ?_
  rcases ((Moves.refl s.plain s).push hfresh).tasks l _ hmem with hmem | hfresh
  · exact h.connects l o hmem
  · exact hfresh

/-- What a step that opens a connection posts is no `ConnectTo` of a server. -/
theorem Dispatched.connects_of_opens {owners : ℕ → Owner} {o loop fd : ℕ}
    {state : TcpConnectionState} {s₀ s₁ : Sys} (h : Dispatched owners s)
    (hopens : s.Opens here task input s' o loop fd state s₀ s₁) (l o' : ℕ)
    (hmem : .connectTo o' ∈ s'.tasks l) : (s.owners o').kind = .client := by
  rcases hopens.tasks hmem with hmem | hfresh
  · exact h.connects l o' hmem
  · exact hfresh

/-- Accepting takes the next loop in turn. -/
theorem newConnection_dispatched {owners : ℕ → Owner} (h : Dispatched owners s)
    (hok : s.exec files here (.newConnection o) input = .ok s') : Dispatched owners s' := by
  cases input with
  | accept fd =>
    simp only [exec] at hok
    split at hok
    · cases hok
      -- the task waits for an `accept` that gives a fresh descriptor
      exact h.waits trivial
    · rename_i hfd
      rcases onNewConnection_rota hok with ⟨loop, owner, hturn, hloop, hrota⟩
      rcases onNewConnection_opens hfd hok with ⟨loop', state, s₀, s₁, hopens⟩
      have hnew := hopens.place.2
      obtain rfl : loop' = loop := (congrArg Prod.snd hnew).symm.trans hloop
      exact h.accepts hturn hrota hopens.nextConn hopens.place.1 hnew
        (h.connects_of_opens hopens)
  | _ =>
    cases hok
    exact h.waits trivial

/-- Connecting takes no loop out of turn. -/
theorem connectTo_dispatched {owners : ℕ → Owner} (h : Dispatched owners s)
    (hclient : (s.owners o).kind = .client)
    (hok : s.exec files here (.connectTo o) input = .ok s') : Dispatched owners s' := by
  cases input with
  | connect fd connected =>
    simp only [exec] at hok
    split at hok
    · cases hok
      -- the task waits for a `connect` that gives a fresh descriptor
      exact h.waits hclient
    · rename_i hfd
      rcases onConnect_opens hfd hok with ⟨loop, state, s₀, s₁, hopens⟩
      exact h.connects_to hclient (onConnect_rota hok) hopens.nextConn hopens.place.1
        hopens.place.2 (h.connects_of_opens hopens)
  | connectFailed =>
    rcases bind_ok.1 hok with ⟨_, -, hok⟩
    cases hok
    exact h
  | _ =>
    cases hok
    exact h.waits hclient

/-- Every task keeps the turns. -/
theorem exec_dispatched {owners : ℕ → Owner} (h : Dispatched owners s)
    (htask : ∀ o, task = .connectTo o → (s.owners o).kind = .client)
    (hgiven : ∀ o, input = .user (.connectTo o) → (s.owners o).kind = .client)
    (hok : s.exec files here task input = .ok s') : Dispatched owners s' := by
  by_cases haccept : ∃ o, task = .newConnection o
  · rcases haccept with ⟨o, rfl⟩
    exact newConnection_dispatched h hok
  by_cases hconnect : ∃ o, task = .connectTo o
  · rcases hconnect with ⟨o, rfl⟩
    exact connectTo_dispatched h (htask o rfl) hok
  -- no other task opens a connection
  have hrota := exec_rota (fun o heq => haccept ⟨o, heq⟩) (fun o heq => hconnect ⟨o, heq⟩) hok
  rcases exec_turns hgiven hok with hturned | ⟨o, loop, fd, state, s₀, s₁, hopens⟩
  · refine h.same hrota hturned.place fun l o hmem => ?_
    rcases hturned.tasks hmem with hmem | hfresh | hsame
    · exact h.connects l o hmem
    · exact hfresh
    · exact htask o hsame.symm
  · have hnext : s'.nextConn = s.nextConn := congrArg Prod.fst hrota
    rw [hopens.nextConn] at hnext
    exact absurd hnext (Nat.succ_ne_self _)

/-- Every step keeps the turns. -/
theorem step_dispatched {owners : ℕ → Owner} (s : Sys) (label : Label) (s' : Sys) (u : Unit)
    (h : Dispatched owners s) (hlabel : ClientsConnect s label)
    (hok : apply files s label = .ok (s', u)) : Dispatched owners s' := by
  rcases bind_ok.1 hok with ⟨s₁, hstep, hret⟩
  obtain rfl : s₁ = s' := congrArg Prod.fst (Except.ok.inj hret)
  rcases step_turns hstep with ⟨hmoves, hidle⟩ | ⟨l, input, task, t, rfl, ht, hexec⟩ |
    ⟨c, rfl, hs'⟩
  · refine h.same (step_rota hstep hidle) (funext fun c => ?_) fun l o hmem => ?_
    · have hstanding := hmoves.standing c fun hc => hc
      exact congrArg (fun x => (Standing.owner x, Standing.loop x)) hstanding
    · rcases hmoves.tasks l _ hmem with hmem | hfresh
      · exact h.connects l o hmem
      · exact hfresh
  · rcases Moves.take ht with ⟨htake, hmem⟩
    -- the task is taken from its loop before it runs
    have hdispatched : Dispatched owners (s.setThread l t) := by
      refine h.same rfl rfl fun l' o hmem' => ?_
      rcases htake.tasks l' _ hmem' with hmem' | hfresh
      · exact h.connects l' o hmem'
      · exact hfresh
    refine exec_dispatched hdispatched ?_ ?_ hexec
    · rintro o rfl
      exact h.connects l o hmem
    · rintro o rfl
      exact hlabel
  · subst hs'
    refine h.same rfl (funext fun c' => ?_) fun l o hmem => h.connects l o hmem
    rw [place, place, destruct_tcp]
    by_cases hc : c' = c
    · subst hc
      simp
    · simp [hc]

/-- In every run in which user code tells only clients to connect, whatever the loops and their
threads do in between: the connections of a server, in the order in which it accepted them, are
on the loops of its pool in turn, and on the base loop when the pool is empty. -/
theorem accepts_in_turn (owners : ℕ → Owner) (labels : List Label) (s : Sys) (outs : List Unit)
    (hguard : Guarded (apply files) ClientsConnect (init owners) labels)
    (hrun : run (apply files) (init owners) labels = .ok (s, outs)) (o : ℕ)
    (hserver : (owners o).kind = .server) :
    (s.accepted o).map some = (List.range (s.accepted o).length).map (turnOf (owners o)) :=
  (inv_of_run (Dispatched owners) step_dispatched (init_dispatched owners) hguard hrun).accepted o
    hserver

/-- A server with two loop threads, and three connections. -/
theorem accepts_in_turn_three :
    ∃ s : Sys, s.accepted 0 = [1, 2, 1] ∧ (s.accepted 0).map some =
      (List.range (s.accepted 0).length).map (turnOf (.server 0 [1, 2])) := by
  let owners : ℕ → Owner := fun _ => .server 0 [1, 2]
  let labels : List Label := [
    .run 0, .next 0, .poll 0 [.accept 0], .exec 0 (.accept 7), .exec 0 .none,
    .next 0, .next 0, .next 0, .next 0, .next 0, .poll 0 [.accept 0], .exec 0 (.accept 8),
    .exec 0 .none, .next 0, .next 0, .next 0, .next 0, .next 0, .poll 0 [.accept 0],
    .exec 0 (.accept 9)]
  have hresult : (run (apply fun _ _ => 0) (init owners) labels).map (fun r =>
      r.1.accepted 0) = .ok [1, 2, 1] := by
    decide +kernel
  rcases map_ok.1 hresult with ⟨⟨s, us⟩, hrun, hfinal⟩
  exact ⟨s, hfinal, accepts_in_turn owners labels s us
    (Guarded.of_forall (by simp [labels, ClientsConnect]) _) hrun 0 rfl⟩

end FxServer.Sys
