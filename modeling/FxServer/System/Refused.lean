import FxServer.System.Connecting

/-!
# FxServer.System.Refused — a connect that is refused

A connection that is connecting becomes connected, or is closed by `ConnectedToPeer` because of
an error of its socket. `Destroy` shuts its socket down for writing, whichever it was.

`Destroy` asserts that the connection is disconnected, and then shuts its socket down, which
fails for one that was never connected. The state alone does not tell the two apart, the run
does.

* `step_disconnects` — where no connect is refused, a connection that is closed was connected.
* `refused_connect_survivable` — so `DisableWriting` is called only for connections that have
  been connected.
* `refused_connect_aborts` — a refused connect leads to a `DisableWriting`.
-/

namespace FxServer.Sys

open Machine

variable {files : Files} {s s₀ s₁ s' : Sys} {a : Allows} {task : Task} {input : Input}
  {here l : ℕ} {c : ConnId}

/-! ## The invariant -/

/-- What calls into a connection calls into one that has been connected: a channel that is
connecting has no read callback, and its write callback is `ConnectedToPeer`. -/
structure Introduced (s : Sys) : Prop where
  /-- what goes on with a `WriteToPeer` belongs to a connection that writes to its peer -/
  sendfile : ∀ l c n results, .sendfile c n results ∈ s.tasks l →
    c < s.nextConn ∧ (s.tcp c).channel.writeCallback = .writeToPeer
  /-- a connection that is connecting has nothing to call but `ConnectedToPeer` -/
  callbacks : ∀ c, (s.tcp c).state = .kConnecting →
    (s.tcp c).channel.readCallback = false ∧
      (s.tcp c).channel.writeCallback = .connectedToPeer

theorem init_introduced (owners : ℕ → Owner) : Introduced (init owners) := by
  constructor
  · intro l c n results htask
    cases htask
  · intro c hc
    cases hc

/-- Connections turn or are new, and `sendfile` goes on for those alone that write to a peer. -/
theorem Introduced.of_turns (h : Introduced s) (hnext : s.nextConn ≤ s'.nextConn)
    (hturn : ∀ c, (∃ task input, s.Turn task input c (s'.conns c).standing) ∨ s.nextConn ≤ c ∧
      ∃ o loop fd state, (s'.conns c).standing = (Conn.new o loop fd state).standing)
    (htasks : ∀ l c n results, .sendfile c n results ∈ s'.tasks l →
      c < s.nextConn ∧ (s.tcp c).channel.writeCallback = .writeToPeer) : Introduced s' := by
  constructor
  · intro l c n results hmem
    rcases htasks l c n results hmem with ⟨hborn, hc⟩
    rcases hturn c with ⟨task, input, hturn⟩ | ⟨hunborn, -⟩
    · exact ⟨hborn.trans_le hnext, hturn.writeToPeer hc⟩
    · exact absurd hborn (not_lt.2 hunborn)
  · -- no turn leads back to `kConnecting`, so it was connecting before, or is new
    intro c hstate
    rcases hturn c with ⟨task, input, hturn⟩ | ⟨-, o, loop, fd, state, hnew⟩
    · have hsame := hturn.of_connecting hstate
      have hconnecting : (s.tcp c).state = .kConnecting :=
        (congrArg Standing.state hsame).symm.trans hstate
      rcases h.callbacks c hconnecting with ⟨hread, hwrite⟩
      exact ⟨(congrArg Standing.readCallback hsame).trans hread,
        (congrArg Standing.writeCallback hsame).trans hwrite⟩
    · obtain rfl : state = .kConnecting := (congrArg Standing.state hnew).symm.trans hstate
      exact ⟨congrArg Standing.readCallback hnew, congrArg Standing.writeCallback hnew⟩

/-- Every task keeps what is introduced. -/
theorem exec_introduced (h : Introduced s)
    (htask : ∀ c n results, task = .sendfile c n results →
      c < s.nextConn ∧ (s.tcp c).channel.writeCallback = .writeToPeer)
    (hgiven : ∀ o, input = .user (.connectTo o) → (s.owners o).kind = .client)
    (hok : s.exec files here task input = .ok s') : Introduced s' := by
  -- every `sendfile` task was queued, was posted by this step, or is the task itself
  have hposted : ∀ l c n results, (.sendfile c n results ∈ s.tasks l ∨
      s.Fresh (.sendfile c n results) ∨ .sendfile c n results = task) →
      c < s.nextConn ∧ (s.tcp c).channel.writeCallback = .writeToPeer := by
    rintro l c n results (hmem | hfresh | hsame)
    · exact h.sendfile l c n results hmem
    · exact hfresh
    · exact htask c n results hsame.symm
  -- the step changes connections that exist, or opens one
  rcases exec_turns hgiven hok with hturned | ⟨o, loop, fd, state, s₀, s₁, hopens⟩
  · exact h.of_turns (le_of_eq hturned.nextConn.symm)
      (fun c => .inl ⟨task, input, hturned.turn c⟩)
      fun l c n results hmem => hposted l c n results (hturned.tasks hmem)
  · refine h.of_turns (hopens.nextConn ▸ Nat.le_succ _) (fun c => ?_)
      fun l c n results hmem => hposted l c n results ((hopens.tasks hmem).imp_right .inl)
    rw [hopens.standing]
    split
    · rename_i hc
      exact .inr ⟨hc.ge, o, loop, fd, state, rfl⟩
    · exact .inl ⟨task, input, .stands rfl⟩

/-! ## Steps -/

/-- No connect ends with an error, and user code closes no connection that is connecting: it has
no pointer to one. -/
def Unrefused (s : Sys) : Label → Prop
  | .exec l (.soError failed) =>
    match (s.threads l).nextTask with
    | some (.writeCallback c) =>
      (s.tcp c).channel.writeCallback = .connectedToPeer → failed = false
    | _ => True
  | .exec _ (.user (.activeClose c _)) | .exec _ (.user (.passiveClose c)) =>
    (s.tcp c).state ≠ .kConnecting
  | .exec _ (.user (.connectTo o)) => (s.owners o).kind = .client
  | _ => True

instance (s : Sys) (label : Label) : Decidable (Unrefused s label) := by
  unfold Unrefused
  split
  · split <;> infer_instance
  all_goals infer_instance

theorem Introduced.take {t : LoopThread} (h : Introduced s)
    (ht : (s.threads l).take = some (task, t)) : Introduced (s.setThread l t) := by
  refine h.of_turns (le_refl _) (fun c => .inl ⟨task, .none, .stands rfl⟩)
    fun l' c n results hmem => ?_
  rcases (Moves.take ht).1.tasks l' _ hmem with hmem | hfresh
  · exact h.sendfile l' c n results hmem
  · exact hfresh

/-- Every step without a refused connect keeps what is introduced. -/
theorem step_introduced {label : Label} (h : Introduced s) (hlabel : Unrefused s label)
    (hok : s.step files label = .ok s') : Introduced s' := by
  rcases step_turns hok with ⟨hmoves, -⟩ | ⟨l, input, task, t, rfl, ht, hexec⟩ | ⟨c, -, rfl⟩
  · refine h.of_turns (le_of_eq hmoves.nextConn.symm)
      (fun c => .inl ⟨.user none, .none, .stands (hmoves.standing c fun hc => hc)⟩)
      fun l c n results hmem => ?_
    rcases hmoves.tasks l _ hmem with hmem | hfresh
    · exact h.sendfile l c n results hmem
    · exact hfresh
  · have hmem := (Moves.take ht).2
    refine exec_introduced (h.take ht) ?_ ?_ hexec
    · rintro c n results rfl
      exact h.sendfile l c n results hmem
    · rintro o rfl
      exact hlabel
  · constructor
    · intro l c' n results hmem
      rw [destruct_tcp]
      exact h.sendfile l c' n results hmem
    · intro c' hstate
      rw [destruct_tcp] at hstate ⊢
      exact h.callbacks c' hstate

/-- A turn to a closed connection is one from a connected connection, or from a closed one. -/
theorem Turn.disconnects {x : Standing} (h : s.Turn task input c x) (hintro : Introduced s)
    (htask : ∀ n results, task = .sendfile c n results →
      (s.tcp c).channel.writeCallback = .writeToPeer)
    (hrefused : task = .writeCallback c → (s.tcp c).channel.writeCallback = .connectedToPeer →
      input ≠ .soError true)
    (huser : (∃ shutdown, input = .user (.activeClose c shutdown)) ∨
      input = .user (.passiveClose c) → (s.tcp c).state ≠ .kConnecting)
    (hx : x.state = .kDisconnected) : (s.tcp c).state ≠ .kConnecting := by
  intro hconnecting
  rcases hintro.callbacks c hconnecting with ⟨hread, hwrite⟩
  cases h with
  | stands h =>
    rw [h] at hx
    cases hconnecting.symm.trans hx
  | connects _ _ _ _ h =>
    rw [h] at hx
    cases hx
  | fails htask hinput hcallback => exact hrefused htask hcallback hinput
  | closes hclosing =>
    -- nothing calls into a connection that is connecting
    unfold Closing at hclosing
    split at hclosing
    · cases hwrite.symm.trans hclosing.2
    · obtain rfl := hclosing
      cases hwrite.symm.trans (htask _ _ rfl)
    · cases hread.symm.trans hclosing.2
    · obtain rfl := hclosing
      exact huser (.inl ⟨_, rfl⟩) hconnecting
    · obtain rfl := hclosing
      exact huser (.inr rfl) hconnecting
    · exact hclosing

/-- Where no connect is refused, a connection that is closed by a step was connected. -/
theorem step_disconnects {label : Label} (h : Introduced s) (hlabel : Unrefused s label)
    (hok : s.step files label = .ok s') (hborn : c < s'.nextConn)
    (hc : (s'.tcp c).state = .kDisconnected) :
    c < s.nextConn ∧ (s.tcp c).state ≠ .kConnecting := by
  rcases step_turns hok with ⟨hmoves, -⟩ | ⟨l, input, task, t, rfl, ht, hexec⟩ | ⟨c₁, -, rfl⟩
  · -- a step that only posts tasks
    rw [hmoves.nextConn] at hborn
    have hsame : (s'.tcp c).state = (s.tcp c).state :=
      congrArg Standing.state (hmoves.standing c fun hc => hc)
    rw [hsame] at hc
    exact ⟨hborn, fun hconnecting => by cases hconnecting.symm.trans hc⟩
  · -- a task that runs
    have hmem := (Moves.take ht).2
    have hgiven : ∀ o, input = .user (.connectTo o) →
        ((s.setThread l t).owners o).kind = .client := by
      rintro o rfl
      exact hlabel
    have hnext : (s.threads l).nextTask = some task := LoopThread.nextTask_eq.2 ⟨t, ht⟩
    rcases exec_turns hgiven hexec with hturned | ⟨o, loop, fd, state, s₀, s₁, hopens⟩
    · rw [hturned.nextConn] at hborn
      refine ⟨hborn, (hturned.turn c).disconnects (h.take ht) ?_ ?_ ?_ hc⟩
      · rintro n results rfl
        exact (h.sendfile l c n results hmem).2
      · rintro rfl hcallback rfl
        simp only [Unrefused, hnext] at hlabel
        cases hlabel hcallback
      · rintro (⟨shutdown, rfl⟩ | rfl)
        · exact hlabel
        · exact hlabel
    · -- a connection that is opened is not closed
      have hstanding := hopens.standing c
      split at hstanding
      · have hstate : (s'.tcp c).state = state := congrArg Standing.state hstanding
        rw [hc] at hstate
        rcases hopens.connects with hopened | ⟨hopened, -⟩
        · cases hstate.trans hopened
        · cases hstate.trans hopened
      · rename_i hne
        rw [hopens.nextConn] at hborn
        have hstate : (s'.tcp c).state = (s.tcp c).state := congrArg Standing.state hstanding
        rw [hc] at hstate
        refine ⟨lt_of_le_of_ne (Nat.le_of_lt_succ hborn) hne, fun hconnecting => ?_⟩
        cases hstate.trans hconnecting
  · rw [destruct_tcp] at hc
    exact ⟨hborn, fun hconnecting => by cases hconnecting.symm.trans hc⟩

/-! ## Runs -/

/-- In some state of the run, the connection is in state `kConnected`. -/
def WasConnected (files : Files) (owners : ℕ → Owner) (labels : List Label) (c : ConnId) : Prop :=
  ∃ labels' s us, labels' <+: labels ∧ run (apply files) (init owners) labels' = .ok (s, us) ∧
    c < s.nextConn ∧ (s.tcp c).state = .kConnected

/-- Having been connected is a property of the run. -/
theorem wasConnected_iff {owners : ℕ → Owner} {labels : List Label} :
    WasConnected files owners labels c ↔ ¬ Always (apply files)
      (fun s => ¬ (c < s.nextConn ∧ (s.tcp c).state = .kConnected)) (init owners) labels := by
  constructor
  · rintro ⟨labels', s, us, hprefix, hrun, hc⟩ hnever
    exact hnever labels' s us hprefix hrun hc
  · intro h
    by_contra hnone
    exact h fun labels' s us hprefix hrun hc => hnone ⟨labels', s, us, hprefix, hrun, hc⟩

/-- The connection for which the step calls `DisableWriting`: it runs `Destroy` beyond its
assertions. -/
def disablesWriting (s : Sys) : Label → Option ConnId
  | .exec l input =>
    match (s.threads l).nextTask, input with
    | some (.destroy c), _ | some (.user _), .user (.destroy c _) =>
      if s.Exists c ∧ (s.tcp c).state = .kDisconnected ∧ (s.tcp c).channel.loop = l then some c
      else none
    | _, _ => none
  | _ => none

/-- What disables writing has been closed. -/
theorem disablesWriting_state {label : Label} (h : s.disablesWriting label = some c) :
    c < s.nextConn ∧ (s.tcp c).state = .kDisconnected := by
  unfold disablesWriting at h
  split at h
  · split at h
    · split at h
      · rename_i hc
        cases h
        exact ⟨hc.1.1, hc.2.1⟩
      · cases h
    · split at h
      · rename_i hc
        cases h
        exact ⟨hc.1.1, hc.2.1⟩
      · cases h
    · cases h
  · cases h

/-- In every run of any number of loops, servers and clients, in which no asynchronous connect
ends with an error and user code closes no connection that is connecting: `DisableWriting` is
called only for connections that have been connected. -/
theorem refused_connect_survivable (files : Files) (owners : ℕ → Owner) (labels : List Label)
    (hguard : Guarded (apply files) Unrefused (init owners) labels) (s : Sys) (us : List Unit)
    (hrun : run (apply files) (init owners) labels = .ok (s, us)) (label : Label) (c : ConnId)
    (hdisables : s.disablesWriting label = some c) : WasConnected files owners labels c := by
  rw [wasConnected_iff]
  intro hnever
  have hinv : Introduced s ∧ (c < s.nextConn → (s.tcp c).state ≠ .kDisconnected) := by
    refine inv_of_run (fun s => Introduced s ∧ (c < s.nextConn → (s.tcp c).state ≠ .kDisconnected))
      ?_ ⟨init_introduced owners, fun hborn => absurd hborn (Nat.not_lt_zero c)⟩
      (hguard.and hnever.guarded) hrun
    rintro s label s' u ⟨hintro, hopen⟩ ⟨hlabel, hnot⟩ hstep
    rw [apply_ok] at hstep
    refine ⟨step_introduced hintro hlabel hstep, fun hborn hclosed => ?_⟩
    rcases step_disconnects hintro hlabel hstep hborn hclosed with ⟨hold, hconnecting⟩
    -- of three states, two are excluded, and the third is what the run never sees
    cases hstate : (s.tcp c).state with
    | kConnecting => exact hconnecting hstate
    | kConnected => exact hnot ⟨hold, hstate⟩
    | kDisconnected => exact hopen hold hstate
  rcases disablesWriting_state hdisables with ⟨hborn, hstate⟩
  exact hinv.2 hborn hstate

/-- A client connects, and the peer closes the connection. -/
def connectThenClosed : List Label := [
  .callUser 0, .exec 0 (.user (.connectTo 0)), .exec 0 (.user .ret), .run 0, .next 0,
  .poll 0 [.wakeUp], .next 0, .next 0, .next 0, .next 0, .next 0, .exec 0 (.connect 7 false),
  .next 0, .next 0, .next 0, .poll 0 [.events 7 epollOut], .exec 0 .none,
  .exec 0 (.soError false), .exec 0 (.user .ret), .exec 0 .none,
  .next 0, .next 0, .next 0, .next 0, .next 0, .poll 0 [.events 7 epollIn], .exec 0 .none,
  .exec 0 (.read (.data [])), .exec 0 .none, .next 0, .next 0, .next 0, .next 0]

/-- A connect that succeeds, and is closed later. -/
theorem refused_connect_survivable_run :
    WasConnected (fun _ _ => 0) (fun _ => .client 0) connectThenClosed 0 := by
  have hresult : (run (apply fun _ _ => 0) (init fun _ => .client 0) connectThenClosed).map
      (fun r => r.1.disablesWriting (.exec 0 (.shutdown true))) = .ok (some 0) := by
    decide +kernel
  rcases map_ok.1 hresult with ⟨⟨s, us⟩, hrun, hdisables⟩
  exact refused_connect_survivable (fun _ _ => 0) (fun _ => .client 0) connectThenClosed
    (by decide +kernel) s us hrun (.exec 0 (.shutdown true)) 0 hdisables

/-- A client connects, and the peer refuses. -/
def connectRefused : List Label := [
  .callUser 0, .exec 0 (.user (.connectTo 0)), .exec 0 (.user .ret), .run 0, .next 0,
  .poll 0 [.wakeUp], .next 0, .next 0, .next 0, .next 0, .next 0, .exec 0 (.connect 7 false),
  .next 0, .next 0, .next 0, .poll 0 [.events 7 epollOut], .exec 0 .none,
  .exec 0 (.soError true), .exec 0 .none, .next 0, .next 0, .next 0, .next 0]

/-- `ConnectedToPeer` closes the connection, and `Destroy` calls `shutdown` for a socket that was
never connected; that fails, and the process ends. -/
theorem refused_connect_aborts :
    (run (apply fun _ _ => 0) (init fun _ => .client 0) connectRefused).map
        (fun r => (r.1.disablesWriting (.exec 0 (.shutdown false)),
          (r.1.step (fun _ _ => 0) (.exec 0 (.shutdown false))).toBool)) = .ok (some 0, false) ∧
      ¬ WasConnected (fun _ _ => 0) (fun _ => .client 0) connectRefused 0 := by
  rw [wasConnected_iff, not_not]
  constructor
  · decide +kernel
  · decide +kernel

end FxServer.Sys
