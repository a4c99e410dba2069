import FxServer.Fifo
import FxServer.System.Effect

/-!
# FxServer.System.Posted — tasks that are posted in order

When two tasks must come in order, the first is posted to the loop of a connection, and the
second behind it, by a third that may run in another loop.

The lemma that counts is `Posted.take`: when the last of the three is taken, the first has run.
The others say that this is kept by whatever is posted or taken besides.

* `Posted` — where the three can be until the first has run.
* `Spares A s s'` — from one state to the next, nothing is posted but tasks of `A`.
-/

namespace FxServer.Sys

variable {s s' s'' : Sys} {here l loop : ℕ} {c : ConnId} {task : Task}

/-- What is left to do in the thread of the loop `l`. -/
def tasks (s : Sys) (l : ℕ) : List Task := (s.threads l).tasks

theorem tasks_setThread (s : Sys) (l : ℕ) (t : LoopThread) (l' : ℕ) :
    (s.setThread l t).tasks l' = if l' = l then t.tasks else s.tasks l' := by
  unfold tasks
  by_cases hl : l' = l
  · subst hl
    simp
  · simp [hl]

theorem tasks_push (s : Sys) (l : ℕ) (task : Task) (l' : ℕ) :
    (s.push l task).tasks l' = if l' = l then task :: s.tasks l' else s.tasks l' := by
  unfold push
  rw [tasks_setThread]
  split
  · rename_i hl
    rw [LoopThread.tasks_push, hl, tasks]
  · rfl

theorem tasks_queueInLoop (s : Sys) (here l : ℕ) (task : Task) (l' : ℕ) :
    (s.queueInLoop here l task).tasks l' =
      if l' = l then s.tasks l' ++ [task] else s.tasks l' := by
  unfold queueInLoop
  rw [tasks_setThread]
  split
  · rename_i hl
    rw [LoopThread.tasks_queueInLoop, hl, tasks]
  · rfl

theorem runInLoop_of_ne (hl : here ≠ l) (s : Sys) (task : Task) :
    s.runInLoop here l task = s.queueInLoop here l task := if_neg hl

/-! ## Two tasks that are posted one behind the other -/

/-- `first` is for the loop `loop`, and `mid` posts `last` behind it. -/
structure Posted (s : Sys) (loop : ℕ) (first mid last : Task) : Prop where
  /-- the first and the last wait in their loop only -/
  firstLoop : ∀ l, first ∈ s.tasks l → l = loop
  lastLoop : ∀ l, last ∈ s.tasks l → l = loop
  /-- the one that posts may wait in another loop, and then the first is already queued -/
  midBehind : ∀ l, mid ∈ s.tasks l → l ≠ loop → first ∈ s.tasks loop
  /-- in its loop neither of the two is ahead of the first -/
  ahead : Fifo.Ahead first (fun task => task = mid ∨ task = last) (s.tasks loop)

section Posted

variable {first mid last : Task}

/-- Where none of the three is queued, they are in order. -/
theorem Posted.of_absent (hfirst : ∀ l, first ∉ s.tasks l) (hmid : ∀ l, mid ∉ s.tasks l)
    (hlast : ∀ l, last ∉ s.tasks l) : Posted s loop first mid last where
  firstLoop l hmem := absurd hmem (hfirst l)
  lastLoop l hmem := absurd hmem (hlast l)
  midBehind l hmem := absurd hmem (hmid l)
  ahead := by
    refine Fifo.ahead_of_forall ?_
    rintro task hmem (rfl | rfl)
    · exact hmid loop hmem
    · exact hlast loop hmem

/-- Other tasks may come and go. -/
theorem Posted.congr (h : Posted s loop first mid last)
    (hsame : ∀ p : Task → Bool,
      (∀ task, task ≠ first → task ≠ mid → task ≠ last → p task = false) →
      ∀ l, (s'.tasks l).filter p = (s.tasks l).filter p) : Posted s' loop first mid last := by
  let p : Task → Bool := fun task => task = first ∨ task = mid ∨ task = last
  have hp := hsame p fun task h₁ h₂ h₃ => by simp [p, h₁, h₂, h₃]
  have hmem : ∀ l task, p task = true → (task ∈ s'.tasks l ↔ task ∈ s.tasks l) := by
    intro l task htask
    -- the three tasks are in the filtered queue, whatever else is not
    have hiff : task ∈ (s'.tasks l).filter p ↔ task ∈ (s.tasks l).filter p := by rw [hp l]
    simpa [List.mem_filter, htask] using hiff
  have hfirst : p first = true := by simp [p]
  have hlater : ∀ a, a = mid ∨ a = last → p a = true := by
    intro a ha
    simp [p, ha]
  constructor
  case firstLoop => exact fun l hl => h.firstLoop l ((hmem l _ hfirst).1 hl)
  case lastLoop => exact fun l hl => h.lastLoop l ((hmem l _ (hlater _ (.inr rfl))).1 hl)
  case midBehind =>
    intro l hl hne
    exact (hmem loop _ hfirst).2 (h.midBehind l ((hmem l _ (hlater _ (.inl rfl))).1 hl) hne)
  case ahead =>
    rw [← Fifo.ahead_filter hfirst hlater, hp loop, Fifo.ahead_filter hfirst hlater]
    exact h.ahead

/-- In its own loop the callback is the next task. -/
theorem Posted.post_here (h : Posted s here first mid last) :
    Posted ((s.push here mid).runInLoop here here first) here first mid last := by
  have htasks : ∀ l, ((s.push here mid).runInLoop here here first).tasks l =
      if l = here then first :: mid :: s.tasks l else s.tasks l := by
    intro l
    unfold runInLoop
    rw [if_pos rfl, tasks_push, tasks_push]
    split <;> rfl
  constructor
  case firstLoop =>
    intro l hmem
    by_contra hl
    rw [htasks, if_neg hl] at hmem
    exact hl (h.firstLoop l hmem)
  case lastLoop =>
    intro l hmem
    by_contra hl
    rw [htasks, if_neg hl] at hmem
    exact hl (h.lastLoop l hmem)
  case midBehind =>
    intro l _ _
    rw [htasks, if_pos rfl]
    exact List.mem_cons_self
  -- in the loop's own thread both are called at once, the first before the second
  case ahead =>
    rw [htasks, if_pos rfl]
    exact .inl rfl

/-- For another loop it is the last in the queue. -/
theorem Posted.post_away (h : Posted s loop first mid last) (hl : here ≠ loop)
    (hmid : first ≠ mid) (hlast : first ≠ last) (hne : mid ≠ last) :
    Posted ((s.push here mid).runInLoop here loop first) loop first mid last := by
  have htasks : ∀ l, ((s.push here mid).runInLoop here loop first).tasks l =
      if l = loop then s.tasks l ++ [first] else if l = here then mid :: s.tasks l
        else s.tasks l := by
    intro l
    rw [runInLoop_of_ne hl, tasks_queueInLoop, tasks_push]
    by_cases hloop : l = loop
    · subst hloop
      simp [Ne.symm hl]
    · simp [hloop]
  constructor
  case firstLoop =>
    intro l hmem
    by_contra hloop
    rw [htasks, if_neg hloop] at hmem
    split at hmem
    · exact hloop (h.firstLoop l ((List.mem_cons.1 hmem).resolve_left hmid))
    · exact hloop (h.firstLoop l hmem)
  case lastLoop =>
    intro l hmem
    by_contra hloop
    rw [htasks, if_neg hloop] at hmem
    split at hmem
    · exact hloop (h.lastLoop l ((List.mem_cons.1 hmem).resolve_left (Ne.symm hne)))
    · exact hloop (h.lastLoop l hmem)
  case midBehind =>
    intro l _ _
    rw [htasks, if_pos rfl]
    exact List.mem_append_right _ List.mem_cons_self
  -- `first` goes behind what the other loop has queued, and `mid` stays in this one
  case ahead =>
    rw [htasks, if_pos rfl]
    exact h.ahead.append fun hlater => absurd hlater (not_or.2 ⟨hmid, hlast⟩)

/-- The callback is posted, and on the stack behind it the task that posts the other one. -/
theorem Posted.post (h : Posted s loop first mid last) (hmid : first ≠ mid) (hlast : first ≠ last)
    (hne : mid ≠ last) :
    Posted ((s.push here mid).runInLoop here loop first) loop first mid last := by
  by_cases hl : here = loop
  · subst hl
    exact h.post_here
  · exact h.post_away hl hmid hlast hne

/-- The other one is queued, behind the callback. -/
theorem Posted.queueInLoop (h : Posted s loop first mid last) (hfirst : first ∈ s.tasks loop) :
    Posted (s.queueInLoop here loop last) loop first mid last := by
  constructor
  case firstLoop =>
    intro l hmem
    by_contra hl
    rw [tasks_queueInLoop, if_neg hl] at hmem
    exact hl (h.firstLoop l hmem)
  case lastLoop =>
    intro l hmem
    by_contra hl
    rw [tasks_queueInLoop, if_neg hl] at hmem
    exact hl (h.lastLoop l hmem)
  case midBehind =>
    intro l _ _
    rw [tasks_queueInLoop, if_pos rfl]
    exact List.mem_append_left _ hfirst
  -- `last` goes to the end of the queue that `first` is in
  case ahead =>
    rw [tasks_queueInLoop, if_pos rfl]
    exact h.ahead.append fun _ => hfirst

/-- A task is taken that is not the callback: the one that posts runs elsewhere, with the
callback still waiting, and the other one does not run. -/
theorem Posted.take {t : LoopThread} (h : Posted s loop first mid last)
    (ht : (s.threads here).take = some (task, t)) (htask : task ≠ first) :
    Posted (s.setThread here t) loop first mid last ∧ task ≠ last ∧
      (task = mid → here ≠ loop ∧ first ∈ (s.setThread here t).tasks loop) := by
  have htasks : s.tasks here = task :: t.tasks := LoopThread.take_tasks ht
  have hmem : ∀ l task', task' ∈ (s.setThread here t).tasks l → task' ∈ s.tasks l := by
    intro l task' hmem
    rw [tasks_setThread] at hmem
    split at hmem
    · rename_i hl
      rw [hl, htasks]
      exact List.mem_cons_of_mem _ hmem
    · exact hmem
  have hfirst : first ∈ s.tasks loop → first ∈ (s.setThread here t).tasks loop := by
    intro hmem
    rw [tasks_setThread]
    split
    · rename_i hl
      rw [hl, htasks] at hmem
      exact (List.mem_cons.1 hmem).resolve_left (Ne.symm htask)
    · exact hmem
  -- the head of the loop's own tasks is neither of the two
  have hhead : here = loop → ¬ (task = mid ∨ task = last) := by
    rintro rfl
    have hahead := h.ahead
    rw [htasks] at hahead
    exact hahead.head htask
  refine ⟨⟨?_, ?_, ?_, ?_⟩, ?_, ?_⟩
  · exact fun l hl => h.firstLoop l (hmem l _ hl)
  · exact fun l hl => h.lastLoop l (hmem l _ hl)
  · exact fun l hl hne => hfirst (h.midBehind l (hmem l _ hl) hne)
  · rw [tasks_setThread]
    split
    · rename_i hl
      have hahead := h.ahead
      rw [hl, htasks] at hahead
      exact hahead.tail htask
    · exact h.ahead
  · rintro rfl
    have hl := h.lastLoop here (by rw [htasks]; exact List.mem_cons_self)
    exact hhead hl (.inr rfl)
  · rintro rfl
    have hl : here ≠ loop := fun hl => hhead hl (.inl rfl)
    exact ⟨hl, hfirst (h.midBehind here (by rw [htasks]; exact List.mem_cons_self) hl)⟩

end Posted

/-! ## What a step leaves alone -/

/-- No connection is added, and nothing is posted but tasks of `A`. Channels are registered
only for connections whose events `A` allows. -/
structure Spares (A : Task → Prop) (s s' : Sys) : Prop where
  nextConn : s'.nextConn = s.nextConn
  kind : ∀ o, (s'.owners o).kind = (s.owners o).kind
  connections : ∀ o fd c, (s'.owners o).connections fd = some c →
    (s.owners o).connections fd = some c
  owner : ∀ c, (s'.conns c).owner = (s.conns c).owner
  loop : ∀ c, (s'.tcp c).channel.loop = (s.tcp c).channel.loop
  tasks : ∀ p : Task → Bool, (∀ task, A task → p task = false) → ∀ l,
    (s'.tasks l).filter p = (s.tasks l).filter p
  channels : ∀ l fd c, (s'.threads l).channels fd = some c →
    (s.threads l).channels fd = some c ∨ A (.handleEvents c)

section Spares

variable {A : Task → Prop}

theorem Spares.refl (A : Task → Prop) (s : Sys) : Spares A s s :=
  ⟨rfl, fun _ => rfl, fun _ _ _ h => h, fun _ => rfl, fun _ => rfl, fun _ _ _ => rfl,
    fun _ _ _ h => .inl h⟩

theorem Spares.trans (h : Spares A s s') (h' : Spares A s' s'') : Spares A s s'' where
  nextConn := h'.nextConn.trans h.nextConn
  kind o := (h'.kind o).trans (h.kind o)
  connections o fd c hc := h.connections o fd c (h'.connections o fd c hc)
  owner c := (h'.owner c).trans (h.owner c)
  loop c := (h'.loop c).trans (h.loop c)
  tasks p hp l := (h'.tasks p hp l).trans (h.tasks p hp l)
  channels l fd c hc := by
    rcases h'.channels l fd c hc with hc | hA
    · exact h.channels l fd c hc
    · exact .inr hA

theorem Spares.mono {A' : Task → Prop} (h : Spares A s s') (hA : ∀ task, A task → A' task) :
    Spares A' s s' where
  nextConn := h.nextConn
  kind := h.kind
  connections := h.connections
  owner := h.owner
  loop := h.loop
  tasks p hp l := h.tasks p (fun task htask => hp task (hA task htask)) l
  channels l fd c hc := (h.channels l fd c hc).imp_right (hA _)

/-- A task outside `A` that waits has been waiting. -/
theorem Spares.mem (h : Spares A s s') (hA : ¬ A task) (hmem : task ∈ s'.tasks l) :
    task ∈ s.tasks l := by
  have hsame := h.tasks (fun task' => task' = task) (fun task' hA' => by
    have hne : task' ≠ task := fun heq => hA (heq ▸ hA')
    simp [hne]) l
  have hiff : task ∈ (s'.tasks l).filter (fun task' => task' = task) ↔
      task ∈ (s.tasks l).filter (fun task' => task' = task) := by rw [hsame]
  simpa [hmem] using hiff

/-- A loop may change in the tasks that are not spared. -/
theorem Spares.setThread {t : LoopThread} (h : Spares A s s')
    (htasks : ∀ p : Task → Bool, (∀ task, A task → p task = false) →
      t.tasks.filter p = (s'.tasks l).filter p)
    (hchannels : ∀ fd c, t.channels fd = some c →
      (s'.threads l).channels fd = some c ∨ A (.handleEvents c)) :
    Spares A s (s'.setThread l t) := by
  refine h.trans ⟨rfl, fun _ => rfl, fun _ _ _ hc => hc, fun _ => rfl, fun _ => rfl, ?_, ?_⟩
  · intro p hp l'
    rw [tasks_setThread]
    split
    · rename_i hl
      rw [hl, htasks p hp]
    · rfl
  · intro l' fd c hc
    by_cases hl : l' = l
    · subst hl
      exact hchannels fd c (by simpa using hc)
    · exact .inl (by simpa [hl] using hc)

theorem Spares.push (h : Spares A s s') (hA : A task) : Spares A s (s'.push l task) := by
  refine h.setThread (fun p hp => ?_) fun _ _ hc => .inl hc
  rw [LoopThread.tasks_push, List.filter_cons_of_neg (by simp [hp task hA])]
  rfl

theorem Spares.queueInLoop (h : Spares A s s') (hA : A task) :
    Spares A s (s'.queueInLoop here l task) := by
  refine h.setThread (fun p hp => ?_) fun _ _ hc => .inl hc
  rw [LoopThread.tasks_queueInLoop, List.filter_append,
    List.filter_cons_of_neg (by simp [hp task hA]), List.filter_nil, List.append_nil]
  rfl

theorem Spares.runInLoop (h : Spares A s s') (hA : A task) :
    Spares A s (s'.runInLoop here l task) := by
  unfold Sys.runInLoop
  split
  · exact h.push hA
  · exact h.queueInLoop hA

theorem Spares.emit {e : Event} (h : Spares A s s') : Spares A s (s'.emit e) :=
  ⟨h.nextConn, h.kind, h.connections, h.owner, h.loop, h.tasks, h.channels⟩

theorem Spares.setConn {conn : Conn} (h : Spares A s s')
    (howner : conn.owner = (s'.conns c).owner)
    (hloop : conn.tcp.channel.loop = (s'.tcp c).channel.loop) :
    Spares A s (s'.setConn c conn) := by
  refine h.trans ⟨rfl, fun _ => rfl, fun _ _ _ hc => hc, fun c' => ?_, fun c' => ?_,
    fun _ _ _ => rfl, fun _ _ _ hc => .inl hc⟩
  all_goals
    by_cases hc : c' = c
    · subst hc
      simpa [tcp]
    · simp [tcp, hc]

theorem Spares.setTcp {k : TcpConnection} (h : Spares A s s')
    (hloop : k.channel.loop = (s'.tcp c).channel.loop) : Spares A s (s'.setTcp c k) :=
  h.setConn rfl hloop

/-- An owner keeps its kind and gets no new entries. -/
theorem Spares.setOwner {o : ℕ} {owner : Owner} (h : Spares A s s')
    (hkind : owner.kind = (s'.owners o).kind)
    (htable : ∀ fd c, owner.connections fd = some c →
      (s'.owners o).connections fd = some c) : Spares A s (s'.setOwner o owner) := by
  refine h.trans ⟨rfl, fun o' => ?_, fun o' fd c hc => ?_, fun _ => rfl, fun _ => rfl,
    fun _ _ _ => rfl, fun _ _ _ hc => .inl hc⟩
  all_goals
    by_cases ho : o' = o
    · subst ho
      simp_all
    · simp_all

theorem Spares.eraseConnection {o fd : ℕ} (h : Spares A s s') :
    Spares A s (s'.eraseConnection o fd) := by
  refine h.setOwner rfl fun fd' c hc => ?_
  by_cases hfd : fd' = fd
  · subst hfd
    simp at hc
  · simpa [hfd] using hc

/-- Registering a channel is for its own events. -/
theorem Spares.updateChannel (h : Spares A s s') (hA : A (.handleEvents c))
    (hok : s'.updateChannel here c = .ok s'') : Spares A s s'' := by
  rcases bind_ok.1 hok with ⟨_, -, hok⟩
  split at hok
  · cases hok
    refine Spares.emit (h.setThread (fun _ _ => rfl) ?_)
    intro fd c' hc'
    have hentry : Function.update (s'.threads here).channels (s'.tcp c).channel.fd (some c) fd =
        some c' := hc'
    by_cases heq : fd = (s'.tcp c).channel.fd
    · subst heq
      rw [Function.update_self] at hentry
      obtain rfl := Option.some.inj hentry
      exact .inr hA
    · rw [Function.update_of_ne heq] at hentry
      exact .inl hentry
  · cases hok
    exact h.emit

/-- `Destroy` queues nothing. -/
theorem Spares.destroy {shutdown : Bool} (h : Spares A s s')
    (hok : s'.destroy here c shutdown = .ok s'') :
    Spares A s s'' := by
  rcases destroy_ok hok with ⟨-, -, -, -, rfl⟩
  refine Spares.emit (h.setThread (fun _ _ => rfl) ?_)
  intro fd c' hc'
  have hentry : Function.update (s'.threads here).channels (s'.tcp c).channel.fd none fd =
      some c' := hc'
  by_cases heq : fd = (s'.tcp c).channel.fd
  · subst heq
    rw [Function.update_self] at hentry
    cases hentry
  · rw [Function.update_of_ne heq] at hentry
    exact .inl hentry

theorem fillActiveChannels_spares {ready : List Ready} {active : List (Handler Task)}
    (hok : s.fillActiveChannels l ready = .ok (s', active)) : Spares A s s' :=
  fillActiveChannels_keeps (fun _ _ _ h => h.setTcp (by rfl)) (Spares.refl A s) hok

/-- `Posted` of other tasks than those that are posted. -/
theorem Posted.of_spares {A : Task → Prop} {first mid last : Task}
    (h : s.Posted loop first mid last) (hspares : Spares A s s') (hfirst : ¬ A first)
    (hmid : ¬ A mid) (hlast : ¬ A last) : s'.Posted loop first mid last := by
  refine h.congr fun p hp l => hspares.tasks p (fun task htask => hp task ?_ ?_ ?_) l
  all_goals
    rintro rfl
    contradiction

end Spares

end FxServer.Sys
