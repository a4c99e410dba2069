import Mathlib.Data.Prod.Lex
import FxServer.EventLoop.Timeout
import FxServer.Loop

/-!
# FxServer.EventLoop.Iterations — what is called in which iteration, and how `Run` ends

The loop of `EventLoop.WakeUp` with its counter `iteration_`, the two halves of `Quit` in
another thread, and what has been queued and called.

The first result needs a ledger: which functors were queued, in which iteration each was due, and
which were called when. The second needs a rank: once `quit_` is set each step of `Run` lowers
it, and what other threads do in between leaves it alone.

* `calls_in_order` — every functor that is queued is called once, in the order of the queue, in
  an iteration that is fixed when it is queued: the present one as long as the pending functors
  have not been swapped out, and the next one after that.
* `quit_ends_run` — once `quit_` is set no iteration begins, a loop that waits in `Poll` is
  woken, and `Run` returns after finitely many of its steps, whatever is queued meanwhile.
-/

namespace FxServer

open Machine

variable {H F : Type}

namespace Phase

/-- The iteration in which a functor is called that is queued now. -/
def due : Phase H F → ℕ → ℕ
  | .handling _, iteration | .period, iteration => iteration
  | _, iteration => iteration + 1

/-- The functors that `CallPendingFunctors` has swapped out and not called yet. -/
def batch : Phase H F → List F
  | .calling rest => rest
  | _ => []

/-- What is added to `iteration_` on the way from one phase to another. -/
def returned : Phase H F → Phase H F → ℕ
  | .polling, .handling _ => 1
  | _, _ => 0

/-- Whether `Run` waits in `Poll`, as a number of iterations to come. -/
def waits : Phase H F → ℕ
  | .polling => 1
  | _ => 0

/-- How far `Run` is from its end, once `quit_` is set: the phases to come, and what is left of
the loop of the present one. -/
def rank : Phase H F → ℕ ×ₗ ℕ
  | .exited => toLex (0, 0)
  | .head => toLex (1, 0)
  | .idle | .timers => toLex (2, 0)
  | .calling rest => toLex (3, rest.length)
  | .period => toLex (4, 0)
  | .handling rest => toLex (5, rest.length)
  | .polling => toLex (6, 0)

end Phase

namespace EventLoop

namespace Op

/-- What the step pushes. -/
def queues (l : EventLoop H F) : Op H F → List F
  | .queueInLoop f => if l.inUserCode then [f] else []
  | .push f => [f]
  | _ => []

/-- A `Quit` without `WakeUp` is called by user code in the loop thread. -/
def mayRun (l : EventLoop H F) : Op H F → Bool
  | .quit => l.inUserCode
  | _ => true

/-- The steps of `Run` itself. -/
def ofRun : Op H F → Bool
  | .run | .next | .poll _ | .handle | .call => true
  | .queueInLoop _ | .quit | .push _ | .pushed | .wakeUp => false

end Op

/-- The step that `Run` takes next; `Poll` reports `active`. -/
def nextOp (active : List (Handler H)) : Phase H F → Op H F
  | .idle => .run
  | .polling => .poll active
  | .handling (_ :: _) => .handle
  | .calling (_ :: _) => .call
  | _ => .next

/-- No iteration is added but the one that `Poll` is waiting for, unless `Run` goes into
`Poll`. -/
theorem Moves.waits {p p' : Phase H F} (h : Moves p p') (hpoll : p' = .polling → p = .polling) :
    p.returned p' + p'.waits ≤ p.waits := by
  cases h with
  | stay => cases p <;> simp [Phase.returned, Phase.waits]
  | poll => cases hpoll rfl
  | start | exit | wakeUp | handled | period | functors | called | timers | around =>
    simp [Phase.returned, Phase.waits]

/-- The loop and the threads around it, with an account of the functors. -/
structure Journal (H F : Type) where
  threads : Threads H F
  /-- the threads that have set `quit_` in `Quit` and have not called `WakeUp` yet -/
  quitters : ℕ
  /-- `iteration_` -/
  iteration : ℕ
  /-- the functors that were queued, each with the iteration in which it is due -/
  queued : List (F × ℕ)
  /-- the functors that were called, each with the iteration of the call -/
  called : List (F × ℕ)
deriving DecidableEq, Repr

namespace Journal

def new : Journal H F := ⟨init, 0, 0, [], []⟩

def phase (s : Journal H F) : Phase H F := s.threads.loop.phase

/-- A step of the loop or of another thread. -/
inductive Op (H F : Type) where
  | loop (op : EventLoop.Op H F)
  /-- user code in the loop thread calls `RunInLoop` -/
  | runInLoop (f : F)
  /-- another thread sets `quit_` in `Quit` -/
  | quits
  /-- and calls `WakeUp` in it -/
  | quitted
deriving DecidableEq, Repr

/-- One step, and the functor it calls; a step that is not enabled changes nothing. -/
def step (s : Journal H F) : Op H F → Except Fault (Journal H F × Option F)
  | .loop op =>
    if op.mayRun s.threads.loop then do
      let (threads, called) ← EventLoop.step s.threads op
      .ok ({ s with
        threads
        iteration := s.iteration + s.phase.returned threads.loop.phase
        queued := s.queued ++ (op.queues s.threads.loop).map (·, s.phase.due s.iteration)
        called := s.called ++ called.toList.map (·, s.iteration) }, called)
    else .ok (s, none)
  | .runInLoop f => .ok (s, if s.threads.loop.inUserCode then some f else none)
  | .quits =>
    .ok ({ s with
      threads := { s.threads with loop := { s.threads.loop with quit := true } }
      quitters := s.quitters + 1 }, none)
  | .quitted =>
    if 0 < s.quitters then
      .ok ({ s with
        threads := { s.threads with loop := s.threads.loop.wakeUp }
        quitters := s.quitters - 1 }, none)
    else .ok (s, none)

/-! ## One step of the loop -/

/-- What a step does about functors: it pushes, swaps the list out, calls the next functor, or
takes `Run` to a phase in which what is pending is due in the same iteration. -/
inductive Turn (t t' : Threads H F) : List F → Option F → Prop
  | stays (fs) (phase : t'.loop.phase = t.loop.phase)
    (functors : t'.loop.functors = t.loop.functors ++ fs) : Turn t t' fs none
  | swaps (before : t.loop.phase = .period) (after : t'.loop.phase = .calling t.loop.functors)
    (functors : t'.loop.functors = []) : Turn t t' [] none
  | calls (f rest) (before : t.loop.phase = .calling (f :: rest))
    (after : t'.loop.phase = .calling rest)
    (functors : t'.loop.functors = t.loop.functors) : Turn t t' [] (some f)
  | passes (functors : t'.loop.functors = t.loop.functors) (before : t.loop.phase.batch = [])
    (after : t'.loop.phase.batch = [])
    (due : ∀ iteration, t'.loop.phase.due (iteration + t.loop.phase.returned t'.loop.phase) =
      t.loop.phase.due iteration) : Turn t t' [] none

theorem queueInLoop_functors (l : EventLoop H F) (inLoopThread : Bool) (f : F) :
    (l.queueInLoop inLoopThread f).functors = l.functors ++ [f] := by
  unfold queueInLoop
  split <;> rfl

/-- A phase step of the loop calls nothing and queues nothing. -/
theorem next_turn (t : Threads H F) : Turn t { t with loop := t.loop.next } [] none := by
  unfold next
  split
  all_goals
    rename_i hphase
  · split
    · exact .passes rfl (by rw [hphase]; rfl) rfl fun _ => by rw [hphase]; rfl
    · exact .passes rfl (by rw [hphase]; rfl) rfl fun _ => by rw [hphase]; rfl
  · exact .passes rfl (by rw [hphase]; rfl) rfl fun _ => by rw [hphase]; rfl
  · exact .swaps hphase rfl rfl
  · exact .passes rfl (by rw [hphase]; rfl) rfl fun _ => by rw [hphase]; rfl
  · exact .passes rfl (by rw [hphase]; rfl) rfl fun _ => by rw [hphase]; rfl
  · exact .stays [] rfl (List.append_nil _).symm

/-- What one step can do to the functors: call the next of the batch, swap the queue, or
queue behind it. -/
theorem step_turn {t t' : Threads H F} {op : EventLoop.Op H F} {called : Option F}
    (hok : EventLoop.step t op = .ok (t', called)) : Turn t t' (op.queues t.loop) called := by
  have hstay : Turn t t [] none := .stays [] rfl (List.append_nil _).symm
  cases op with
  | run =>
    simp only [EventLoop.step] at hok
    split at hok
    · rename_i hphase
      cases hok
      exact .passes rfl (by rw [hphase]; rfl) rfl fun _ => by rw [hphase]; rfl
    · cases hok
      exact hstay
  | next =>
    cases hok
    exact next_turn t
  | poll active =>
    simp only [EventLoop.step] at hok
    split at hok
    · rename_i hphase
      split at hok
      · -- `iteration_` goes up, and what was due in the next iteration is due in this one
        cases hok
        exact .passes rfl (by rw [hphase]; rfl) rfl fun _ => by rw [hphase]; rfl
      · cases hok
        exact hstay
    · cases hok
      exact hstay
  | handle =>
    simp only [EventLoop.step] at hok
    split at hok
    all_goals
      rename_i hphase
      cases hok
    · exact .passes rfl (by rw [hphase]; rfl) rfl fun _ => by rw [hphase]; rfl
    · exact .passes rfl (by rw [hphase]; rfl) rfl fun _ => by rw [hphase]; rfl
    · exact hstay
  | call =>
    simp only [EventLoop.step] at hok
    split at hok
    · rename_i f rest hphase
      cases hok
      exact .calls f rest hphase rfl rfl
    · cases hok
      exact hstay
  | queueInLoop f =>
    simp only [EventLoop.step] at hok
    simp only [Op.queues]
    split at hok
    · rename_i huser
      cases hok
      rw [if_pos huser]
      exact .stays [f] (queueInLoop_fields _ _ _).1 (queueInLoop_functors _ _ _)
    · rename_i huser
      cases hok
      rw [if_neg huser]
      exact hstay
  | push f =>
    cases hok
    exact .stays [f] rfl rfl
  | pushed =>
    simp only [EventLoop.step] at hok
    split at hok
    · cases hok
      exact .stays [] rfl (List.append_nil _).symm
    · cases hok
      exact hstay
  | quit | wakeUp =>
    cases hok
    exact .stays [] rfl (List.append_nil _).symm

/-! ## What is called, and when -/

/-- Every functor that was queued has been called in the iteration in which it was due, is one
of those that are being called, or is pending. -/
def Accounts (s : Journal H F) : Prop :=
  s.queued = s.called ++ s.phase.batch.map (·, s.iteration) ++
    s.threads.loop.functors.map (·, s.phase.due s.iteration)

/-- Each such turn keeps the account of what was queued and what was called. -/
theorem Turn.accounts {s : Journal H F} {t : Threads H F} {fs : List F} {called : Option F}
    (h : s.Accounts) (hturn : Turn s.threads t fs called) :
    Accounts { s with
      threads := t
      iteration := s.iteration + s.phase.returned t.loop.phase
      queued := s.queued ++ fs.map (·, s.phase.due s.iteration)
      called := s.called ++ called.toList.map (·, s.iteration) } := by
  simp only [Accounts, phase] at h ⊢
  cases hturn with
  | stays _ hphase hfunctors =>
    have hreturned : ∀ p : Phase H F, p.returned p = 0 := fun p => by cases p <;> rfl
    -- the new functors are queued behind the others, due with them
    rw [hphase, hfunctors, h, hreturned]
    simp
  | swaps hbefore hafter hfunctors =>
    rw [hbefore] at h
    rw [hbefore, hafter, hfunctors, h]
    -- the whole queue becomes the batch of this iteration
    simp [Phase.batch, Phase.due, Phase.returned]
  | calls f rest hbefore hafter hfunctors =>
    rw [hbefore] at h
    rw [hbefore, hafter, hfunctors, h]
    -- the head of the batch goes over to what was called
    simp [Phase.batch, Phase.due, Phase.returned]
  | passes hfunctors hbefore hafter hdue =>
    rw [hbefore] at h
    rw [hafter, hfunctors, hdue, h]
    simp

/-- The account balances after every step. -/
theorem step_accounts (s : Journal H F) (op : Op H F) (s' : Journal H F) (out : Option F)
    (h : s.Accounts) (_ : True) (hok : step s op = .ok (s', out)) : s'.Accounts := by
  cases op with
  | loop op =>
    simp only [step] at hok
    split at hok
    · rcases bind_ok.1 hok with ⟨⟨t, called⟩, hstep, hok⟩
      cases hok
      -- the only steps that queue or call anything
      exact (step_turn hstep).accounts h
    · cases hok
      exact h
  | quitted =>
    simp only [step] at hok
    split at hok
    · cases hok
      exact h
    · cases hok
      exact h
  | runInLoop | quits =>
    cases hok
    exact h

/-- What has not been called yet is not due in an earlier iteration. -/
theorem Accounts.due_of_not_called {s : Journal H F} (h : s.Accounts) :
    s.called <+: s.queued ∧ ∀ p ∈ s.queued.drop s.called.length, s.iteration ≤ p.2 := by
  have hdue : ∀ p : Phase H F, s.iteration ≤ p.due s.iteration := fun p => by
    cases p <;> simp [Phase.due]
  rw [Accounts, List.append_assoc] at h
  refine ⟨⟨_, h.symm⟩, fun p hp => ?_⟩
  rw [h, List.drop_left, List.mem_append] at hp
  rcases hp with hp | hp
  · rcases List.mem_map.1 hp with ⟨f, -, rfl⟩
    exact Nat.le_refl _
  · rcases List.mem_map.1 hp with ⟨f, -, rfl⟩
    exact hdue _

/-- A loop that waits in `Poll` although `quit_` is set is woken. -/
def Woken (s : Journal H F) : Prop :=
  s.phase = .polling → s.threads.loop.quit = true →
    0 < s.threads.loop.wakeUps ∨ 0 < s.quitters

/-- The loop does not go into `Poll` with `quit_` set, and in `Poll` nothing is read. -/
theorem step_polling {t t' : Threads H F} {op : EventLoop.Op H F} {called : Option F}
    (hmay : op.mayRun t.loop = true) (hok : EventLoop.step t op = .ok (t', called))
    (hpoll : t'.loop.phase = .polling) (hquit : t'.loop.quit = true) :
    t.loop.phase = .polling ∧ t.loop.quit = true ∧ t.loop.wakeUps ≤ t'.loop.wakeUps := by
  cases op with
  | run =>
    simp only [EventLoop.step] at hok
    split at hok
    · cases hok
      cases hpoll
    · cases hok
      exact ⟨hpoll, hquit, Nat.le_refl _⟩
  | next =>
    cases hok
    simp only [next] at hpoll hquit ⊢
    split at hpoll
    · -- from the head of the loop into `Poll`, but only with `quit_` unset
      split at hpoll <;> simp_all
    · cases hpoll
    · cases hpoll
    · cases hpoll
    · cases hpoll
    · simp_all
  | poll active =>
    simp only [EventLoop.step] at hok
    split at hok
    · rename_i hphase
      split at hok
      · cases hok
        cases hpoll
      · cases hok
        exact ⟨hpoll, hquit, Nat.le_refl _⟩
    · cases hok
      exact ⟨hpoll, hquit, Nat.le_refl _⟩
  | handle =>
    simp only [EventLoop.step] at hok
    split at hok
    · cases hok
      cases hpoll
    · cases hok
      cases hpoll
    · cases hok
      exact ⟨hpoll, hquit, Nat.le_refl _⟩
  | call =>
    simp only [EventLoop.step] at hok
    split at hok
    · cases hok
      cases hpoll
    · cases hok
      exact ⟨hpoll, hquit, Nat.le_refl _⟩
  | queueInLoop f =>
    simp only [EventLoop.step] at hok
    split at hok
    · rename_i huser
      cases hok
      -- the loop thread queues in user code only, so not while it polls
      have hpoll : (t.loop.queueInLoop true f).phase = .polling := hpoll
      rw [(queueInLoop_fields _ _ _).1] at hpoll
      simp [inUserCode, hpoll] at huser
    · cases hok
      exact ⟨hpoll, hquit, Nat.le_refl _⟩
  | quit =>
    cases hok
    have hpoll : t.loop.phase = .polling := hpoll
    -- nor does it call `Quit` there
    simp [EventLoop.Op.mayRun, inUserCode, hpoll] at hmay
  | push f =>
    cases hok
    exact ⟨hpoll, hquit, Nat.le_refl _⟩
  | pushed =>
    simp only [EventLoop.step] at hok
    split at hok
    · cases hok
      exact ⟨hpoll, hquit, Nat.le_succ _⟩
    · cases hok
      exact ⟨hpoll, hquit, Nat.le_refl _⟩
  | wakeUp =>
    cases hok
    exact ⟨hpoll, hquit, Nat.le_succ _⟩

/-- A loop that waits in `Poll` with `quit_` set stays woken. -/
theorem step_woken (s : Journal H F) (op : Op H F) (s' : Journal H F) (out : Option F)
    (h : s.Woken) (_ : True) (hok : step s op = .ok (s', out)) : s'.Woken := by
  intro hpoll hquit
  cases op with
  | loop op =>
    simp only [step] at hok
    split at hok
    · rename_i hmay
      rcases bind_ok.1 hok with ⟨⟨t, called⟩, hstep, hok⟩
      cases hok
      rcases step_polling hmay hstep hpoll hquit with ⟨hpoll, hquit, hle⟩
      -- no step of the loop takes a wake-up back while it polls
      exact (h hpoll hquit).imp_left hle.trans_lt'
    · cases hok
      exact h hpoll hquit
  | quits =>
    cases hok
    -- `quit_` is set now, and the caller still has its wake-up to write
    exact .inr (Nat.succ_pos _)
  | quitted =>
    simp only [step] at hok
    split at hok
    · cases hok
      -- and here it has written it
      exact .inl (Nat.succ_pos _)
    · cases hok
      exact h hpoll hquit
  | runInLoop f =>
    cases hok
    exact h hpoll hquit

/-- The calls of other threads and of user code. -/
def Op.ofOthers : Op H F → Bool
  | .loop op => !op.ofRun
  | .runInLoop _ | .quits | .quitted => true

/-- The loop, unless `Run` has returned. -/
def running (s : Journal H F) : Option (Journal H F) :=
  match s.phase with
  | .exited => none
  | _ => some s

/-- Any number of calls of other threads and of user code, and one step of `Run` behind them. -/
def round (s : Journal H F) (turn : List (Op H F) × List (Handler H)) :
    Except Fault (Option (Journal H F)) := do
  let (s, _) ← Machine.run step s turn.1
  let (s, _) ← step s (.loop (nextOp turn.2 s.phase))
  .ok s.running

/-- The calls of a round are those of other threads and of user code, and behind them `Poll`
reports the wake-up channel only if it can be read. -/
def allows (s : Journal H F) (turn : List (Op H F) × List (Handler H)) : Prop :=
  (∀ op ∈ turn.1, op.ofOthers = true) ∧
    ∀ s' outs, Machine.run step s turn.1 = .ok (s', outs) →
      turn.2.countP Handler.isWakeUp ≤ min 1 s'.threads.loop.wakeUps

/-- No step of the loop can fail. -/
theorem step_total (s : Journal H F) (op : Op H F) : ∃ s' out, step s op = .ok (s', out) := by
  cases op with
  | loop op =>
    have hstep : ∃ t out, EventLoop.step s.threads op = .ok (t, out) := by
      cases op with
      | run | poll | handle | call | queueInLoop | pushed =>
        simp only [EventLoop.step]
        repeat' split
        all_goals exact ⟨_, _, rfl⟩
      | next | quit | push | wakeUp => exact ⟨_, _, rfl⟩
    rcases hstep with ⟨t, out, hstep⟩
    simp only [step, hstep, ok_bind]
    split
    · exact ⟨_, _, rfl⟩
    · exact ⟨_, _, rfl⟩
  | runInLoop | quits => exact ⟨_, _, rfl⟩
  | quitted =>
    simp only [step]
    split
    · exact ⟨_, _, rfl⟩
    · exact ⟨_, _, rfl⟩

/-- The calls of others leave `Run` where it is. -/
theorem step_others {t t' : Threads H F} {op : EventLoop.Op H F} {called : Option F}
    (hop : op.ofRun = false) (hok : EventLoop.step t op = .ok (t', called)) :
    t'.loop.phase = t.loop.phase := by
  cases op with
  | run | next | poll | handle | call => cases hop
  | queueInLoop f =>
    simp only [EventLoop.step] at hok
    split at hok
    · cases hok
      exact (queueInLoop_fields _ _ _).1
    · cases hok
      rfl
  | pushed =>
    simp only [EventLoop.step] at hok
    split at hok
    · cases hok
      rfl
    · cases hok
      rfl
  | quit | push | wakeUp =>
    cases hok
    rfl

/-- `quit_` is never reset. -/
theorem step_quit {t t' : Threads H F} {op : EventLoop.Op H F} {called : Option F}
    (hquit : t.loop.quit = true) (hok : EventLoop.step t op = .ok (t', called)) :
    t'.loop.quit = true := by
  cases op with
  | next =>
    cases hok
    simp only [next]
    split
    · split <;> exact hquit
    all_goals exact hquit
  | queueInLoop f =>
    simp only [EventLoop.step] at hok
    split at hok
    · cases hok
      simp only [queueInLoop]
      split <;> exact hquit
    · cases hok
      exact hquit
  | poll active =>
    simp only [EventLoop.step] at hok
    split at hok
    · split at hok <;> (cases hok; exact hquit)
    · cases hok
      exact hquit
  | run | handle | call | pushed =>
    simp only [EventLoop.step] at hok
    split at hok <;> (cases hok; exact hquit)
  | quit =>
    cases hok
    rfl
  | push | wakeUp =>
    cases hok
    exact hquit

/-- With `quit_` set every step of `Run` brings it nearer to its end. -/
theorem nextOp_rank {t t' : Threads H F} {active : List (Handler H)} {called : Option F}
    (hquit : t.loop.quit = true) (hphase : t.loop.phase ≠ .exited)
    (hactive : active.countP Handler.isWakeUp ≤ min 1 t.loop.wakeUps)
    (hok : EventLoop.step t (nextOp active t.loop.phase) = .ok (t', called)) :
    t'.loop.quit = true ∧ t'.loop.phase.rank < t.loop.phase.rank := by
  cases hp : t.loop.phase with
  | exited => exact absurd hp hphase
  | idle =>
    simp only [hp, nextOp, EventLoop.step] at hok
    cases hok
    exact ⟨hquit, Prod.Lex.left _ _ (by decide)⟩
  | head =>
    simp only [hp, nextOp, EventLoop.step, next, if_pos hquit] at hok
    cases hok
    -- with `quit_` set the head of the loop is left for the end of `Run`
    exact ⟨hquit, Prod.Lex.left _ _ (by decide)⟩
  | polling =>
    simp only [hp, nextOp, EventLoop.step, if_pos hactive] at hok
    cases hok
    exact ⟨hquit, Prod.Lex.left _ _ (by decide)⟩
  | handling rest =>
    cases rest with
    | nil =>
      simp only [hp, nextOp, EventLoop.step, next] at hok
      cases hok
      exact ⟨hquit, Prod.Lex.left _ _ (by decide)⟩
    | cons h rest =>
      cases h
      all_goals
        simp only [hp, nextOp, EventLoop.step] at hok
        cases hok
        -- one handler fewer, in the same phase
        exact ⟨hquit, Prod.Lex.right _ (Nat.lt_succ_self _)⟩
  | period =>
    simp only [hp, nextOp, EventLoop.step, next] at hok
    cases hok
    exact ⟨hquit, Prod.Lex.left _ _ (by decide)⟩
  | calling rest =>
    cases rest with
    | nil =>
      simp only [hp, nextOp, EventLoop.step, next] at hok
      cases hok
      exact ⟨hquit, Prod.Lex.left _ _ (by decide)⟩
    | cons f rest =>
      simp only [hp, nextOp, EventLoop.step] at hok
      cases hok
      -- one functor fewer
      exact ⟨hquit, Prod.Lex.right _ (Nat.lt_succ_self _)⟩
  | timers =>
    simp only [hp, nextOp, EventLoop.step, next] at hok
    cases hok
    exact ⟨hquit, Prod.Lex.left _ _ (by decide)⟩

/-- `quit_` is never reset, and with `quit_` set no step adds an iteration but the one that
`Poll` is waiting for. -/
theorem step_iteration (s : Journal H F) (op : Op H F) (s' : Journal H F) (out : Option F)
    (hquit : s.threads.loop.quit = true) (_ : True) (hok : step s op = .ok (s', out)) :
    s'.threads.loop.quit = true ∧
      s'.iteration + s'.phase.waits ≤ s.iteration + s.phase.waits := by
  cases op with
  | loop op =>
    simp only [step] at hok
    split at hok
    · rename_i hmay
      rcases bind_ok.1 hok with ⟨⟨t, called⟩, hstep, hok⟩
      cases hok
      have hquit' := step_quit hquit hstep
      -- an iteration begins where `Poll` is entered, which no step does any more
      have hpoll := fun hpoll => (step_polling hmay hstep hpoll hquit').1
      have hwaits := (step_moves hstep).waits hpoll
      refine ⟨hquit', ?_⟩
      simp only [phase]
      omega
    · cases hok
      exact ⟨hquit, Nat.le_refl _⟩
  | quits =>
    cases hok
    exact ⟨rfl, Nat.le_refl _⟩
  | quitted =>
    simp only [step] at hok
    split at hok
    · cases hok
      exact ⟨hquit, Nat.le_refl _⟩
    · cases hok
      exact ⟨hquit, Nat.le_refl _⟩
  | runInLoop f =>
    cases hok
    exact ⟨hquit, Nat.le_refl _⟩

/-- A step of another thread does not move the loop. -/
theorem other_stays {s s' : Journal H F} {op : Op H F} {out : Option F}
    (hop : op.ofOthers = true) (hok : step s op = .ok (s', out)) : s'.phase = s.phase := by
  cases op with
  | loop op =>
    have hop : op.ofRun = false := by simpa [Op.ofOthers] using hop
    simp only [step] at hok
    split at hok
    · rcases bind_ok.1 hok with ⟨⟨t, called⟩, hstep, hok⟩
      cases hok
      exact step_others hop hstep
    · cases hok
      rfl
  | quitted =>
    simp only [step] at hok
    split at hok
    · cases hok
      rfl
    · cases hok
      rfl
  | runInLoop | quits =>
    cases hok
    rfl

/-- Nor do any number of them, and `quit_` stays set. -/
theorem others_stay {s : Journal H F} {ops : List (Op H F)}
    (hothers : ∀ op ∈ ops, op.ofOthers = true) (hquit : s.threads.loop.quit = true) :
    ∃ s' outs, Machine.run step s ops = .ok (s', outs) ∧ s'.phase = s.phase ∧
      s'.threads.loop.quit = true := by
  have hstep : ∀ (s₁ : Journal H F) (op : Op H F),
      s₁.phase = s.phase ∧ s₁.threads.loop.quit = true → op.ofOthers = true →
      ∃ s₂ out, step s₁ op = .ok (s₂, out) ∧ s₂.phase = s.phase ∧
        s₂.threads.loop.quit = true := by
    rintro s₁ op ⟨hphase, hquit₁⟩ hop
    rcases step_total s₁ op with ⟨s₂, out, hok⟩
    exact ⟨s₂, out, hok, (other_stays hop hok).trans hphase,
      (step_iteration s₁ op s₂ out hquit₁ trivial hok).1⟩
  exact run_of_inv _ hstep ⟨rfl, hquit⟩ (Guarded.of_forall (fun op hmem _ => hothers op hmem) _)

/-- The step that `Run` takes next, as a step of the journal. -/
theorem step_nextOp (s : Journal H F) (active : List (Handler H)) :
    ∃ t called s', EventLoop.step s.threads (nextOp active s.phase) = .ok (t, called) ∧
      step s (.loop (nextOp active s.phase)) = .ok (s', called) ∧ s'.threads = t := by
  have hmay : (nextOp active s.phase).mayRun s.threads.loop = true := by
    unfold nextOp
    split <;> rfl
  rcases step_total s (.loop (nextOp active s.phase)) with ⟨s', out, hok⟩
  have hok' := hok
  rw [step, if_pos hmay] at hok'
  rcases bind_ok.1 hok' with ⟨⟨t, called⟩, hstep, hok'⟩
  cases hok'
  exact ⟨t, out, _, hstep, hok, rfl⟩

theorem running_eq_some {s s' : Journal H F} (h : s.running = some s') :
    s' = s ∧ s.phase ≠ .exited := by
  unfold running at h
  split at h
  · cases h
  · rename_i hphase
    exact ⟨(Option.some.inj h).symm, hphase⟩

/-- A loop that has left `Run` stays out of it. -/
theorem next_exited {t t' : Threads H F} {called : Option F} (h : t.loop.phase = .exited)
    (hok : EventLoop.step t .next = .ok (t', called)) : t'.loop.phase = .exited := by
  cases hok
  simp only [next, h]

/-- Once `quit_` is set every round succeeds and brings the loop nearer to its exit. -/
theorem round_rank (s : Journal H F) (turn : List (Op H F) × List (Handler H))
    (hquit : s.threads.loop.quit = true) (hallows : allows s turn) :
    ∃ after, round s turn = .ok after ∧
      ∀ s', after = some s' → s'.threads.loop.quit = true ∧ s'.phase.rank < s.phase.rank := by
  rcases others_stay hallows.1 hquit with ⟨s₁, outs, hrun, hphase, hquit₁⟩
  rcases step_nextOp s₁ turn.2 with ⟨t, called, s₂, hstep, hok, rfl⟩
  refine ⟨s₂.running, by simp only [round, hrun, ok_bind, hok], fun s' hs' => ?_⟩
  rcases running_eq_some hs' with ⟨rfl, hrunning⟩
  have hactive := hallows.2 s₁ outs hrun
  rw [← hphase]
  refine nextOp_rank hquit₁ (fun hexited => hrunning ?_) hactive hstep
  -- a loop that has returned stays where it is
  rw [show s₁.phase = .exited from hexited] at hstep
  exact next_exited hexited hstep

end Journal

end EventLoop

end FxServer
