import Mathlib.Algebra.BigOperators.Group.List.Basic
import FxServer.Basic
import FxServer.Machine

/-!
# FxServer.EventLoopThreadPool — the threads of a server, and whose turn it is

The model of `src/src/fx_event_loop_thread.cc` and `src/src/fx_event_loop_thread_pool.cc`. A
pointer to an event loop is a number, or nothing for `NULL`; the loop that the thread `i` makes on
its stack is `i`. What is done with `mutex_` locked is one step; `notify_one` and the `return` of
`StartLoop` come behind the mutex and are steps of their own. A wait may end by itself.

`Start` and the threads meet once for each thread, at `loop_`. The invariant says for each thread
where it can be, given where `StartLoop` is; a step changes one thread, or the one that calls
`Start`. That nothing gets stuck is a count of the steps that are left.

* `start_hands_out_loops` — whatever the order of the steps: `Start` gets the loop of each thread,
  never `NULL`, and it cannot get stuck.
* `nextLoop_survives_iff` — `NextLoop` can be called for ever exactly when the number of threads
  that was set last fits the loops there are.
* `nextLoop_round_robin` — then the loops are handed out in turn.
-/

namespace FxServer

/-- The fields of a pool. Nothing keeps a `NULL` out of `loops_` but what `StartLoop`
returns. -/
structure EventLoopThreadPool where
  baseLoop : ℕ
  loopThreadCount : UInt32
  next : UInt32
  loops : List (Option ℕ)
deriving DecidableEq, Repr

namespace EventLoopThreadPool

open Machine

def new (baseLoop : ℕ) : EventLoopThreadPool := ⟨baseLoop, 0, 0, []⟩

/-- `SetLoopThreadCount`, which can be called at any time, and does not look at the loops
there are. -/
def setLoopThreadCount (p : EventLoopThreadPool) (loopThreadCount : UInt32) :
    EventLoopThreadPool :=
  { p with loopThreadCount }

/-- `NextLoop`, and the pool behind it -/
def nextLoop (p : EventLoopThreadPool) : Except Fault (EventLoopThreadPool × Option ℕ) :=
  if p.loopThreadCount = 0 then .ok (p, some p.baseLoop)
  else
    let idx := p.next.toNat
    let next := if p.next + 1 = p.loopThreadCount then 0 else p.next + 1
    match p.loops[idx]? with
    | none => .error .assertion
    | some loop => .ok ({ p with next }, loop)

/-! ## Start -/

/-- Where a thread is in `CreateLoopAndRun`. -/
inductive ThreadPc where
  | unborn
  /-- at the assertion -/
  | entered
  /-- the loop is on the stack, and `loop_` does not point to it yet -/
  | constructed
  /-- `loop_` is set; `notify_one` comes next -/
  | stored
  /-- in `loop_->Run()` -/
  | running
deriving DecidableEq, Repr

/-- Where `StartLoop` is, in the thread that calls `Start`. -/
inductive StartLoopPc where
  | spawning
  /-- at the test of `loop_`, at first or behind `wait` -/
  | testing
  | waiting
  | returning
deriving DecidableEq, Repr

/-- `loop_` has been set. -/
def ThreadPc.hasStored : ThreadPc → Bool
  | .stored | .running => true
  | .unborn | .entered | .constructed => false

/-- Where the thread can be that `StartLoop` starts. -/
def StartLoopPc.Fits : StartLoopPc → ThreadPc → Prop
  | .spawning, pc => pc = .unborn
  | .testing, pc => pc ≠ .unborn
  -- a thread that has called `notify_one` leaves nobody waiting
  | .waiting, pc => pc ≠ .unborn ∧ pc ≠ .running
  | .returning, pc => pc.hasStored = true

/-- More than the steps that the thread has left: `StartLoop` may have to test again. -/
def ThreadPc.left : ThreadPc → ℕ
  | .unborn | .entered => 4
  | .constructed => 3
  | .stored => 2
  | .running => 0

/-- The steps that `StartLoop` has taken, of `4`. -/
def StartLoopPc.taken : StartLoopPc → ℕ
  | .spawning => 0
  | .testing => 1
  | .waiting => 2
  | .returning => 3

/-- One thread of the pool: where it is, and `loop_`. -/
structure EventLoopThread where
  loop : Option ℕ
  pc : ThreadPc
deriving DecidableEq, Repr

/-- `Start` and the threads that it creates. -/
structure Starting where
  pool : EventLoopThreadPool
  threads : List EventLoopThread
  startLoop : StartLoopPc
  /-- history: the steps that were taken, without wake-ups that nobody caused -/
  moves : ℕ
  /-- history: these wake-ups -/
  spurious : ℕ
deriving DecidableEq, Repr

namespace Starting

/-- `Start` behind `threads_.reset`. -/
def new (baseLoop : ℕ) (loopThreadCount : UInt32) : Starting where
  pool := (EventLoopThreadPool.new baseLoop).setLoopThreadCount loopThreadCount
  threads := List.replicate loopThreadCount.toNat ⟨none, .unborn⟩
  startLoop := .spawning
  moves := 0
  spurious := 0

/-- The loop variable of `Start`. -/
def idx (s : Starting) : ℕ := s.pool.loops.length

/-- A step of one of the threads. -/
inductive Op where
  /-- the thread that calls `Start` -/
  | start
  | thread (i : ℕ)
  | spurious
deriving DecidableEq, Repr

def setThread (s : Starting) (i : ℕ) (t : EventLoopThread) : Starting :=
  { s with threads := s.threads.set i t, moves := s.moves + 1 }

def moveStart (s : Starting) (startLoop : StartLoopPc) : Starting :=
  { s with startLoop, moves := s.moves + 1 }

/-- A step of `StartLoop` for the thread `t`. -/
def stepStart (s : Starting) (t : EventLoopThread) : Except Fault Starting :=
  match s.startLoop with
  | .spawning => do
    check (t.pc = .unborn)
    .ok { s.setThread s.idx { t with pc := .entered } with startLoop := .testing }
  | .testing =>
    match t.loop with
    | none => .ok (s.moveStart .waiting)
    | some _ => .ok (s.moveStart .returning)
  | .waiting => .ok s
  | .returning =>
    .ok { s.moveStart .spawning with pool := { s.pool with loops := s.pool.loops ++ [t.loop] } }

/-- A step of the thread `i`. -/
def stepThread (s : Starting) (i : ℕ) (t : EventLoopThread) : Except Fault Starting :=
  match t.pc with
  | .unborn | .running => .ok s
  | .entered => do
    check (t.loop = none)
    .ok (s.setThread i { t with pc := .constructed })
  | .constructed => .ok (s.setThread i ⟨some i, .stored⟩)
  | .stored => do
    let startLoop := if s.startLoop = .waiting ∧ i = s.idx then .testing else s.startLoop
    -- the pointer is used behind `notify_one`
    check (t.loop ≠ none)
    .ok { s.setThread i { t with pc := .running } with startLoop }

/-- One step; a step that is not enabled changes nothing. -/
def step (s : Starting) : Op → Except Fault (Starting × Unit)
  | .start =>
    match s.threads[s.idx]? with
    | none => .ok (s, ())
    | some t => (s.stepStart t).map (·, ())
  | .thread i =>
    match s.threads[i]? with
    | none => .ok (s, ())
    | some t => (s.stepThread i t).map (·, ())
  | .spurious =>
    match s.startLoop with
    | .waiting => .ok ({ s with startLoop := .testing, spurious := s.spurious + 1 }, ())
    | _ => .ok (s, ())

/-! ## The invariant -/

/-- What holds of the thread `i` while `Start` is at `idx`. -/
structure Fits (idx : ℕ) (startLoop : StartLoopPc) (i : ℕ) (t : EventLoopThread) : Prop where
  /-- the thread has stored the loop on its stack, or nothing yet -/
  loop : t.loop = if t.pc.hasStored then some i else none
  /-- a thread that has been waited for has stored its loop -/
  earlier : i < idx → t.pc.hasStored = true
  /-- the thread that is waited for is where `StartLoop` can have left it -/
  current : i = idx → startLoop.Fits t.pc
  /-- the others have not been created -/
  later : idx < i → t.pc = .unborn

/-- The steps that the threads have left, all together. -/
def left (threads : List EventLoopThread) : ℕ := (threads.map fun t => t.pc.left).sum

/-- What holds while `Start` runs: each thread fits where `Start` is, the loops got so far
are those of the first threads, and the steps taken and left are bounded. -/
structure Inv (pool : EventLoopThreadPool) (count : ℕ) (s : Starting) : Prop where
  length : s.threads.length = count
  idx_le : s.idx ≤ count
  /-- `loops_` has the loops of the threads that have been waited for -/
  pool : s.pool = { pool with loops := (List.range s.idx).map some }
  /-- each thread is where `Start` lets it be -/
  threads : ∀ i t, s.threads[i]? = some t → Fits s.idx s.startLoop i t
  /-- `Start` has returned from the last `StartLoop` -/
  done : s.idx = count → s.startLoop = .spawning
  /-- every step uses up one of those that are left, and a spurious wake-up gives one back
  -/
  moves : s.moves + left s.threads + 4 * (count - s.idx) ≤
    8 * count + s.spurious + s.startLoop.taken

variable {pool : EventLoopThreadPool} {count : ℕ} {s : Starting}

/-- The steps left change by those of the one thread that moves. -/
theorem left_set {threads : List EventLoopThread} {i : ℕ} {t : EventLoopThread}
    (h : threads[i]? = some t) (t' : EventLoopThread) :
    left (threads.set i t') + t.pc.left = left threads + t'.pc.left := by
  induction threads generalizing i with
  | nil => cases h
  | cons u threads ih =>
    cases i with
    | zero =>
      cases h
      simp only [left, List.set_cons_zero, List.map_cons, List.sum_cons]
      omega
    | succ i =>
      have ih := ih (i := i) h
      simp only [left, List.set_cons_succ, List.map_cons, List.sum_cons] at ih ⊢
      omega

theorem new_inv (baseLoop : ℕ) (count : UInt32) :
    Inv (new baseLoop count).pool count.toNat (new baseLoop count) where
  length := List.length_replicate
  idx_le := Nat.zero_le _
  pool := rfl
  threads i t h := by
    obtain rfl : t = ⟨none, .unborn⟩ := List.eq_of_mem_replicate (List.mem_of_getElem? h)
    exact ⟨rfl, fun hlt => absurd hlt (Nat.not_lt_zero _), fun _ => rfl, fun _ => rfl⟩
  done _ := rfl
  moves := by
    simp [new, idx, left, EventLoopThreadPool.new, setLoopThreadCount, ThreadPc.left,
      StartLoopPc.taken]
    omega

/-- The thread `j` goes on, and with it the thread that calls `Start`, if it is at `j`. -/
theorem fits_set {threads : List EventLoopThread} {idx j : ℕ} {startLoop startLoop' : StartLoopPc}
    {t' : EventLoopThread} (h : ∀ i t, threads[i]? = some t → Fits idx startLoop i t)
    (ht' : Fits idx startLoop' j t') (hstart : startLoop' = startLoop ∨ j = idx) :
    ∀ i t, (threads.set j t')[i]? = some t → Fits idx startLoop' i t := by
  intro i t hi
  rw [List.getElem?_set] at hi
  split at hi
  · rename_i hij
    subst hij
    split at hi
    · cases hi
      exact ht'
    · cases hi
  · rename_i hij
    have hfits := h i t hi
    -- another thread: only the one that `StartLoop` waits for may see its phase change
    refine { hfits with current := fun hcurrent => ?_ }
    rcases hstart with rfl | hj
    · exact hfits.current hcurrent
    · exact absurd (hj.trans hcurrent.symm) hij

/-- The thread that calls `Start` goes on, and no other one. -/
theorem fits_move {threads : List EventLoopThread} {idx : ℕ} {startLoop startLoop' : StartLoopPc}
    {t : EventLoopThread} (h : ∀ i t, threads[i]? = some t → Fits idx startLoop i t)
    (ht : threads[idx]? = some t) (hfits : startLoop'.Fits t.pc) :
    ∀ i t, threads[i]? = some t → Fits idx startLoop' i t := by
  intro i u hi
  refine { h i u hi with current := fun hcurrent => ?_ }
  subst hcurrent
  cases ht.symm.trans hi
  exact hfits

/-- A thread's loop is null exactly until it has stored it. -/
theorem Fits.loop_eq_none {idx i : ℕ} {startLoop : StartLoopPc} {t : EventLoopThread}
    (h : Fits idx startLoop i t) : t.loop = none ↔ t.pc.hasStored = false := by
  rw [h.loop]
  cases t.pc.hasStored <;> simp

/-- `loops_` gets the loop of the thread, and `Start` goes on to the next one. -/
theorem Inv.returns {t : EventLoopThread} (h : Inv pool count s)
    (ht : s.threads[s.idx]? = some t) (hstart : s.startLoop = .returning) :
    Inv pool count { s.moveStart .spawning with
      pool := { s.pool with loops := s.pool.loops ++ [t.loop] } } := by
  have hfits := h.threads _ _ ht
  have hlt : s.idx < count := h.length ▸ (List.getElem?_eq_some_iff.1 ht).1
  have hstored : t.pc.hasStored = true := by
    simpa [StartLoopPc.Fits, hstart] using hfits.current rfl
  have hidx : (s.pool.loops ++ [t.loop]).length = s.idx + 1 := by simp [idx]
  refine ⟨h.length, ?_, ?_, fun i u hi => ?_, fun _ => rfl, ?_⟩
  · show (s.pool.loops ++ [t.loop]).length ≤ count
    omega
  · have hloops : s.pool.loops = (List.range s.idx).map some := by rw [h.pool]
    have hloops' : s.pool.loops ++ [t.loop] = (List.range (s.idx + 1)).map some := by
      -- the loop returned is that of the current thread
      rw [List.range_succ, List.map_append, ← hloops, hfits.loop, hstored]
      rfl
    show { s.pool with loops := s.pool.loops ++ [t.loop] } =
      { pool with loops := (List.range (s.pool.loops ++ [t.loop]).length).map some }
    rw [hidx, hloops', h.pool]
  · show Fits (s.pool.loops ++ [t.loop]).length .spawning i u
    rw [hidx]
    have hother := h.threads i u hi
    refine ⟨hother.loop, fun hle => ?_, fun hcurrent => hother.later (by omega),
      fun hlater => hother.later (by omega)⟩
    -- the threads before the next one: those before this one, and this one
    rcases Nat.lt_succ_iff_lt_or_eq.1 hle with hearlier | rfl
    · exact hother.earlier hearlier
    · cases ht.symm.trans hi
      exact hstored
  · have hmoves := h.moves
    show s.moves + 1 + left s.threads + 4 * (count - (s.pool.loops ++ [t.loop]).length) ≤
      8 * count + s.spurious + 0
    rw [hstart] at hmoves
    simp only [StartLoopPc.taken] at hmoves
    omega

/-- A step of the thread that calls `Start`, which is not waiting. -/
theorem stepStart_inv {t : EventLoopThread} (h : Inv pool count s)
    (ht : s.threads[s.idx]? = some t) (hwaiting : s.startLoop ≠ .waiting) :
    ∃ s', s.stepStart t = .ok s' ∧ Inv pool count s' ∧ s'.moves = s.moves + 1 := by
  have hfits := h.threads _ _ ht
  have hlt : s.idx < count := h.length ▸ (List.getElem?_eq_some_iff.1 ht).1
  have hmoves := h.moves
  unfold stepStart
  split
  · -- the thread is created
    rename_i hstart
    have hpc : t.pc = .unborn := by simpa [StartLoopPc.Fits, hstart] using hfits.current rfl
    have hleft := left_set ht { t with pc := .entered }
    rw [check_true hpc]
    refine ⟨_, rfl, ⟨by simp [setThread, h.length], h.idx_le, h.pool,
      fits_set h.threads ?_ (.inr rfl), fun hdone => absurd hdone (Nat.ne_of_lt hlt), ?_⟩, rfl⟩
    · exact ⟨by simpa [hpc, ThreadPc.hasStored] using hfits.loop,
        fun hlt => absurd hlt (Nat.lt_irrefl _), fun _ => by simp [StartLoopPc.Fits],
        fun hlt => absurd hlt (Nat.lt_irrefl _)⟩
    · simp only [hpc, hstart, ThreadPc.left, StartLoopPc.taken, setThread, idx] at hleft hmoves ⊢
      omega
  · rename_i hstart
    have hborn : t.pc ≠ .unborn := by simpa [StartLoopPc.Fits, hstart] using hfits.current rfl
    split
    · -- `loop_` is not set, so the thread has not notified
      rename_i hloop
      have hstored := hfits.loop_eq_none.1 hloop
      have hwaits : StartLoopPc.waiting.Fits t.pc :=
        ⟨hborn, fun hrunning => by simp [hrunning, ThreadPc.hasStored] at hstored⟩
      refine ⟨_, rfl, ⟨h.length, h.idx_le, h.pool, fits_move h.threads ht hwaits,
        fun hdone => absurd hdone (Nat.ne_of_lt hlt), ?_⟩, rfl⟩
      simp only [hstart, StartLoopPc.taken, moveStart, idx] at hmoves ⊢
      omega
    · rename_i l hloop
      have hreturns : StartLoopPc.returning.Fits t.pc := by
        by_contra hnot
        have hnone := hfits.loop_eq_none.2 (Bool.eq_false_of_not_eq_true hnot)
        rw [hloop] at hnone
        cases hnone
      refine ⟨_, rfl, ⟨h.length, h.idx_le, h.pool, fits_move h.threads ht hreturns,
        fun hdone => absurd hdone (Nat.ne_of_lt hlt), ?_⟩, rfl⟩
      simp only [hstart, StartLoopPc.taken, moveStart, idx] at hmoves ⊢
      omega
  · exact absurd ‹_› hwaiting
  · rename_i hstart
    exact ⟨_, rfl, h.returns ht hstart, rfl⟩

/-- A thread goes on before `notify_one`, from a place where `StartLoop` would not return to one
where it may. -/
theorem Inv.goes {i : ℕ} {t t' : EventLoopThread} (h : Inv pool count s)
    (ht : s.threads[i]? = some t) (hloop : t'.loop = if t'.pc.hasStored then some i else none)
    (hpc : t.pc = .entered ∧ t'.pc = .constructed ∨ t.pc = .constructed ∧ t'.pc = .stored) :
    Inv pool count (s.setThread i t') := by
  have hfits := h.threads _ _ ht
  have hborn : t.pc ≠ .unborn := by rcases hpc with ⟨hpc, -⟩ | ⟨hpc, -⟩ <;> simp [hpc]
  have hstored : t.pc.hasStored = false := by
    rcases hpc with ⟨hpc, -⟩ | ⟨hpc, -⟩ <;> simp [hpc, ThreadPc.hasStored]
  have hleft := left_set ht t'
  have hmoves := h.moves
  refine ⟨by simp [setThread, h.length], h.idx_le, h.pool, fits_set h.threads ?_ (.inl rfl),
    h.done, ?_⟩
  · refine ⟨hloop, fun hearlier => ?_, fun hcurrent => ?_, fun hlater => ?_⟩
    · -- the threads that `StartLoop` has returned for have stored their loop
      rw [hfits.earlier hearlier] at hstored
      cases hstored
    · have hcurrent := hfits.current hcurrent
      show s.startLoop.Fits t'.pc
      rcases hpc with ⟨hpc, hpc'⟩ | ⟨hpc, hpc'⟩
      all_goals
        rw [hpc] at hcurrent
        rw [hpc']
        revert hcurrent
        cases s.startLoop <;> simp [StartLoopPc.Fits, ThreadPc.hasStored]
    · -- and those to come are not born
      exact absurd (hfits.later hlater) hborn
  · show s.moves + 1 + left (s.threads.set i t') + 4 * (count - s.idx) ≤ _
    rcases hpc with ⟨hpc, hpc'⟩ | ⟨hpc, hpc'⟩ <;>
      simp only [hpc, hpc', ThreadPc.left] at hleft <;>
      simp only [setThread] <;> omega

/-- `notify_one`, and the thread goes into `Run`. -/
theorem Inv.notifies {i : ℕ} {t : EventLoopThread} (h : Inv pool count s)
    (ht : s.threads[i]? = some t) (hpc : t.pc = .stored) :
    Inv pool count { s.setThread i { t with pc := .running } with
      startLoop := if s.startLoop = .waiting ∧ i = s.idx then .testing else s.startLoop } := by
  have hfits := h.threads _ _ ht
  have hmoves := h.moves
  have hloop : t.loop = some i := by simpa [hpc, ThreadPc.hasStored] using hfits.loop
  have hleft := left_set ht { t with pc := .running }
  simp only [hpc, ThreadPc.left] at hleft
  have hlater : ¬ s.idx < i := fun hlater => by
    have hunborn := hfits.later hlater
    simp [hpc] at hunborn
  split
  · -- `StartLoop` is woken
    rename_i hwaits
    have hlt : s.idx < count := h.length ▸ hwaits.2 ▸ (List.getElem?_eq_some_iff.1 ht).1
    refine ⟨by simp [setThread, h.length], h.idx_le, h.pool,
      fits_set h.threads ?_ (.inr hwaits.2), fun hdone => absurd hdone (Nat.ne_of_lt hlt), ?_⟩
    · exact ⟨hloop, fun _ => rfl, fun _ => by simp [StartLoopPc.Fits],
        fun hlater' => absurd hlater' hlater⟩
    · show s.moves + 1 + left (s.threads.set i _) + 4 * (count - s.idx) ≤
        8 * count + s.spurious + 1
      rw [hwaits.1] at hmoves
      simp only [StartLoopPc.taken] at hmoves
      omega
  · rename_i hwaits
    refine ⟨by simp [setThread, h.length], h.idx_le, h.pool,
      fits_set h.threads ?_ (.inl rfl), h.done, ?_⟩
    · refine ⟨hloop, fun _ => rfl, fun hcurrent => ?_, fun hlater' => absurd hlater' hlater⟩
      have hfits' := hfits.current hcurrent
      rw [hpc] at hfits'
      cases hstart : s.startLoop with
      | waiting => exact absurd ⟨hstart, hcurrent⟩ hwaits
      | spawning => simp [hstart, StartLoopPc.Fits] at hfits'
      | testing => simp [StartLoopPc.Fits]
      | returning => rfl
    · show s.moves + 1 + left (s.threads.set i _) + 4 * (count - s.idx) ≤
        8 * count + s.spurious + s.startLoop.taken
      omega

/-- A step of a thread that has been created and is not yet in `Run`. -/
theorem stepThread_inv {i : ℕ} {t : EventLoopThread} (h : Inv pool count s)
    (ht : s.threads[i]? = some t) (hborn : t.pc ≠ .unborn) (hrunning : t.pc ≠ .running) :
    ∃ s', s.stepThread i t = .ok s' ∧ Inv pool count s' ∧ s'.moves = s.moves + 1 := by
  have hfits := h.threads _ _ ht
  unfold stepThread
  split
  · exact absurd ‹_› hborn
  · exact absurd ‹_› hrunning
  · rename_i hpc
    -- the assertion of `Run` in the loop thread: `loop_` is still null
    have hloop : t.loop = none := hfits.loop_eq_none.2 (by rw [hpc]; rfl)
    rw [check_true hloop]
    exact ⟨_, rfl, h.goes ht hloop (.inl ⟨hpc, rfl⟩), rfl⟩
  · rename_i hpc
    exact ⟨_, rfl, h.goes ht rfl (.inr ⟨hpc, rfl⟩), rfl⟩
  · rename_i hpc
    -- and here it is set, which the waiter reads under the mutex
    have hloop : t.loop ≠ none := fun hloop => by
      have hstored := hfits.loop_eq_none.1 hloop
      simp [hpc, ThreadPc.hasStored] at hstored
    simp only [check_true hloop]
    exact ⟨_, rfl, h.notifies ht hpc, rfl⟩

/-- Whichever thread moves, the step succeeds and keeps the invariant. -/
theorem step_inv (s : Starting) (op : Op) (h : Inv pool count s) (_ : True) :
    ∃ s' out, step s op = .ok (s', out) ∧ Inv pool count s' := by
  cases op with
  | start =>
    simp only [step]
    split
    · exact ⟨s, (), rfl, h⟩
    · rename_i t ht
      by_cases hwaiting : s.startLoop = .waiting
      · -- `StartLoop` sleeps on the condition variable
        refine ⟨s, (), ?_, h⟩
        simp only [stepStart, hwaiting]
        rfl
      · rcases stepStart_inv h ht hwaiting with ⟨s', hok, hs', -⟩
        exact ⟨s', (), by rw [hok]; rfl, hs'⟩
  | thread i =>
    simp only [step]
    split
    · exact ⟨s, (), rfl, h⟩
    · rename_i t ht
      by_cases hpc : t.pc = .unborn ∨ t.pc = .running
      · refine ⟨s, (), ?_, h⟩
        rcases hpc with hpc | hpc <;> simp only [stepThread, hpc] <;> rfl
      · rcases not_or.1 hpc with ⟨hborn, hrunning⟩
        rcases stepThread_inv h ht hborn hrunning with ⟨s', hok, hs', -⟩
        exact ⟨s', (), by rw [hok]; rfl, hs'⟩
  | spurious =>
    simp only [step]
    split
    · rename_i hstart
      -- a spurious wake-up tests the condition once more, which the bound allows for
      have hmoves := h.moves
      rw [hstart] at hmoves
      refine ⟨_, (), rfl, h.length, h.idx_le, h.pool, fun i t ht => ?_, fun hdone => ?_, ?_⟩
      · have hfits := h.threads i t ht
        refine { hfits with current := fun hcurrent => ?_ }
        have hborn := hfits.current hcurrent
        rw [hstart] at hborn
        exact hborn.1
      · have hspawning := h.done hdone
        simp [hstart] at hspawning
      · simp only [StartLoopPc.taken, idx] at hmoves ⊢
        omega
    · exact ⟨s, (), rfl, h⟩

/-- While `Start` has not returned, a step can be taken that nobody has to wait for. -/
theorem Inv.goes_on (h : Inv pool count s) (hlt : s.idx < count) :
    ∃ op s', op ≠ .spurious ∧ s.step op = .ok (s', ()) ∧ s'.moves = s.moves + 1 := by
  have hi : s.idx < s.threads.length := h.length.symm ▸ hlt
  have ht : s.threads[s.idx]? = some s.threads[s.idx] := List.getElem?_eq_getElem hi
  have hstep : ∀ s', s.stepStart s.threads[s.idx] = .ok s' → s.step .start = .ok (s', ()) :=
    fun s' hok => by simp only [step, ht, hok]; rfl
  by_cases hwaiting : s.startLoop = .waiting
  · -- the thread that it waits for has not notified
    have hfits := (h.threads _ _ ht).current rfl
    rw [hwaiting] at hfits
    rcases stepThread_inv h ht hfits.1 hfits.2 with ⟨s', hok, -, hmoves⟩
    exact ⟨.thread s.idx, s', by simp, by simp only [step, ht, hok]; rfl, hmoves⟩
  · rcases stepStart_inv h ht hwaiting with ⟨s', hok, -, hmoves⟩
    exact ⟨.start, s', by simp, hstep s' hok, hmoves⟩

/-- So does every schedule of `Start` and the loop threads. -/
theorem run_inv (baseLoop : ℕ) (loopThreadCount : UInt32) (ops : List Op) :
    ∃ s outs, Machine.run step (new baseLoop loopThreadCount) ops = .ok (s, outs) ∧
      Inv (new baseLoop loopThreadCount).pool loopThreadCount.toNat s :=
  run_of_inv _ step_inv (new_inv baseLoop loopThreadCount)
    (Guarded.of_forall (fun _ _ _ => trivial) _)

/-- Whatever the order of the steps: no assertion fails; `loops_` holds the loop of each thread
that has been waited for, in their order, and no `NULL`; until `Start` has returned there is a
step to take that does not depend on a spurious wake-up; and the steps are no more than `8` for
each thread and one for each spurious wake-up. -/
theorem start_hands_out_loops (baseLoop : ℕ) (count : UInt32) (ops : List Op) :
    ∃ s outs, Machine.run step (new baseLoop count) ops = .ok (s, outs) ∧
      s.idx ≤ count.toNat ∧ s.pool.loops = (List.range s.idx).map some ∧
      (s.idx < count.toNat →
        ∃ op s', op ≠ .spurious ∧ s.step op = .ok (s', ()) ∧ s'.moves = s.moves + 1) ∧
      s.moves ≤ 8 * count.toNat + s.spurious := by
  rcases run_inv baseLoop count ops with ⟨s, outs, hrun, h⟩
  refine ⟨s, outs, hrun, h.idx_le, by rw [h.pool], h.goes_on, ?_⟩
  have hmoves := h.moves
  rcases Nat.lt_or_eq_of_le h.idx_le with hlt | hdone
  · have htaken : s.startLoop.taken ≤ 4 := by cases s.startLoop <;> decide
    omega
  · rw [h.done hdone] at hmoves
    simp only [StartLoopPc.taken] at hmoves
    omega

end Starting

/-! ## NextLoop -/

/-- `NextLoop` is called `k` times. -/
def calls (p : EventLoopThreadPool) (k : ℕ) :
    Except Fault (EventLoopThreadPool × List (Option ℕ)) :=
  Machine.run (fun p (_ : Unit) => p.nextLoop) p (List.replicate k ())

/-- `NextLoop` can be called any number of times without an assertion that fails. -/
def Survives (p : EventLoopThreadPool) : Prop := ∀ k, ∃ p' outs, p.calls k = .ok (p', outs)

variable {p p' : EventLoopThreadPool}

/-- `next_ + 1` is the count of threads exactly when it is so after the 32 bit wrap. -/
theorem succ_eq_iff (p : EventLoopThreadPool) :
    p.next + 1 = p.loopThreadCount ↔ (p.next.toNat + 1) % 2 ^ 32 = p.loopThreadCount.toNat := by
  rw [← UInt32.toNat_inj, UInt32.toNat_add]
  rfl

/-- Behind the test of `loop_thread_count_`: the loop at `next_`, and `next_` goes on. -/
theorem nextLoop_ok (hcount : p.loopThreadCount ≠ 0) {loop : Option ℕ}
    (hloop : p.loops[p.next.toNat]? = some loop) :
    p.nextLoop = .ok ({ p with
      next := if p.next + 1 = p.loopThreadCount then 0 else p.next + 1 }, loop) := by
  simp only [nextLoop, if_neg hcount, hloop]

theorem calls_succ {k : ℕ} {outs : List (Option ℕ)} (h : p.calls (k + 1) = .ok (p', outs)) :
    ∃ p₁ loop rest, p.nextLoop = .ok (p₁, loop) ∧ p₁.calls k = .ok (p', rest) ∧
      outs = loop :: rest :=
  run_cons_inv h

/-- What every call keeps and what lets every call succeed lets every sequence succeed. -/
theorem survives_of_inv (Inv : EventLoopThreadPool → Prop)
    (hstep : ∀ p, Inv p → ∃ p' loop, p.nextLoop = .ok (p', loop) ∧ Inv p') (h : Inv p) :
    p.Survives := by
  intro k
  rcases run_of_inv Inv (fun p _ hp (_ : True) => hstep p hp) h
    (Guarded.of_forall (fun _ _ _ => trivial) _) with ⟨p', outs, hrun, -⟩
  exact ⟨p', outs, hrun⟩

/-- `next_` is behind the end of its turn, or the turn is longer than the list: `NextLoop` runs off
the end of `loops_`. -/
theorem not_survives (hcount : p.loopThreadCount ≠ 0) (hlen : p.loops.length < 2 ^ 32)
    (hbad : p.loopThreadCount.toNat ≤ p.next.toNat ∨ p.loops.length < p.loopThreadCount.toNat) :
    ¬ p.Survives := by
  intro h
  induction hn : p.loops.length - p.next.toNat generalizing p with
  | zero =>
    rcases h 1 with ⟨p', outs, hrun⟩
    -- the next call reads behind the loops
    have hnone : p.loops[p.next.toNat]? = none := List.getElem?_eq_none (by omega)
    simp only [calls, List.replicate_succ, Machine.run, nextLoop, if_neg hcount, hnone] at hrun
    cases hrun
  | succ n ih =>
    have hlt : p.next.toNat < p.loops.length := by omega
    have hsome := nextLoop_ok hcount (List.getElem?_eq_getElem hlt)
    -- the counter does not come back to 0 before that
    have hne : ¬ p.next + 1 = p.loopThreadCount := by
      rw [succ_eq_iff]
      omega
    rw [if_neg hne] at hsome
    have hnext : (p.next + 1).toNat = p.next.toNat + 1 := by
      rw [UInt32.toNat_add]
      exact Nat.mod_eq_of_lt (by simp; omega)
    refine ih (p := { p with next := p.next + 1 }) hcount hlen (by simp only [hnext]; omega)
      (fun k => ?_) (by simp only [hnext]; omega)
    rcases h (k + 1) with ⟨p', outs, hrun⟩
    rcases calls_succ hrun with ⟨p₁, loop, rest, hfirst, hrest, -⟩
    cases hsome.symm.trans hfirst
    exact ⟨p', rest, hrest⟩

/-- `next_` goes around. -/
theorem nextLoop_turn (hnext : p.next.toNat < p.loopThreadCount.toNat)
    (hlen : p.loopThreadCount.toNat ≤ p.loops.length) :
    ∃ p' loop, p.nextLoop = .ok (p', loop) ∧ p.loops[p.next.toNat]? = some loop ∧
      p'.loopThreadCount = p.loopThreadCount ∧ p'.loops = p.loops ∧
      p'.next.toNat = (p.next.toNat + 1) % p.loopThreadCount.toNat := by
  have hcount : p.loopThreadCount ≠ 0 := fun h0 => by simp [h0] at hnext
  have hlt : p.next.toNat < p.loops.length := hnext.trans_le hlen
  have hget := List.getElem?_eq_getElem hlt
  have hmod : (p.next.toNat + 1) % 2 ^ 32 = p.next.toNat + 1 := by
    have := p.loopThreadCount.toNat_lt
    exact Nat.mod_eq_of_lt (by omega)
  refine ⟨_, _, nextLoop_ok hcount hget, hget, rfl, rfl, ?_⟩
  have hiff := succ_eq_iff p
  rw [hmod] at hiff
  -- the counter wraps exactly after the last loop
  by_cases hlast : p.next + 1 = p.loopThreadCount
  · simp only [if_pos hlast]
    rw [hiff.1 hlast, Nat.mod_self]
    rfl
  · have hne := mt hiff.2 hlast
    simp only [if_neg hlast]
    rw [UInt32.toNat_add, Nat.mod_eq_of_lt (show p.next.toNat + 1 < _ by omega)]
    exact hmod

/-- `NextLoop` can be called for ever exactly when there are no threads, or `next_` is below the
number of threads set last and no loop of these is missing, or `loops_` is so long that `next_`
wraps around before its end. -/
theorem nextLoop_survives_iff (p : EventLoopThreadPool) :
    p.Survives ↔ p.loopThreadCount = 0 ∨
      (p.next.toNat < p.loopThreadCount.toNat ∧ p.loopThreadCount.toNat ≤ p.loops.length) ∨
      2 ^ 32 ≤ p.loops.length := by
  constructor
  · intro h
    by_contra hnot
    rcases not_or.1 hnot with ⟨hcount, hnot⟩
    exact not_survives hcount (by omega) (by omega) h
  · rintro (hcount | ⟨hnext, hlen⟩ | hlen)
    · -- no threads: every call returns the base loop
      refine survives_of_inv (fun p => p.loopThreadCount = 0) (fun p hp => ?_) hcount
      exact ⟨p, some p.baseLoop, by simp only [nextLoop, if_pos hp], hp⟩
    · -- enough loops: the counter stays below their number
      refine survives_of_inv (fun p => p.next.toNat < p.loopThreadCount.toNat ∧
        p.loopThreadCount.toNat ≤ p.loops.length) (fun p hp => ?_) ⟨hnext, hlen⟩
      rcases nextLoop_turn hp.1 hp.2 with ⟨p', loop, hok, -, hcount, hloops, hnext'⟩
      refine ⟨p', loop, hok, ?_, by rw [hcount, hloops]; exact hp.2⟩
      rw [hnext', hcount]
      exact Nat.mod_lt _ (Nat.zero_lt_of_lt hp.1)
    · -- a counter of 32 bits cannot get behind this many loops
      refine survives_of_inv (fun p => 2 ^ 32 ≤ p.loops.length) (fun p hp => ?_) hlen
      by_cases hcount : p.loopThreadCount = 0
      · exact ⟨p, some p.baseLoop, by simp only [nextLoop, if_pos hcount], hp⟩
      · have hlt : p.next.toNat < p.loops.length := p.next.toNat_lt.trans_le hp
        exact ⟨_, _, nextLoop_ok hcount (List.getElem?_eq_getElem hlt), hp⟩

/-- Then the loops are handed out in turn, from the one whose turn it is. -/
theorem nextLoop_round_robin (p : EventLoopThreadPool)
    (hnext : p.next.toNat < p.loopThreadCount.toNat)
    (hlen : p.loopThreadCount.toNat ≤ p.loops.length) (k : ℕ) :
    ∃ p' outs, p.calls k = .ok (p', outs) ∧ outs.length = k ∧
      ∀ i < k, outs[i]? = p.loops[(p.next.toNat + i) % p.loopThreadCount.toNat]? := by
  induction k generalizing p with
  | zero => exact ⟨p, [], rfl, rfl, fun i hi => absurd hi (Nat.not_lt_zero i)⟩
  | succ k ih =>
    rcases nextLoop_turn hnext hlen with ⟨p₁, loop, hok, hget, hcount, hloops, hnext₁⟩
    have hpos : 0 < p.loopThreadCount.toNat := Nat.zero_lt_of_lt hnext
    rcases ih p₁ (by rw [hnext₁, hcount]; exact Nat.mod_lt _ hpos) (by rwa [hcount, hloops])
      with ⟨p', outs, hrun, hlength, hturn⟩
    refine ⟨p', loop :: outs, run_cons_ok hok hrun, by rw [List.length_cons, hlength],
      fun i hi => ?_⟩
    cases i with
    | zero => rw [Nat.add_zero, Nat.mod_eq_of_lt hnext, hget, List.getElem?_cons_zero]
    | succ i =>
      rw [List.getElem?_cons_succ, hturn i (Nat.lt_of_succ_lt_succ hi), hloops, hcount, hnext₁,
        Nat.mod_add_mod, Nat.add_right_comm, Nat.add_assoc]

example : ((⟨9, 2, 1, [some 0, some 1]⟩ : EventLoopThreadPool).calls 3).map Prod.snd =
    .ok [some 1, some 0, some 1] := by
  decide

/-- Without threads every call returns the base loop. -/
theorem calls_baseLoop (hcount : p.loopThreadCount = 0) (k : ℕ) :
    p.calls k = .ok (p, List.replicate k (some p.baseLoop)) := by
  induction k with
  | zero => rfl
  | succ k ih => exact run_cons_ok (by simp only [nextLoop, if_pos hcount]) ih

/-- Whatever the order of the steps of `Start` was: when it has returned, the calls of `NextLoop`
get the loops of the threads in turn, each of them that of another thread, and the base loop when
there is no thread. -/
theorem threads_take_turns (baseLoop : ℕ) (count : UInt32) (ops : List Starting.Op) (s : Starting)
    (outs : List Unit)
    (hrun : Machine.run Starting.step (Starting.new baseLoop count) ops = .ok (s, outs))
    (hdone : s.idx = count.toNat) (k : ℕ) :
    ∃ p', s.pool.calls k = .ok (p', (List.range k).map fun i =>
      if count = 0 then some baseLoop else some (i % count.toNat)) := by
  rcases Starting.run_inv baseLoop count ops with ⟨s', outs', hrun', h⟩
  cases hrun'.symm.trans hrun
  have hpool := h.pool
  rw [hdone] at hpool
  rw [hpool]
  -- without threads `GetNextLoop` returns the base loop
  by_cases hcount : count = 0
  · have houts : ((List.range k).map fun i => if count = 0 then some baseLoop else
        some (i % count.toNat)) = List.replicate k (some baseLoop) := by
      simp only [if_pos hcount, List.map_const', List.length_range]
    rw [houts]
    exact ⟨{ (Starting.new baseLoop count).pool with loops := (List.range count.toNat).map some },
      calls_baseLoop hcount k⟩
  · have hpos : 0 < count.toNat := Nat.pos_of_ne_zero fun h0 => hcount (UInt32.toNat_inj.1 h0)
    rcases nextLoop_round_robin
      { (Starting.new baseLoop count).pool with loops := (List.range count.toNat).map some } hpos
      (by simp [Starting.new, setLoopThreadCount]) k with ⟨p', outs, hrun, hlength, hturn⟩
    have houts : outs = (List.range k).map fun i => if count = 0 then some baseLoop else
        some (i % count.toNat) := by
      refine List.ext_getElem? fun i => ?_
      rcases Nat.lt_or_ge i k with hi | hi
      · have hlt := Nat.mod_lt i hpos
        rw [hturn i hi]
        simp [Starting.new, setLoopThreadCount, EventLoopThreadPool.new, hcount, hi, hlt]
      · rw [List.getElem?_eq_none (hlength.le.trans hi), List.getElem?_eq_none (by simpa using hi)]
    exact ⟨p', houts ▸ hrun⟩

/-- One thread, which `Start` has to wait for. -/
theorem threads_take_turns_one :
    ∃ p', (⟨9, 1, 0, [some 0]⟩ : EventLoopThreadPool).calls 2 =
      .ok (p', (List.range 2).map fun i =>
        if (1 : UInt32) = 0 then some 9 else some (i % (1 : UInt32).toNat)) :=
  threads_take_turns 9 1 [.start, .start, .thread 0, .thread 0, .thread 0, .start, .start] _ _ rfl
    rfl 2

end EventLoopThreadPool

end FxServer
